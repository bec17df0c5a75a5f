import Redline.Heading.Score
import Redline.Passage
import Redline.Rules.Basic

/-!
# The best heading for a text

## Main definitions

* `headings` — the headings among paragraphs.
* `best?` — the first heading with the highest score, if that exceeds the threshold.
-/

namespace Redline

namespace Heading

/-- The headings among paragraphs, in order. -/
def headings (rules : Rules) (passages : List Passage) : List Passage :=
  passages.filter fun p => rules.isHeading p.style

/-- Goes through headings with the best one so far.  A full score ends the search at once, and only
a higher score displaces the best one. -/
def bestFrom (scorer : Scorer) (text : String) (best : Option Passage) (score : Score) :
    List Passage → Option Passage × Score
  | [] => (best, score)
  | p :: rest =>
    let s := scorer text p.text
    if s = .top then (some p, s)
    else if s.exceeds score then bestFrom scorer text (some p) s rest
    else bestFrom scorer text best score rest

/-- The first heading with the highest score and that score, if it exceeds the threshold.  A full
score is taken whatever the threshold is. -/
def best? (rules : Rules) (scorer : Scorer) (passages : List Passage) (text : String) :
    Option (Passage × Score) :=
  match bestFrom scorer text none .zero (headings rules passages) with
  | (some p, score) =>
    if score = .top then some (p, score)
    else if score.atMost (.ofBinary64 rules.matchThreshold) then none
    else some (p, score)
  | (none, _) => none

end Heading

end Redline
