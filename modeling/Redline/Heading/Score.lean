import Redline.Number.Binary64
import Redline.Text.Blank
import Redline.Text.Lowercase
import Redline.Text.Occurrence
import Redline.Text.Word

/-!
# How well a heading answers to a text

Two texts are compared without case and without the blanks around them.  Equal texts score one.  A
heading that contains the text scores the share of its length that the text covers; a heading that
is contained in the text scores half its share.  Otherwise three tenths of the share of the text's
words that the heading has.

## Main definitions

* `Likeness` — the ways in which a heading can answer to a text.
* `Likeness.exact` — the score as a fraction.
* `Likeness.value` — the score as it is computed, each division and product rounded.
* `Score` — a score of any origin, and the order of scores.
* `overlapScore` — the standard score.
* `answersTo` — whether one of two texts contains the other.
-/

namespace Redline.Heading

open Redline.Text

/-- A text as it is compared. -/
def normalized (text : String) : List Char := lower (strip text.toList)

/-- How a heading answers to a text. -/
inductive Likeness where
  /-- Not at all. -/
  | none
  /-- The two are equal. -/
  | equal
  /-- The heading contains the text: the two lengths. -/
  | within (text heading : Nat)
  /-- The text contains the heading: the two lengths. -/
  | around (heading text : Nat)
  /-- How many of the text's words the heading has, of how many. -/
  | words (hits count : Nat)
deriving DecidableEq, Repr

/-- How a heading answers to a text, both as they are compared. -/
def likenessOf (text heading : List Char) : Likeness :=
  if text.isEmpty || heading.isEmpty then .none
  else if text == heading then .equal
  else if occursIn text heading then .within text.length heading.length
  else if occursIn heading text then .around heading.length text.length
  else
    let wanted := Text.words text
    let held := Text.words heading
    if wanted.isEmpty then .none else .words (wanted.countP held.contains) wanted.length

/-- How a heading answers to a text. -/
def likeness (text heading : String) : Likeness := likenessOf (normalized text) (normalized heading)

namespace Likeness

/-- The score as a fraction. -/
def exact : Likeness → Rat
  | .none => 0
  | .equal => 1
  | .within text heading => mkRat text heading
  | .around heading text => mkRat heading text * mkRat 1 2
  | .words hits count => mkRat hits count * mkRat 3 10

/-- The product of a share with a weight of `num / 2 ^ power`, rounded. -/
def weighted (share : Binary64) (num power : Nat) : Binary64 :=
  match share with
  | .finite negative mantissa exponent =>
    let (n, d) := Binary64.fraction mantissa exponent
    .round negative (n * num) (d * Binary64.powerOfTwo power)
  | other => other

/-- The score as it is computed: the share is rounded, then its product with the weight, three
tenths being themselves the nearest number to that fraction. -/
def value : Likeness → Binary64
  | .none => .ofInt 0
  | .equal => .ofInt 1
  | .within text heading => .round false text heading
  | .around heading text => weighted (.round false heading text) 1 1
  | .words hits count => weighted (.round false hits count) 5404319552844595 54

end Likeness

/-- A score: an exact number, an infinity, or no number at all. -/
inductive Score where
  | exact (value : Rat)
  | infinite (negative : Bool)
  | undefined
deriving DecidableEq

namespace Score

/-- The score of a 64-bit number. -/
def ofBinary64 (x : Binary64) : Score :=
  match x with
  | .infinite negative => .infinite negative
  | .undefined => .undefined
  | .finite _ _ _ => .exact (x.toRat?.getD 0)

/-- A score as the nearest 64-bit number. -/
def toBinary64 : Score → Binary64
  | .exact value => .ofRat value
  | .infinite negative => .infinite negative
  | .undefined => .undefined

/-- Whether a score exceeds another one; what is no number exceeds nothing and is not exceeded. -/
def exceeds : Score → Score → Bool
  | .exact a, .exact b => b < a
  | .infinite false, .exact _ => true
  | .exact _, .infinite true => true
  | .infinite false, .infinite true => true
  | _, _ => false

/-- Whether a score reaches a bound that it has to exceed: it does not when it is the bound or
less. -/
def atMost : Score → Score → Bool
  | .exact a, .exact b => a ≤ b
  | .exact _, .infinite false => true
  | .infinite true, .exact _ => true
  | .infinite a, .infinite b => a == b || (a && !b)
  | _, _ => false

/-- The score of equal texts. -/
def top : Score := .exact 1

/-- The score of texts that have nothing in common. -/
def zero : Score := .exact 0

end Score

/-- A rule that scores a heading, the second text, against a text. -/
abbrev Scorer := String → String → Score

/-- The standard score. -/
def overlapScore : Scorer := fun text heading => .ofBinary64 (likeness text heading).value

/-- The scores of a table: a heading's entry whatever the text, zero when there is none. -/
def tableScore (table : List (String × Score)) : Scorer := fun _ heading =>
  (table.lookup heading).getD .zero

/-- Whether two texts are equal or one contains the other, both as they are compared; a text
without content answers to nothing. -/
def answersTo (heading anchor : String) : Bool :=
  let h := normalized heading
  let a := normalized anchor
  if h.isEmpty || a.isEmpty then false else h == a || occursIn a h || occursIn h a

end Redline.Heading
