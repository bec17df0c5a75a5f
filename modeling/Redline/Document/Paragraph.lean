import Redline.Document.Forest
import Redline.Text.Writing

/-!
# Paragraphs

What a document shows of its paragraphs.  A paragraph's text is that of its runs and of the runs of
its links; search and replacement see the runs alone.  The paragraphs of text boxes are not among
those of the document.

## Main definitions

* `Paragraph` — a paragraph with its content.
* `Forest.paragraphs` — the paragraphs of a forest, in order.
* `Forest.shownText`, `Forest.runText` — the two texts of a paragraph's content.
* `Forest.spliceRuns` — replaces a stretch of the run text.
-/

namespace Redline

open Redline.Text

/-- A paragraph with its content. -/
structure Paragraph where
  handle : Handle
  style : String
  alignment : Option Alignment
  content : Forest
deriving DecidableEq, Repr

namespace Forest

/-- The paragraphs of a forest in document order, without those of text boxes. -/
def paragraphs : Forest → List Paragraph
  | .nil => []
  | .cons (.paragraph h style alignment) inside rest =>
    ⟨h, style, alignment, inside⟩ :: rest.paragraphs
  | .cons _ inside rest => inside.paragraphs ++ rest.paragraphs

/-- The handles of all paragraphs of a forest in document order, text boxes included. -/
def everyParagraph : Forest → List Handle
  | .nil => []
  | .cons (.paragraph h _ _) inside rest => h :: (inside.everyParagraph ++ rest.everyParagraph)
  | .cons _ inside rest => inside.everyParagraph ++ rest.everyParagraph

/-- The texts of the runs that stand directly in a forest. -/
def runTexts : Forest → List String
  | .nil => []
  | .cons (.run text _) _ rest => text :: rest.runTexts
  | .cons _ _ rest => rest.runTexts

/-- The text of a paragraph's runs. -/
def runText (content : Forest) : List Char := content.runTexts.flatMap String.toList

/-- The text of a paragraph: its runs and the runs of its links. -/
def shownText : Forest → List Char
  | .nil => []
  | .cons (.run text _) _ rest => text.toList ++ rest.shownText
  | .cons .link inside rest => inside.runText ++ rest.shownText
  | .cons _ _ rest => rest.shownText

/-- Changes the look of the runs that stand directly in a forest. -/
def formatRuns (change : RunFormat → RunFormat) : Forest → Forest
  | .nil => .nil
  | .cons (.run text format) inside rest =>
    .cons (.run text (change format)) inside (rest.formatRuns change)
  | .cons e inside rest => .cons e inside (rest.formatRuns change)

/-- A forest of one run that holds what can be written of a text. -/
def runOf (text : List Char) : Forest :=
  single (.run (String.ofList (written text)) {}) .nil

/-- The characters of a run that begins at `position` that stay when those from `start` to `stop`
give way to a new text. -/
def spliced (start stop position : Nat) (new text : List Char) : List Char :=
  let low := max start position - position
  let high := min stop (position + text.length) - position
  text.take low ++ new ++ text.drop high

/-- Replaces the characters of the run text from `start` to `stop`.  The new text goes into the
first run that holds one of them; every run that is touched loses its text boxes.  The flag says
whether all could be written: if not, the runs behind the one that was refused stay as they are. -/
def spliceFrom (start stop position : Nat) (new : List Char) : Forest → Forest × Bool
  | .nil => (.nil, true)
  | .cons (.run text format) inside rest =>
    let next := position + text.toList.length
    if next ≤ start ∨ stop ≤ position then
      let (rest, sound) := spliceFrom start stop next new rest
      (.cons (.run text format) inside rest, sound)
    else
      let merged := spliced start stop position new text.toList
      let touched := Element.run (String.ofList (written merged)) format
      if isWritable merged then
        let (rest, sound) := spliceFrom start stop next [] rest
        (.cons touched .nil rest, sound)
      else (.cons touched .nil rest, false)
  | .cons e inside rest =>
    let (rest, sound) := spliceFrom start stop position new rest
    (.cons e inside rest, sound)

/-- Replaces the characters of the run text from `start` to `stop`. -/
def spliceRuns (start stop : Nat) (new : List Char) (content : Forest) : Forest × Bool :=
  spliceFrom start stop 0 new content

@[simp] theorem paragraphs_append (f g : Forest) :
    (f ++ g).paragraphs = f.paragraphs ++ g.paragraphs := by
  induction f with
  | nil => rfl
  | cons e inside rest _ ih => cases e <;> simp [paragraphs, ih]

@[simp] theorem everyParagraph_append (f g : Forest) :
    (f ++ g).everyParagraph = f.everyParagraph ++ g.everyParagraph := by
  induction f with
  | nil => rfl
  | cons e inside rest _ ih => cases e <;> simp [everyParagraph, ih]

end Forest

namespace Paragraph

/-- The text of a paragraph. -/
def text (p : Paragraph) : String := String.ofList p.content.shownText

/-- The paragraph as a list of paragraphs shows it. -/
def passage (p : Paragraph) (index : Nat) : Passage := ⟨index, p.text, p.style, p.handle⟩

end Paragraph

end Redline
