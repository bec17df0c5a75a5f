import Redline.Color
import Redline.Number.Binary64

/-!
# Rules

The limits, names and thresholds that plans are read and run under.

## Main definitions

* `Rules` — a set of rules; its default values are the standard ones.
* `Rules.headingLevel?` — the heading level of a style.
* `Rules.headingStyle` — the style of a heading level.
-/

namespace Redline

/-- The colors that have a name. -/
def standardColors : Color.Names := [
  ("black", "000000"), ("white", "FFFFFF"), ("red", "FF0000"), ("green", "008000"),
  ("blue", "0000FF"), ("yellow", "FFFF00"), ("cyan", "00FFFF"), ("magenta", "FF00FF"),
  ("gray", "808080"), ("grey", "808080"), ("orange", "FFA500"), ("purple", "800080"),
  ("pink", "FFC0CB"), ("brown", "A52A2A"), ("navy", "000080"), ("teal", "008080")]

/-- The words of a prompt that say nothing about its subject. -/
def standardStopWords : List String := [
  "the", "a", "an", "and", "or", "but", "in", "on", "at", "to", "for", "of", "with", "by",
  "is", "are", "was", "were", "be", "been", "being", "have", "has", "had", "do", "does", "did",
  "will", "would", "should", "could", "may", "might", "must", "can", "this", "that", "these",
  "those", "i", "you", "he", "she", "it", "we", "they", "his", "her", "its", "our", "their",
  "add", "insert", "write", "create", "make", "change", "fix", "update", "more", "about",
  "information"]

/-- The rules that plans are read and run under. -/
structure Rules where
  /-- How many actions a plan may have. -/
  maxActions : Int := 50
  /-- How many blocks an action may have. -/
  maxBlocks : Int := 100
  /-- How many characters a text may have. -/
  maxChars : Int := 100000
  /-- The named colors, in order. -/
  namedColors : Color.Names := standardColors
  /-- The style of a paragraph that is no heading. -/
  normalStyle : String := "Normal"
  /-- The heading styles and their levels, in order. -/
  headingStyles : List (String × Int) := [("Heading 1", 1), ("Heading 2", 2), ("Heading 3", 3)]
  /-- The anchor that stands for the selection, or for the whole body when nothing is selected. -/
  defaultAnchor : String := "main"
  /-- The anchor that stands for the selection that was marked last. -/
  selectionAnchor : String := "selected"
  /-- What the tag of a marked selection begins with. -/
  selectionPrefix : String := "selected_"
  /-- The score that a heading has to exceed. -/
  matchThreshold : Binary64 := .ofScientific false 1 (-1)
  /-- The length that a block's text has to exceed to be found by a part of it. -/
  rematchMinChars : Int := 10
  /-- How many paragraphs a section of the context shows. -/
  contextParagraphs : Int := 3
  /-- How many characters a paragraph of the context shows. -/
  contextParagraphChars : Int := 300
  /-- How many characters the summary of the context has. -/
  contextSummaryChars : Int := 500
  /-- The words of a prompt that are no keywords. -/
  stopWords : List String := standardStopWords

/-- The standard rules. -/
def Rules.standard : Rules := {}

namespace Rules

/-- The heading level of a style; an empty name is no style. -/
def headingLevel? (rules : Rules) (style : String) : Option Int :=
  if style.isEmpty then none else rules.headingStyles.lookup style

/-- Whether paragraphs of a style are headings. -/
def isHeading (rules : Rules) (style : String) : Bool := (rules.headingLevel? style).isSome

/-- The style of a heading level: the first one that has it, else the one named after it. -/
def headingStyle (rules : Rules) (level : Int) : String :=
  match rules.headingStyles.find? fun (_, l) => l == level with
  | some (name, _) => name
  | none => s!"Heading {level}"

end Rules

end Redline
