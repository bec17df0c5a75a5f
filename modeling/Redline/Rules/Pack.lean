import Redline.Json.Coercion
import Redline.Json.Display
import Redline.Rules.Basic

/-!
# Rule packs

A rule pack is an object that overrides some of the standard rules.  A section that is missing or
empty leaves its rules as they are; numbers and names may be given as any value that can be read as
one.

## Main definitions

* `Rules.ofPack` — the rules of a pack.
-/

namespace Redline.Rules

open Redline.Text

/-- A section of a pack, an empty one when it is missing. -/
def packSection (pack : Json) (key : String) : Except Fault Json.Fields := do
  match ← pack.member key with
  | some value => if value.isTruthy then value.fieldsOf else .ok []
  | none => .ok []

/-- An integer of a section. -/
def integerOr (fields : Json.Fields) (key : String) (standard : Int) : Except Fault Int :=
  match fields.lookup key with
  | some value => value.toInteger
  | none => .ok standard

/-- A number of a section. -/
def numberOr (fields : Json.Fields) (key : String) (standard : Binary64) :
    Except Fault Binary64 :=
  match fields.lookup key with
  | some value => value.toNumber
  | none => .ok standard

/-- A text of a section. -/
def textOr (fields : Json.Fields) (key standard : String) : Except Fault String :=
  match fields.lookup key with
  | some value => value.display
  | none => .ok standard

/-- A text in lower case. -/
def lowered (text : String) : String := String.ofList (lower text.toList)

/-- Sets a named color: a name that is there already keeps its place. -/
def putColor (names : Color.Names) (name digits : String) : Color.Names :=
  match names with
  | [] => [(name, digits)]
  | (n, d) :: rest =>
    if n == name then (n, digits) :: rest else (n, d) :: putColor rest name digits

/-- The named colors of a pack: lower-case names, digits in upper case without number signs. -/
def readColors (fields : Json.Fields) : Except Fault Color.Names :=
  fields.foldlM (fun names (key, value) => do
    let digits ← value.display
    .ok (putColor names (lowered key)
      (String.ofList (upper (Color.withoutSigns digits.toList))))) []

/-- The heading styles of a pack. -/
def readStyles : Json.Fields → Except Fault (List (String × Int))
  | [] => .ok []
  | (key, value) :: rest => do
    let level ← value.toInteger
    let others ← readStyles rest
    .ok ((key, level) :: others)

/-- The fields of an optional part of a section that counts as given. -/
def givenFields (value : Option Json) : Except Fault (Option Json.Fields) :=
  match value with
  | some v => if v.isTruthy then (v.fieldsOf).map some else .ok none
  | none => .ok none

/-- The stop words of a pack. -/
def readStopWords (value : Option Json) : Except Fault (Option (List String)) :=
  match value with
  | some v =>
    if v.isTruthy then do
      let words ← v.elements
      let shown ← words.mapM Json.display
      .ok (some (shown.map lowered))
    else .ok none
  | none => .ok none

/-- The rules of a pack.  The sections are read in a fixed order, and the first value that cannot
be read is the fault. -/
def ofPack (pack : Json) : Except Fault Rules := do
  let base := Rules.standard
  let limits ← packSection pack "limits"
  let maxActions ← integerOr limits "max_actions" base.maxActions
  let maxBlocks ← integerOr limits "max_blocks_per_action" base.maxBlocks
  let maxChars ← integerOr limits "max_text_chars" base.maxChars
  let colors ← givenFields (← pack.member "named_colors")
  let namedColors ← colors.mapM readColors
  let styles ← packSection pack "styles"
  let normalStyle ← textOr styles "normal" base.normalStyle
  let headings ← givenFields (styles.lookup "headings")
  let headingStyles ← headings.mapM readStyles
  let anchors ← packSection pack "anchors"
  let defaultAnchor ← textOr anchors "default" base.defaultAnchor
  let selectionAnchor ← textOr anchors "selection" base.selectionAnchor
  let selectionPrefix ← textOr anchors "selection_tag_prefix" base.selectionPrefix
  let matching ← packSection pack "matching"
  let matchThreshold ← numberOr matching "heading_match_threshold" base.matchThreshold
  let rematchMinChars ← integerOr matching "rematch_min_chars" base.rematchMinChars
  let context ← packSection pack "context"
  let contextParagraphs ← integerOr context "section_paragraphs" base.contextParagraphs
  let contextParagraphChars ← integerOr context "paragraph_chars" base.contextParagraphChars
  let contextSummaryChars ← integerOr context "summary_chars" base.contextSummaryChars
  let stopWords ← readStopWords (context.lookup "stop_words")
  .ok {
    maxActions, maxBlocks, maxChars
    namedColors := namedColors.getD base.namedColors
    normalStyle
    headingStyles := headingStyles.getD base.headingStyles
    defaultAnchor, selectionAnchor, selectionPrefix
    matchThreshold, rematchMinChars
    contextParagraphs, contextParagraphChars, contextSummaryChars
    stopWords := stopWords.getD base.stopWords }

end Redline.Rules
