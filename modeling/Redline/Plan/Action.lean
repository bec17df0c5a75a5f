import Redline.Json.Basic

/-!
# Edit actions

An edit plan is a list of actions.  An action that brings new text brings it in blocks; one that
changes the look of text names a style.

## Main definitions

* `Style`, `Block`, `Action`, `EditPlan` — the parts of a plan.
* `Action.toJson`, `EditPlan.toJson` — their written form.
-/

namespace Redline

/-- The look of a text; what is left out stays as it is. -/
structure Style where
  color : Option String := none
  alignment : Option String := none
  bold : Option Bool := none
deriving DecidableEq, Repr

/-- A paragraph of new text. -/
inductive Block where
  | paragraph (text : String) (style : Option Style)
  | heading (text : String) (level : Int) (style : Option Style)
deriving DecidableEq, Repr

/-- The headings that a style is given to. -/
inductive HeadingTarget where
  | all
  | specific
  | other (name : String)
deriving DecidableEq, Repr

/-- The paragraphs that a style is given to. -/
inductive FormatTarget where
  | all
  | headings
  | paragraphs
  | other (name : String)
deriving DecidableEq, Repr

/-- Where new text goes. -/
inductive InsertLocation where
  | start
  | stop
  | afterHeading
  | atPosition
  | other (name : String)
deriving DecidableEq, Repr

/-- The kinds of actions. -/
inductive ActionKind where
  | replaceSection
  | updateHeadingStyle
  | updateTextFormat
  | correctText
  | insertText
deriving DecidableEq, Repr

/-- One change of a document.  A heading text and a position are kept as they were given: they have
to be a text and an integer only where they are used. -/
inductive Action where
  | replaceSection (anchor : String) (blocks : List Block)
  | updateHeadingStyle (target : HeadingTarget) (headingText : Json) (style : Style)
  | updateTextFormat (target : FormatTarget) (style : Style)
  | correctText (search replacement : String) (matchCase : Option Bool)
  | insertText (anchor : String) (location : InsertLocation) (headingText position : Json)
      (blocks : List Block)
deriving Repr

/-- A list of actions. -/
structure EditPlan where
  actions : List Action
deriving Repr

/-! ## Names -/

/-- The names of the four alignments. -/
def alignmentNames : List String := ["left", "center", "right", "justify"]

namespace HeadingTarget

/-- The name of a target. -/
def name : HeadingTarget → String
  | .all => "all"
  | .specific => "specific"
  | .other name => name

/-- The target of a name. -/
def ofName (name : String) : HeadingTarget :=
  if name = "all" then .all else if name = "specific" then .specific else .other name

/-- Whether a target is one that plans may have. -/
def isKnown : HeadingTarget → Bool
  | .other _ => false
  | _ => true

theorem name_ofName (n : String) : (ofName n).name = n := by grind [ofName, name]

end HeadingTarget

namespace FormatTarget

/-- The name of a target. -/
def name : FormatTarget → String
  | .all => "all"
  | .headings => "headings"
  | .paragraphs => "paragraphs"
  | .other name => name

/-- The target of a name. -/
def ofName (name : String) : FormatTarget :=
  if name = "all" then .all
  else if name = "headings" then .headings
  else if name = "paragraphs" then .paragraphs
  else .other name

/-- Whether a target is one that plans may have. -/
def isKnown : FormatTarget → Bool
  | .other _ => false
  | _ => true

theorem name_ofName (n : String) : (ofName n).name = n := by grind [ofName, name]

end FormatTarget

namespace InsertLocation

/-- The name of a location. -/
def name : InsertLocation → String
  | .start => "start"
  | .stop => "end"
  | .afterHeading => "after_heading"
  | .atPosition => "at_position"
  | .other name => name

/-- The location of a name. -/
def ofName (name : String) : InsertLocation :=
  if name = "start" then .start
  else if name = "end" then .stop
  else if name = "after_heading" then .afterHeading
  else if name = "at_position" then .atPosition
  else .other name

/-- Whether a location is one that plans may have. -/
def isKnown : InsertLocation → Bool
  | .other _ => false
  | _ => true

theorem name_ofName (n : String) : (ofName n).name = n := by grind [ofName, name]

end InsertLocation

namespace ActionKind

/-- The kinds in the order in which they are listed to the author of a plan. -/
def all : List ActionKind :=
  [.replaceSection, .updateHeadingStyle, .updateTextFormat, .correctText, .insertText]

/-- The name of a kind. -/
def name : ActionKind → String
  | .replaceSection => "replace_section"
  | .updateHeadingStyle => "update_heading_style"
  | .updateTextFormat => "update_text_format"
  | .correctText => "correct_text"
  | .insertText => "insert_text"

/-- The kind of a name. -/
def ofName? (name : String) : Option ActionKind := all.find? fun kind => kind.name == name

end ActionKind

/-- The kind of an action. -/
def Action.kind : Action → ActionKind
  | .replaceSection .. => .replaceSection
  | .updateHeadingStyle .. => .updateHeadingStyle
  | .updateTextFormat .. => .updateTextFormat
  | .correctText .. => .correctText
  | .insertText .. => .insertText

/-! ## Written forms

A field that holds nothing is left out. -/

/-- A style, without what it leaves open. -/
def Style.toJson (style : Style) : Json :=
  .obj (Json.Fields.present [
    ("color", Json.ofString? style.color), ("alignment", Json.ofString? style.alignment),
    ("bold", (style.bold.map Json.bool).getD .null)])

/-- A style that may be missing. -/
def Style.toJson? (style : Option Style) : Json := (style.map Style.toJson).getD .null

/-- A block. -/
def Block.toJson : Block → Json
  | .paragraph text style =>
    .obj (Json.Fields.present [
      ("type", .str "paragraph"), ("text", .str text), ("style", Style.toJson? style)])
  | .heading text level style =>
    .obj (Json.Fields.present [
      ("type", .str "heading"), ("level", .int level), ("text", .str text),
      ("style", Style.toJson? style)])

/-- An action. -/
def Action.toJson (action : Action) : Json :=
  .obj (Json.Fields.present (("type", .str action.kind.name) :: match action with
    | .replaceSection anchor blocks =>
      [("anchor", .str anchor), ("blocks", .arr (blocks.map Block.toJson))]
    | .updateHeadingStyle target headingText style =>
      [("target", .str target.name), ("heading_text", headingText), ("style", style.toJson)]
    | .updateTextFormat target style =>
      [("target", .str target.name), ("style", style.toJson)]
    | .correctText search replacement matchCase =>
      [("search_text", .str search), ("replacement_text", .str replacement),
        ("case_sensitive", (matchCase.map Json.bool).getD .null)]
    | .insertText anchor location headingText position blocks =>
      [("anchor", .str anchor), ("location", .str location.name),
        ("heading_text", headingText), ("position", position),
        ("blocks", .arr (blocks.map Block.toJson))]))

/-- The version that plans are written in. -/
def EditPlan.version : String := "1.0"

/-- A plan. -/
def EditPlan.toJson (plan : EditPlan) : Json :=
  .obj [("version", .str EditPlan.version), ("actions", .arr (plan.actions.map Action.toJson))]

end Redline
