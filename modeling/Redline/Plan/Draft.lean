import Redline.Json.Coercion
import Redline.Json.Display
import Redline.Plan.Action

/-!
# Drafts of actions

A draft is an action that has been taken apart into its fields but not been held to any rule: the
fields hold whatever was given.  Only a field that is missing altogether, and a level that is no
number, stand in the way of a draft.

## Main definitions

* `Draft` — an action with fields of any value.
* `Draft.ofJson`, `Draft.toJson` — taking an action apart and writing it down.
* `Draft.action?` — the action of a draft whose fields have the types they should have.
-/

namespace Redline

/-- A style with fields of any value. -/
structure Draft.Look where
  color : Json
  alignment : Json
  bold : Json
deriving Repr

/-- A block with fields of any value. -/
inductive Draft.Piece where
  | paragraph (text : Json) (look : Option Draft.Look)
  | heading (text : Json) (level : Int) (look : Option Draft.Look)
deriving Repr

/-- An action with fields of any value. -/
inductive Draft where
  | replaceSection (anchor : Json) (pieces : List Draft.Piece)
  | updateHeadingStyle (target headingText : Json) (look : Draft.Look)
  | updateTextFormat (target : Json) (look : Draft.Look)
  | correctText (search replacement matchCase : Json)
  | insertText (anchor location headingText position : Json) (pieces : List Draft.Piece)
deriving Repr

namespace Draft

/-! ## Taking apart -/

/-- A style that may be missing. -/
def lookOf : Json → Except Fault (Option Look)
  | .null => .ok none
  | value => do
    let _ ← value.fieldsOf
    .ok (some ⟨value.getD "color", value.getD "alignment", value.getD "bold"⟩)

/-- A style that has to be there, though it may hold nothing. -/
def requiredLook (action : Json) : Except Fault Look := do
  let look ← lookOf (← action.required "style")
  .ok (look.getD ⟨.null, .null, .null⟩)

/-- A block; what is no heading is a paragraph. -/
def pieceOf (value : Json) : Except Fault Piece := do
  let look ← lookOf ((← value.member "style").getD .null)
  let type ← value.required "type"
  if type.str? == some "heading" then
    let text ← value.required "text"
    let level ← (← value.required "level").toInteger
    .ok (.heading text level look)
  else
    let text ← value.required "text"
    .ok (.paragraph text look)

/-- The blocks of an action. -/
def piecesOf (action : Json) : Except Fault (List Piece) := do
  (← (← action.required "blocks").elements).mapM pieceOf

/-- Takes an action apart. -/
def ofJson (action : Json) : Except Fault Draft := do
  let type ← action.required "type"
  match type.str?.bind ActionKind.ofName? with
  | some .replaceSection => do
    let anchor ← action.required "anchor"
    .ok (.replaceSection anchor (← piecesOf action))
  | some .updateHeadingStyle => do
    let target ← action.required "target"
    .ok (.updateHeadingStyle target (action.getD "heading_text") (← requiredLook action))
  | some .updateTextFormat => do
    let target ← action.required "target"
    .ok (.updateTextFormat target (← requiredLook action))
  | some .correctText => do
    let search ← action.required "search_text"
    let replacement ← action.required "replacement_text"
    .ok (.correctText search replacement (action.getD "case_sensitive"))
  | some .insertText => do
    let anchor ← action.required "anchor"
    let location ← action.required "location"
    let pieces ← piecesOf action
    .ok (.insertText anchor location (action.getD "heading_text") (action.getD "position") pieces)
  | none => do .error (.unknownAction (← type.display))

/-! ## Written form -/

/-- A style, without what it leaves open. -/
def Look.toJson (look : Look) : Json :=
  .obj (Json.Fields.present
    [("color", look.color), ("alignment", look.alignment), ("bold", look.bold)])

/-- A style that may be missing. -/
def Look.toJson? (look : Option Look) : Json := (look.map Look.toJson).getD .null

/-- A block. -/
def Piece.toJson : Piece → Json
  | .paragraph text look =>
    .obj (Json.Fields.present
      [("type", .str "paragraph"), ("text", text), ("style", Look.toJson? look)])
  | .heading text level look =>
    .obj (Json.Fields.present [("type", .str "heading"), ("level", .int level), ("text", text),
      ("style", Look.toJson? look)])

/-- A draft.  Fields that hold nothing are left out, except where every field has to be there. -/
def toJson : Draft → Json
  | .replaceSection anchor pieces =>
    .obj [("type", .str "replace_section"), ("anchor", anchor),
      ("blocks", .arr (pieces.map Piece.toJson))]
  | .updateHeadingStyle target headingText look =>
    .obj (Json.Fields.present [("type", .str "update_heading_style"), ("target", target),
      ("heading_text", headingText), ("style", look.toJson)])
  | .updateTextFormat target look =>
    .obj [("type", .str "update_text_format"), ("target", target), ("style", look.toJson)]
  | .correctText search replacement matchCase =>
    .obj (Json.Fields.present [("type", .str "correct_text"), ("search_text", search),
      ("replacement_text", replacement), ("case_sensitive", matchCase)])
  | .insertText anchor location headingText position pieces =>
    .obj (Json.Fields.present [("type", .str "insert_text"), ("anchor", anchor),
      ("location", location), ("heading_text", headingText), ("position", position),
      ("blocks", .arr (pieces.map Piece.toJson))])

/-! ## Types -/

/-- A text or nothing. -/
def optionalText? : Json → Option (Option String)
  | .null => some none
  | .str text => some (some text)
  | _ => none

/-- A truth value or nothing. -/
def optionalBool? : Json → Option (Option Bool)
  | .null => some none
  | .bool b => some (some b)
  | _ => none

/-- The style of a look. -/
def Look.style? (look : Look) : Option Style := do
  some ⟨← optionalText? look.color, ← optionalText? look.alignment, ← optionalBool? look.bold⟩

/-- The block of a piece. -/
def Piece.block? : Piece → Option Block
  | .paragraph text look => do
    some (.paragraph (← text.str?) (← look.mapM Look.style?))
  | .heading text level look => do
    some (.heading (← text.str?) level (← look.mapM Look.style?))

/-- The action of a draft whose fields have the types they should have. -/
def action? : Draft → Option Action
  | .replaceSection anchor pieces => do
    some (.replaceSection (← anchor.str?) (← pieces.mapM Piece.block?))
  | .updateHeadingStyle target headingText look => do
    some (.updateHeadingStyle (.ofName (← target.str?)) headingText (← look.style?))
  | .updateTextFormat target look => do
    some (.updateTextFormat (.ofName (← target.str?)) (← look.style?))
  | .correctText search replacement matchCase => do
    some (.correctText (← search.str?) (← replacement.str?) (← optionalBool? matchCase))
  | .insertText anchor location headingText position pieces => do
    some (.insertText (← anchor.str?) (.ofName (← location.str?)) headingText position
      (← pieces.mapM Piece.block?))

end Draft

end Redline
