import Redline.Document.Effect
import Redline.Json.Basic

/-!
# The notation of documents

A document body as a structured value: a list of nodes.  A paragraph may be given short, as its text
or as a style with its text; it is always written long.

## Main definitions

* `Document.ofJson` — reads a body and gives every paragraph and content control its handle.
* `Document.toJson` — writes a body.
-/

namespace Redline

open Redline.Text

namespace Notation

/-! ## Reading -/

/-- Reading hands out handles. -/
abbrev Reading := StateM Nat

/-- A new handle. -/
def newHandle : Reading Handle := do
  let n ← get
  set (n + 1)
  pure ⟨n⟩

/-- A field that is a text. -/
def text? (value : Json) (key : String) : Option String := (value.get? key).bind Json.str?

/-- A field that is a truth value. -/
def bool? (value : Json) (key : String) : Option Bool :=
  match value.get? key with
  | some (.bool b) => some b
  | _ => none

/-- The items of a value that is a list. -/
def items : Json → List Json
  | .arr items => items
  | _ => []

/-- The field of an object is smaller than the object. -/
theorem sizeOf_lookup_lt {fields : Json.Fields} {key : String} {v : Json}
    (h : fields.lookup key = some v) : sizeOf v < sizeOf (Json.obj fields) := by
  induction fields with
  | nil => simp at h
  | cons field rest ih =>
    obtain ⟨k, w⟩ := field
    rw [List.lookup_cons] at h
    split at h
    · cases h
      simp only [Json.obj.sizeOf_spec, List.cons.sizeOf_spec, Prod.mk.sizeOf_spec]
      omega
    · have := ih h
      simp only [Json.obj.sizeOf_spec, List.cons.sizeOf_spec, Prod.mk.sizeOf_spec] at this ⊢
      omega

/-- The items of a field, each with the reason why it is smaller than the value. -/
def partsOf (value : Json) (key : String) : List { item : Json // sizeOf item < sizeOf value } :=
  match value with
  | .obj fields =>
    match h : fields.lookup key with
    | some (.arr items) =>
      items.attach.map fun ⟨item, mem⟩ => ⟨item, by
        have := sizeOf_lookup_lt h
        have := List.sizeOf_lt_of_mem mem
        simp only [Json.arr.sizeOf_spec] at *
        omega⟩
    | _ => []
  | _ => []

/-- The items of a value that is a list, each with the reason why it is smaller. -/
def partsIn (value : Json) : List { item : Json // sizeOf item < sizeOf value } :=
  match value with
  | .arr items =>
    items.attach.map fun ⟨item, mem⟩ => ⟨item, by
      have := List.sizeOf_lt_of_mem mem
      simp only [Json.arr.sizeOf_spec]
      omega⟩
  | _ => []

/-- Whether a value has a field. -/
def has (value : Json) (key : String) : Bool := (value.get? key).isSome

/-- The style that a name or an id stands for; one that is unknown stands for itself. -/
def styleOf (asked : String) : String := Stylesheet.standard.shownAs asked

/-- The digits of a color; what is none stands for itself. -/
def colorOf (color : String) : String := (Effect.runColor color.toList).toOption.getD color

/-- The look of a run. -/
def formatOf (value : Json) : RunFormat := ⟨bool? value "b", (text? value "c").map colorOf⟩

/-- The content of a paragraph that is given by its text. -/
def contentOf (text : String) : Forest :=
  if text.isEmpty then .nil else Forest.runOf text.toList

/-- The properties of a content control, unless it lacks the place for them. -/
def propertiesOf (value : Json) : Option ControlProperties :=
  if bool? value "nopr" == some true then none
  else some ⟨text? value "tag", text? value "appearance"⟩

/-- A bookmark mark. -/
def mark? (value : Json) : Option Element :=
  match text? value "bs", text? value "be" with
  | some name, _ => some (.bookmarkStart name ((text? value "id").getD ""))
  | none, some id => some (.bookmarkEnd id)
  | none, none => none

mutual

/-- A node of a body, of a cell, of a content control or of a text box. -/
def node (value : Json) : Reading Forest :=
  match value with
  | .str text => do
    pure (.single (.paragraph (← newHandle) "Normal" none) (contentOf text))
  | .arr [.str style, .str text] => do
    pure (.single (.paragraph (← newHandle) (styleOf style) none) (contentOf text))
  | .obj fields =>
    if has (.obj fields) "p" then do
      let h ← newHandle
      let content ← (partsOf (.obj fields) "p").mapM fun ⟨item, _⟩ => inlineNode item
      let alignment := (text? (.obj fields) "align").bind Alignment.ofName?
      pure (.single
        (.paragraph h (styleOf ((text? (.obj fields) "style").getD "Normal")) alignment)
        (Forest.join content))
    else if has (.obj fields) "tbl" then do
      let rows ← (partsOf (.obj fields) "tbl").mapM fun ⟨row, _⟩ => do
        let cells ← (partsIn row).mapM fun ⟨cell, _⟩ => do
          let nodes ← (partsIn cell).mapM fun ⟨item, _⟩ => node item
          pure (Forest.single .cell (Forest.join nodes))
        pure (Forest.single .row (Forest.join cells))
      pure (.single .table (Forest.join rows))
    else if has (.obj fields) "sdt" then do
      let h ← newHandle
      let content ← (partsOf (.obj fields) "sdt").mapM fun ⟨item, _⟩ => node item
      pure (.single (.control h (propertiesOf (.obj fields))) (Forest.join content))
    else pure ((mark? (.obj fields)).elim .nil fun e => Forest.single e .nil)
  | _ => pure .nil
termination_by sizeOf value
decreasing_by all_goals omega

/-- A part of a paragraph. -/
def inlineNode (value : Json) : Reading Forest :=
  match value with
  | .obj fields =>
    if has (.obj fields) "t" then do
      let boxes ← (partsOf (.obj fields) "boxes").mapM fun ⟨box, _⟩ => do
        let nodes ← (partsIn box).mapM fun ⟨item, _⟩ => node item
        pure (Forest.single .box (Forest.join nodes))
      let text := written ((text? (.obj fields) "t").getD "").toList
      pure (.single (.run (String.ofList text) (formatOf (.obj fields))) (Forest.join boxes))
    else if has (.obj fields) "link" then do
      let runs ← (partsOf (.obj fields) "link").mapM fun ⟨item, _⟩ => inlineNode item
      pure (.single .link (Forest.join runs))
    else pure ((mark? (.obj fields)).elim .nil fun e => Forest.single e .nil)
  | _ => pure .nil
termination_by sizeOf value
decreasing_by all_goals omega

end

/-! ## Writing -/

/-- A field that is left out when it holds nothing. -/
def optional (key : String) : Option Json → Json.Fields
  | some value => [(key, value)]
  | none => []

/-- An element as a value, given what is inside it as values. -/
def elementJson (e : Element) (inside : List Json) : Json :=
  match e with
  | .paragraph _ style alignment =>
    .obj ([("p", .arr inside), ("style", .str style)] ++
      optional "align" (alignment.map fun a => .str a.name))
  | .run text format =>
    .obj ([("t", .str text)] ++ optional "b" (format.bold.map .bool) ++
      optional "c" (format.color.map .str) ++
      optional "boxes" (if inside.isEmpty then none else some (.arr inside)))
  | .link => .obj [("link", .arr inside)]
  | .box => .arr inside
  | .table => .obj [("tbl", .arr inside)]
  | .row => .arr inside
  | .cell => .arr inside
  | .control _ properties =>
    .obj [("sdt", .arr inside), ("tag", Json.ofString? (properties.bind (·.tag))),
      ("appearance", Json.ofString? (properties.bind (·.appearance)))]
  | .bookmarkStart name id => .obj [("bs", .str name), ("id", .str id)]
  | .bookmarkEnd id => .obj [("be", .str id)]

/-- A forest as values. -/
def nodes : Forest → List Json
  | .nil => []
  | .cons e inside rest => elementJson e (nodes inside) :: nodes rest

end Notation

/-- Reads a body. -/
def Document.ofJson (body : Json) : Document :=
  let (forests, next) := ((Notation.items body).mapM Notation.node).run 0
  { body := Forest.join forests, nextHandle := next }

/-- Writes a body. -/
def Document.toJson (d : Document) : Json := .arr (Notation.nodes d.body)

end Redline
