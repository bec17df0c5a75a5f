import Redline.Json.Coercion
import Redline.Json.Display

/-!
# Snapshots

A snapshot is what a planner has seen of a document: its blocks, under ids of their own, and the
sections that group them.  The ids mean something only within the epoch of the snapshot; a document
does not carry them.

A snapshot may come back from outside, so its fields hold whatever was given there, and only what
has to be used is looked at.

## Main definitions

* `Snapshot` — sections and blocks.
* `Snapshot.orderedBlocks` — the blocks in the order of the sections.
* `Snapshot.toJson`, `Snapshot.ofJson` — the written form, and reading one.
-/

namespace Redline

namespace Snapshot

/-- A block: a paragraph or a heading that the planner has seen. -/
structure Block where
  id : Json
  type : Json
  text : Json
  /-- The level of a heading. -/
  level : Json
deriving Repr

/-- A section: a heading with what follows it, as the ids of its blocks. -/
structure Section where
  id : Json
  title : Json
  level : Int
  blocks : List Json
deriving Repr

end Snapshot

/-- What a planner has seen of a document. -/
structure Snapshot where
  sections : List Snapshot.Section
  /-- The blocks under their ids, in order. -/
  blocks : List (String × Snapshot.Block)
  epoch : String
deriving Repr

namespace Snapshot

/-- The block of an id; only a text can be one. -/
def block? (s : Snapshot) (id : Json) : Option Block := id.str?.bind fun key => s.blocks.lookup key

/-- The ids of all blocks, in order. -/
def blockIds (s : Snapshot) : List String := s.blocks.map (·.1)

/-- Lists and objects cannot be looked up. -/
def checkId : Json → Except Fault Unit
  | .arr _ | .obj _ => .error (.wrongType "an id is expected")
  | _ => .ok ()

/-- The ids that the sections list, in order. -/
def listedIds (s : Snapshot) : List Json := s.sections.flatMap (·.blocks)

/-- The blocks that the sections list, in order; ids without a block are passed over. -/
def orderedBlocks (s : Snapshot) : Except Fault (List Block) := do
  s.listedIds.forM checkId
  .ok (s.listedIds.filterMap s.block?)

/-! ## Written form -/

/-- A block; a level that is nothing is left out. -/
def Block.toJson (b : Block) : Json :=
  .obj ([("id", b.id), ("type", b.type), ("text", b.text)] ++
    if b.level.isNull then [] else [("level", b.level)])

/-- A section. -/
def Section.toJson (s : Section) : Json :=
  .obj [("id", s.id), ("title", s.title), ("level", .int s.level), ("blocks", .arr s.blocks)]

/-- The fields of a snapshot, without the epoch. -/
def fields (s : Snapshot) : Json.Fields :=
  [("sections", .arr (s.sections.map Section.toJson)),
    ("blocks", .obj (s.blocks.map fun (id, b) => (id, b.toJson)))]

/-- A snapshot, without the epoch. -/
def toJson (s : Snapshot) : Json := .obj s.fields

/-- A snapshot with its epoch. -/
def toJsonWithEpoch (s : Snapshot) : Json := .obj (s.fields ++ [("epoch", .str s.epoch)])

/-! ## Reading -/

/-- A field of an object, the given value when there is none. -/
def fieldOr (value : Json) (key : String) (standard : Json) : Json :=
  (value.get? key).getD standard

/-- The elements of a value, none when it does not count as given. -/
def elementsOf (value : Option Json) : Except Fault (List Json) :=
  match value with
  | some v => if v.isTruthy then v.elements else .ok []
  | none => .ok []

/-- Reads a section. -/
def readSection (value : Json) : Except Fault Section := do
  let id ← value.required "id"
  let level ← (fieldOr value "level" (.int 1)).toInteger
  let blocks ← elementsOf (value.get? "blocks")
  .ok ⟨id, fieldOr value "title" (.str ""), level, blocks⟩

/-- Reads a block; its id is that under which it stands unless it has one of its own. -/
def readBlock (key : String) (value : Json) : Except Fault Block := do
  let _ ← value.fieldsOf
  let type ← value.required "type"
  .ok ⟨fieldOr value "id" (.str key), type, fieldOr value "text" (.str ""), value.getD "level"⟩

/-- Reads blocks under their ids. -/
def readBlocks : Json.Fields → Except Fault (List (String × Block))
  | [] => .ok []
  | (key, value) :: rest => do
    let block ← readBlock key value
    let others ← readBlocks rest
    .ok ((key, block) :: others)

/-- The fields of a value, none when it does not count as given. -/
def fieldsOr (value : Option Json) : Except Fault Json.Fields :=
  match value with
  | some v => if v.isTruthy then v.fieldsOf else .ok []
  | none => .ok []

/-- Reads a snapshot; one without an epoch gets the given one. -/
def ofJson (newEpoch : String) (value : Json) : Except Fault Snapshot := do
  let sections ← (← elementsOf (← value.member "sections")).mapM readSection
  let blocks ← readBlocks (← fieldsOr (← value.member "blocks"))
  let given := value.getD "epoch"
  let epoch ← if given.isTruthy then given.display else .ok newEpoch
  .ok ⟨sections, blocks, epoch⟩

end Snapshot

end Redline
