import Redline.Json.Basic

/-!
# Block operations

A block plan is a list of operations on the blocks of a snapshot, which it names by their ids.

## Main definitions

* `Operation`, `BlockPlan` — the parts of a block plan.
-/

namespace Redline

/-- What an operation does with its content. -/
inductive OperationKind where
  | insertAfter
  | insertBefore
  | replace
deriving DecidableEq, Repr

/-- The name of a kind. -/
def OperationKind.name : OperationKind → String
  | .insertAfter => "insert_after"
  | .insertBefore => "insert_before"
  | .replace => "replace"

/-- The kind of a name. -/
def OperationKind.ofName? (name : String) : Option OperationKind :=
  [.insertAfter, .insertBefore, .replace].find? fun kind : OperationKind => kind.name == name

/-- One change at a block. -/
structure Operation where
  kind : OperationKind
  /-- The id of the block. -/
  target : String
  content : String
  reason : String
deriving DecidableEq, Repr

/-- A list of operations. -/
structure BlockPlan where
  operations : List Operation
deriving DecidableEq, Repr

/-- An operation in its written form. -/
def Operation.toJson (op : Operation) : Json :=
  .obj [("action", .str op.kind.name), ("target_block_id", .str op.target),
    ("content", .str op.content), ("reason", .str op.reason)]

/-- A block plan in its written form. -/
def BlockPlan.toJson (plan : BlockPlan) : Json :=
  .obj [("ops", .arr (plan.operations.map Operation.toJson))]

end Redline
