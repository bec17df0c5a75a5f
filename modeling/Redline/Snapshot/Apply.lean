import Redline.Plan.Operation
import Redline.Snapshot.Rematch

/-!
# Running block plans

The blocks of the snapshot are looked for once, before the first operation.  Each operation then
works on the paragraph that was found for its block, and flushes the host once.

## Main definitions

* `Snapshot.target` — the paragraph of an operation.
* `Snapshot.performOperation` — queues the effects of an operation.
* `Snapshot.run` — runs a block plan.
-/

namespace Redline.Snapshot

open Redline.Text

/-- The beginning of a block's text. -/
def excerpt (block : Block) : Except Fault String :=
  match block.text with
  | .str text => .ok (String.ofList (text.toList.take 50))
  | .arr items => (Json.arr (items.take 50)).display
  | _ => .error (.wrongType "a text is expected")

/-- The paragraph that was found for an operation's block. -/
def target (snapshot : Snapshot) (m : Mapping) (op : Operation) : Editing Passage := do
  match snapshot.blocks.lookup op.target with
  | none => Editing.failure (.unknownBlock op.target snapshot.blockIds)
  | some block =>
    match m.matched.lookup op.target with
    | some p => pure p
    | none => do
      let beginning ← Editing.lift (excerpt block)
      Editing.failure (.vanishedBlock op.target beginning snapshot.epoch)

/-- Inserts lines one behind the other, each a paragraph of the normal style. -/
def insertLines (rules : Rules) (insert : String → Editing Handle) :
    List (List Char) → Editing Unit
  | [] => pure ()
  | line :: rest => do
    let paragraph ← insert (String.ofList line)
    Host.queue (.setStyle paragraph rules.normalStyle)
    insertLines rules (fun text => Host.insertParagraph text paragraph .after) rest

/-- Queues the effects of an operation on a paragraph. -/
def performOperation (rules : Rules) (op : Operation) (paragraph : Handle) : Editing Unit :=
  match op.kind with
  | .replace => Host.queue (.setText paragraph op.content)
  | .insertAfter =>
    insertLines rules (fun text => Host.insertParagraph text paragraph .after)
      (lines op.content.toList)
  | .insertBefore =>
    insertLines rules (fun text => Host.insertParagraph text paragraph .before)
      (lines op.content.toList)

/-- Does the work of the operation at the given position.  A failure, or the refusal of the host,
ends the run with nothing queued; any other fault goes on as it is. -/
def asOperation (index : Nat) (op : Operation) (work : Editing Unit) : Editing Unit :=
  tryCatch work fun
    | .failure f => do
      let _ ← Host.discard
      Editing.failure (.atOperation index f)
    | .fault f => do
      if f.family = .host then
        let _ ← Host.discard
        Editing.failure (.operationFailed index op.target f)
      else Editing.fault f

/-- Runs one operation: its effects, then one flush. -/
def runOperation (rules : Rules) (snapshot : Snapshot) (m : Mapping) (index : Nat)
    (op : Operation) : Editing Unit :=
  asOperation index op do
    let p ← snapshot.target m op
    performOperation rules op p.handle
    let _ ← Host.flush

/-- Runs operations in order; the first one has the given position. -/
def runOperations (rules : Rules) (snapshot : Snapshot) (m : Mapping) (index : Nat) :
    List Operation → Editing Unit
  | [] => pure ()
  | op :: rest => do
    runOperation rules snapshot m index op
    runOperations rules snapshot m (index + 1) rest

/-- Runs a block plan. -/
def run (rules : Rules) (snapshot : Snapshot) (plan : BlockPlan) : Editing Unit := do
  Anchor.ensureHost
  let m ← snapshot.rematch rules
  runOperations rules snapshot m 0 plan.operations

end Redline.Snapshot
