import Redline.Execution
import Redline.Plan.Response
import Redline.Snapshot.Apply

/-!
# Running a planner's response

A response is read, its plan is run on a host, and a report tells how that went.  A response that
breaks a rule is reported without a look at the document.

## Main definitions

* `Stamp` — what a run takes from the outside: the time, and the name of a new epoch.
* `Report` — how a run went.
* `runResponse` — reads a response and runs its plan.
-/

namespace Redline

/-- What a run takes from the outside. -/
structure Stamp where
  time : String
  /-- The epoch of a snapshot that is taken on the way. -/
  epoch : String

/-- How a run went. -/
structure Report where
  time : String
  /-- The family of the plan; none when the response was rejected. -/
  kind : Option String := none
  response : String := ""
  operations : Nat := 0
  flushes : Nat := 0
  /-- The epoch of the snapshot that a block plan was run with. -/
  epoch : Option String := none
  outcome : RunOutcome
deriving Repr

namespace Report

/-- The fields of a report. -/
def fields (r : Report) : Json.Fields :=
  [("timestamp_utc", .str r.time), ("kind", Json.ofString? r.kind),
    ("response", .str r.response), ("operation_count", .int r.operations),
    ("flushes", .int r.flushes), ("epoch", Json.ofString? r.epoch),
    ("result", r.outcome.toJson)]

/-- A report in its written form. -/
def toJson (r : Report) : Json := .obj r.fields

end Report

/-- The snapshot that was given, or one that is taken now. -/
def snapshotOr (stamp : Stamp) (rules : Rules) : Option Snapshot → Editing Snapshot
  | some snapshot => pure snapshot
  | none => Snapshot.extract rules stamp.epoch

/-- Does the work; a failure of the plan becomes the outcome. -/
def outcomeOf (success : String) (work : Editing Unit) : Editing RunOutcome :=
  tryCatch (do work; pure (.success success)) fun
    | .failure f => pure (.failed f [])
    | mishap => throw mishap

/-- Runs the plan of a response that has been read. -/
def runPlan (stamp : Stamp) (rules : Rules) (snapshot : Option Snapshot) (response : Response) :
    Editing Report := do
  let before := (← get).flushCount
  let blank : Report := {
    time := stamp.time, kind := some response.plan.kind, response := response.text
    operations := response.plan.count, outcome := .success "" }
  let report ← match response.plan with
    | .edit plan => do
      let outcome ← Execution.run ⟨rules, Heading.overlapScore⟩ plan.typed
      pure { blank with outcome }
    | .block plan => do
      let snapshot ← snapshotOr stamp rules snapshot
      let outcome ← outcomeOf
        s!"Successfully executed {plan.operations.length} semantic operation(s)"
        (Snapshot.run rules snapshot plan)
      pure { blank with outcome, epoch := some snapshot.epoch }
  pure { report with flushes := (← get).flushCount - before }

/-- Reads a response and runs its plan. -/
def runResponse (stamp : Stamp) (rules : Rules) (payload : Json) (snapshot : Option Snapshot) :
    Editing Report := do
  match readResponse rules payload with
  | .error rejection => do
    let message ← Editing.lift rejection.violation.message
    pure { time := stamp.time, outcome := .failed (.rejected rejection message) [] }
  | .ok response =>
    if !(← get).isOpen then
      pure {
        time := stamp.time, kind := some response.plan.kind, response := response.text
        outcome := .failed .hostUnavailable [] }
    else runPlan stamp rules snapshot response

end Redline
