import Redline.Json.Coercion
import Redline.Json.Display

/-!
# Summaries of reports

The report of a run as a page of text.  It is made from the written form of the report, so a field
may be missing or hold any value.

## Main definitions

* `summary` — the page.
-/

namespace Redline

namespace Summary

/-- A field, or the given value when there is none. -/
def fieldOr (fields : Json.Fields) (key : String) (standard : Json) : Json :=
  (fields.lookup key).getD standard

/-- The fields of a part that may be missing or empty. -/
def part (fields : Json.Fields) (key : String) : Except Fault Json.Fields :=
  let value := fieldOr fields key .null
  if value.isTruthy then value.fieldsOf else .ok []

/-- A value, or the given text when the value does not count as given. -/
def shownOr (value : Json) (standard : String) : Except Fault String :=
  if value.isTruthy then value.display else .ok standard

/-- A line for a field that counts as given, none otherwise. -/
def lineIf (label : String) (value : Json) : Except Fault (List String) := do
  if value.isTruthy then .ok [label ++ (← value.display)] else .ok []

/-- A line for a field. -/
def line (label : String) (value : Json) : Except Fault String := do
  .ok (label ++ (← value.display))

/-- The files of a run, if the report names them. -/
def artifactLines (artifacts : Json.Fields) : Except Fault (List String) := do
  if artifacts.isEmpty then .ok []
  else
    let input ← line "- Input:  " (fieldOr artifacts "input_docx" .null)
    let plan ← line "- Plan:   " (fieldOr artifacts "plan" .null)
    let output ← shownOr (fieldOr artifacts "output_docx" .null) "[not written]"
    .ok ["Artifacts", input, plan, "- Output: " ++ output, ""]

/-- The plan of a run. -/
def planLines (report : Json.Fields) : Except Fault (List String) := do
  let kind ← shownOr (fieldOr report "kind" .null) "[rejected]"
  let operations ← line "- Operations: " (fieldOr report "operation_count" (.int 0))
  let flushes ← line "- Flushes:    " (fieldOr report "flushes" (.int 0))
  let epoch ← lineIf "- Epoch:      " (fieldOr report "epoch" .null)
  let planner ← lineIf "- Planner:    " (fieldOr report "response" .null)
  .ok (["Plan", "- Kind:       " ++ kind, operations, flushes] ++ epoch ++ planner ++ [""])

/-- The outcome of a run. -/
def resultLines (result : Json.Fields) : Except Fault (List String) := do
  let ok := fieldOr result "ok" .null
  let first ← line "- OK:      " ok
  let error ← if ok.isTruthy then .ok []
    else do .ok [← line "- Error:   " (fieldOr result "error_type" .null)]
  let message ← line "- Message: " (fieldOr result "message" .null)
  let details ← part result "details"
  let others ← details.mapM fun (key, value) => line s!"- {key}: " value
  .ok (["Result", first] ++ error ++ [message] ++ others)

end Summary

/-- The report of a run as a page of text. -/
def summary (report : Json) : Except Fault String := do
  let fields ← report.fieldsOf
  let time ← Summary.line "Plan Run: " (Summary.fieldOr fields "timestamp_utc" .null)
  let artifacts ← Summary.artifactLines (← Summary.part fields "artifacts")
  let plan ← Summary.planLines fields
  let result ← Summary.resultLines (← Summary.part fields "result")
  .ok ("\n".intercalate ([time, ""] ++ artifacts ++ plan ++ result))

end Redline
