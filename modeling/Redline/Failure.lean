import Redline.Fault
import Redline.Plan.Violation

/-!
# Failures of plans

A plan fails by being rejected, by an anchor that leads nowhere, or in the course of its execution.
Each failure is told by its cause; `Failure.refusal` gives its wording, its details and the kind
that callers distinguish.

## Main definitions

* `Failure` — the causes.
* `Refusal` — a failure as callers see it.
* `Refusal.toJson`, `Fault.toJson` — failures and stray faults in a report.
* `Mishap` — either of the two.
-/

namespace Redline

/-- The kinds of failures that callers distinguish. -/
inductive RefusalKind where
  | validation
  | anchorNotFound
  | execution
deriving DecidableEq, Repr

/-- The name of a kind in a report. -/
def RefusalKind.name : RefusalKind → String
  | .validation => "validation"
  | .anchorNotFound => "anchor_not_found"
  | .execution => "execution_failed"

/-- A failure as callers see it. -/
structure Refusal where
  kind : RefusalKind
  message : String
  details : Json.Fields := []
  /-- The fault behind a failed execution. -/
  cause : Option Fault := none
deriving Repr

namespace Refusal

/-- A failure to find an anchor; the details name it unless they do so already. -/
def ofAnchor (message anchor : String) (details : Json.Fields) : Refusal :=
  { kind := .anchorNotFound, message, details := details.putNew "anchor" (.str anchor) }

/-- There is no document to work on. -/
def hostUnavailable : Refusal where
  kind := .execution
  message := "Document host is not available. Open a document before editing."
  details := [("host_unavailable", .bool true)]

/-- The details of a report: those of the failure, its cause, and what the reporter adds. -/
def reportDetails (r : Refusal) (added : Json.Fields) : Json.Fields :=
  let known := match r.cause with
    | some fault => r.details.putNew "cause" (.str fault.causeText)
    | none => r.details
  known.putAll added

end Refusal

/-- A report of a failure. -/
def failureReport (kind : RefusalKind) (message : String) (details : Json.Fields) : Json :=
  .obj ([("ok", .bool false), ("error_type", .str kind.name), ("message", .str message)] ++
    if details.isEmpty then [] else [("details", .obj details)])

/-- The report of a refusal; what the reporter adds overrides its details. -/
def Refusal.toJson (r : Refusal) (added : Json.Fields) : Json :=
  failureReport r.kind r.message (r.reportDetails added)

/-- The report of a fault that is no failure of a plan. -/
def Fault.toJson (f : Fault) (added : Json.Fields) : Json :=
  failureReport .execution s!"Execution failed: {f.text}"
    (Json.Fields.putAll [("cause", .str f.label)] added)

/-- Why a plan fails. -/
inductive Failure where
  /-- It breaks a rule, which is told in the given words. -/
  | rejected (rejection : Rejection) (message : String)
  /-- There is no document to work on. -/
  | hostUnavailable
  /-- No strategy resolves an anchor; some of them may have been refused by the host. -/
  | anchorUnresolved (anchor : String) (tried : List String) (refusals : List (String × String))
  /-- No heading answers to a text. -/
  | headingMissing (text : String)
  /-- No selection has been marked. -/
  | selectionMissing (anchor : String)
  /-- An anchor stands for a range without paragraphs. -/
  | emptyRange (anchor : String)
  /-- A position lies outside the text. -/
  | positionOutside (position : Json) (shown : String)
  /-- A text that is to be corrected does not occur. -/
  | textMissing (text : String)
  /-- New text is to go to a place of an unknown name. -/
  | unknownLocation (name : String)
  /-- An action has a type that cannot be run. -/
  | unknownAction (type : String)
  /-- A fault stopped an action of the given type. -/
  | actionFailed (type : String) (cause : Fault)
  /-- Nothing is selected. -/
  | nothingSelected
  /-- A fault stopped the marking of the selection. -/
  | markingFailed (cause : Fault)
  /-- A snapshot does not have a block. -/
  | unknownBlock (id : String) (known : List String)
  /-- The document has no paragraph for a block any more. -/
  | vanishedBlock (id excerpt epoch : String)
  /-- A fault stopped the operation at the given position of a block plan. -/
  | operationFailed (index : Nat) (target : String) (cause : Fault)
  /-- The document has no bookmark of the given name. -/
  | bookmarkMissing (name : String)
  /-- A failure at the given operation of a block plan. -/
  | atOperation (index : Nat) (failure : Failure)
deriving Repr

/-- A failure as callers see it. -/
def Failure.refusal : Failure → Refusal
  | .rejected rejection message => { kind := .validation, message, details := rejection.details }
  | .hostUnavailable => Refusal.hostUnavailable
  | .anchorUnresolved anchor tried refusals =>
    .ofAnchor
      (s!"Could not resolve anchor \"{anchor}\". " ++
        "Tried content controls, bookmarks, heading text, and default location.")
      anchor
      (("tried", .arr (tried.map .str)) ::
        if refusals.isEmpty then []
        else [("strategy_errors", .obj (refusals.map fun (name, text) => (name, .str text)))])
  | .headingMissing text => .ofAnchor s!"Heading \"{text}\" not found in document" text []
  | .selectionMissing anchor =>
    .ofAnchor s!"No marked selection found for anchor \"{anchor}\"" anchor []
  | .emptyRange anchor =>
    { kind := .execution, message := s!"Anchor \"{anchor}\" resolved to an empty range"
      details := [("anchor", .str anchor)] }
  | .positionOutside position shown =>
    { kind := .execution, message := s!"Position {shown} is outside the document"
      details := [("position", position)] }
  | .textMissing text =>
    { kind := .execution, message := s!"Text \"{text}\" not found in document"
      details := [("search_text", .str text)] }
  | .unknownLocation name =>
    { kind := .execution, message := s!"Unsupported insert location: {name}" }
  | .unknownAction type =>
    { kind := .execution, message := s!"Unknown action type: {type}" }
  | .actionFailed type cause =>
    { kind := .execution, message := s!"Failed to execute {type} action: {cause.text}"
      cause := some cause }
  | .nothingSelected => { kind := .execution, message := "No selection to mark" }
  | .markingFailed cause =>
    { kind := .execution, message := s!"Failed to mark selection: {cause.text}"
      cause := some cause }
  | .unknownBlock id known =>
    { kind := .execution
      message := s!"Block ID {id} not found in document structure. Available block IDs: " ++
        (if known.isEmpty then "none" else ", ".intercalate known)
      details := [("target_block_id", .str id), ("valid_block_ids", .arr (known.map .str))] }
  | .vanishedBlock id excerpt epoch =>
    { kind := .execution
      message := s!"Block ID {id} not found in document. Block text: \"{excerpt}...\". " ++
        "This may happen if the document was modified after the edit plan was generated."
      details := [("target_block_id", .str id), ("epoch", .str epoch)] }
  | .operationFailed index target cause =>
    { kind := .execution, message := s!"Failed to execute semantic edit plan: {cause.text}"
      details := [("op_index", .int index), ("target_block_id", .str target)]
      cause := some cause }
  | .bookmarkMissing name =>
    { kind := .execution, message := s!"Bookmark \"{name}\" not found"
      details := [("bookmark", .str name)] }
  | .atOperation index failure =>
    { failure.refusal with
      details := failure.refusal.details.putNew "op_index" (.int index) }

/-- What stops a piece of work: the failure of a plan, or a fault that nobody has turned into
one. -/
inductive Mishap where
  | failure (failure : Failure)
  | fault (fault : Fault)
deriving Repr

end Redline
