import Redline.Command.Line

/-!
# Requests

What a command line asks for: to show a document to a planner, to check a plan, or to apply one.

## Main definitions

* `Request` — the commands with their operands and options.
* `Invocation` — a request and the rules that it is to be done under.
* `Invocation.ofArguments` — reads a command line.
-/

namespace Redline

/-- To show a document to a planner. -/
structure ExtractRequest where
  document : String
  /-- Where the result goes, if not to the output. -/
  out : Option String := none
  /-- The prompt whose context is wanted instead of a snapshot. -/
  prompt : Option String := none
deriving DecidableEq, Repr

/-- To apply a plan to a document. -/
structure ApplyRequest where
  document : String
  plan : String
  /-- The snapshot that the plan was made from. -/
  snapshot : Option String := none
  /-- Where the changed document goes, if not beside the old one. -/
  out : Option String := none
  /-- The bookmark whose paragraphs are marked as the selection. -/
  bookmark : Option String := none
  /-- The folder of the reports. -/
  reports : Option String := none
deriving DecidableEq, Repr

/-- What is asked for. -/
inductive Request where
  | extract (request : ExtractRequest)
  | validate (plan : String)
  | apply (request : ApplyRequest)
deriving DecidableEq, Repr

/-- A request and the rules that it is to be done under. -/
structure Invocation where
  rules : Option String
  request : Request
deriving DecidableEq, Repr

namespace Invocation

open CommandLine

/-- The option that asks for an explanation. -/
def helpOption : Spec := { name := "help", letter := some 'h', use := .help }

/-- The options in front of the command. -/
def generalOptions : List Spec :=
  [helpOption, { name := "rules", use := .value },
    { name := "verbose", letter := some 'v', use := .flag }]

/-- The options of a command that asks for a document. -/
def extractOptions : List Spec :=
  [helpOption, { name := "out", use := .value }, { name := "context", use := .value }]

/-- The options of a command that checks a plan. -/
def validateOptions : List Spec := [helpOption]

/-- The options of a command that applies a plan. -/
def applyOptions : List Spec :=
  [helpOption, { name := "snapshot", use := .value }, { name := "out", use := .value },
    { name := "select-bookmark", use := .value }, { name := "report", use := .value }]

/-- An option whose value counts only when it is not empty. -/
def given? (r : Reading) (name : String) : Option String := (r.value? name).filter (· != "")

/-- Reads the arguments of a command; what has no use is returned as well. -/
def readRequest (command : String) (arguments : List String) :
    Except Problem (Request × List String) :=
  if command == "extract" then do
    let r ← read extractOptions 1 arguments
    match r.operands with
    | [document] =>
      .ok (.extract ⟨document, given? r "out", r.value? "context"⟩, r.unexpected)
    | _ => .error .operandMissing
  else if command == "validate" then do
    let r ← read validateOptions 1 arguments
    match r.operands with
    | [plan] => .ok (.validate plan, r.unexpected)
    | _ => .error .operandMissing
  else if command == "apply" then do
    let r ← read applyOptions 2 arguments
    match r.operands with
    | [document, plan] =>
      .ok (.apply ⟨document, plan, given? r "snapshot", given? r "out",
        given? r "select-bookmark", given? r "report"⟩, r.unexpected)
    | _ => .error .operandMissing
  else .error (.commandUnknown command)

/-- Reads a command line.  What has no use stands in the way of every command, but it is told only
after everything else has been read. -/
def ofArguments (arguments : List String) : Except Problem Invocation := do
  let (general, rest) ← readLeading generalOptions {} (← tokens generalOptions arguments)
  match rest with
  | .operand command :: rest => do
    let (request, unexpected) ← readRequest command (rest.map Token.text)
    match general.unexpected ++ unexpected with
    | [] => .ok ⟨general.value? "rules", request⟩
    | text :: _ => .error (.unexpected text)
  | .divider :: _ => .error (.commandUnknown "--")
  | _ => .error .commandMissing

end Invocation

end Redline
