import Redline.Command.Request
import Redline.Command.Workspace
import Redline.Context
import Redline.Document.Saving
import Redline.Json.Parser
import Redline.Json.Printer
import Redline.Rules.Pack
import Redline.Run
import Redline.Summary

/-!
# Commands

What the commands do with a workspace.  A command writes lines to the output, it may write files,
and it ends with a code, unless a fault stops it that is no matter of usage.  What has been written
before stays written.  The notation of rule packs is not fixed here: the commands are given a reader
for it.

## Main definitions

* `ExitCode`, `Outcome` — how a command ends.
* `Command.PackReader` — a reader of rule packs.
* `Command.extract`, `Command.validate`, `Command.apply` — the commands.
* `Command.execute` — does what a command line asks for.
-/

namespace Redline

/-- How a command ends. -/
inductive ExitCode where
  | done
  /-- The plan failed. -/
  | failed
  /-- The command line cannot be understood, or a file cannot be used. -/
  | unusable
deriving DecidableEq, Repr

/-- The number of an exit code. -/
def ExitCode.number : ExitCode → Nat
  | .done => 0
  | .failed => 1
  | .unusable => 2

/-- What a command leaves behind. -/
structure Outcome where
  ending : Except Mishap ExitCode
  output : String
  workspace : Workspace

namespace Command

/-- What ends a command early. -/
inductive Stop where
  | unusable
  | mishap (mishap : Mishap)

/-- What a command changes. -/
structure World where
  workspace : Workspace
  output : String := ""

/-- The work of a command. -/
abbrev Work := ExceptT Stop (StateM World)

/-! ## Files -/

/-- Goes on with a value that may be a fault. -/
def lift {α : Type} (value : Except Fault α) : Work α :=
  match value with
  | .ok a => pure a
  | .error fault => throw (.mishap (.fault fault))

/-- Writes a line to the output. -/
def putLine (line : String) : Work Unit :=
  modify fun world => { world with output := world.output ++ line ++ "\n" }

/-- The text of a file. -/
def readText (path : String) : Work String := do
  match (← get).workspace.read? path with
  | some (.text text) => pure text
  | some (.document _) => lift (.error .undecodable)
  | none => throw .unusable

/-- The value that a file holds. -/
def readValue (path : String) : Work Json := do
  match Json.parse (← readText path).toList with
  | .ok value => pure value
  | .error .malformed => throw .unusable
  | .error (.longInteger digits) => lift (.error (.longInteger digits))

/-- The document that a file holds. -/
def readDocument (path : String) : Work Document := do
  match (← get).workspace.read? path with
  | some (.document d) => pure d
  | _ => throw .unusable

/-- Goes on with a changed workspace. -/
def change (changed : Workspace → Option Workspace) : Work Unit := do
  let world ← get
  match changed world.workspace with
  | some workspace => set { world with workspace }
  | none => throw .unusable

/-- Writes a file. -/
def writeFile (path : String) (content : Content) : Work Unit := change (·.write? path content)

/-! ## Rules -/

/-- A reader of rule packs: the value that a text stands for, its keys as texts, or the fault that
stops it. -/
abbrev PackReader := String → Except Fault Json

/-- The rules of a text, the standard ones when it holds nothing. -/
def rulesOf (reader : PackReader) (text : String) : Except Fault Rules := do
  let pack ← reader text
  Rules.ofPack (if pack.isTruthy then pack else .obj [])

/-- The rules of a command. -/
def readRules (reader : PackReader) : Option String → Work Rules
  | some path => do lift (rulesOf reader (← readText path))
  | none => pure Rules.standard

/-! ## Showing a document -/

/-- Does the work on the host of a document. -/
def onDocument {α : Type} (d : Document) (work : Editing α) : Work (α × Host) :=
  match work.runOn (Host.ofDocument d) with
  | (.ok a, host) => pure (a, host)
  | (.error mishap, _) => throw (.mishap mishap)

/-- What is shown of a document, and what it is called. -/
def view (stamp : Stamp) (rules : Rules) (prompt : Option String) (d : Document) :
    Work (Json × String) := do
  match prompt with
  | some prompt => do
    let (context, _) ← onDocument d (Context.build rules prompt)
    pure (context.toJson, s!"document context ({context.headings.length} headings)")
  | none => do
    let (snapshot, _) ← onDocument d (Snapshot.extract rules stamp.epoch)
    pure (snapshot.toJsonWithEpoch, s!"snapshot ({snapshot.blocks.length} blocks)")

/-- Shows a document. -/
def extract (stamp : Stamp) (rules : Rules) (request : ExtractRequest) : Work ExitCode := do
  let d ← readDocument request.document
  let (value, label) ← view stamp rules request.prompt d
  let text := value.print .pretty
  match request.out with
  | some path => do
    writeFile path (.text text)
    putLine s!"Wrote {label} to {path}"
  | none => putLine text
  pure .done

/-! ## Checking a plan -/

/-- Checks a plan. -/
def validate (rules : Rules) (plan : String) : Work ExitCode := do
  match readResponse rules (← readValue plan) with
  | .error rejection => do
    let message ← lift rejection.violation.message
    putLine (((Failure.rejected rejection message).refusal.toJson []).print .prettyAscii)
    pure .failed
  | .ok response => do
    let report := Json.obj [("ok", .bool true), ("kind", .str response.plan.kind),
      ("operations", .int response.plan.count)]
    putLine (report.print .prettyAscii)
    pure .done

/-! ## Applying a plan -/

/-- Marks the paragraphs of a bookmark as the selection. -/
def markBookmark (rules : Rules) (name : String) : Editing Unit := do
  match (← Host.bookmarks).find? fun b => b.name == name with
  | none => Editing.failure (.bookmarkMissing name)
  | some bookmark => do
    Host.select (some (← Host.bookmarkRange bookmark))
    let _ ← Anchor.markSelection rules Anchor.hiddenAppearance

/-- Marks the selection if one is asked for, then runs the plan.  The second part of the result
tells whether the plan was run at all. -/
def runRequest (stamp : Stamp) (rules : Rules) (bookmark : Option String) (payload : Json)
    (snapshot : Option Snapshot) : Editing (Report × Bool) := do
  let marked ← tryCatch
    (do
      match bookmark with
      | some name => markBookmark rules name
      | none => pure ()
      pure none)
    fun
    | .failure failure => pure (some failure)
    | mishap => throw mishap
  match marked with
  | some failure => pure ({ time := stamp.time, outcome := .failed failure [] }, false)
  | none => do pure (← runResponse stamp rules payload snapshot, true)

/-- Where the changed document goes. -/
def outputPath (request : ApplyRequest) : String :=
  let input := Path.ofText request.document
  request.out.getD (input.withName s!"{input.stem}.edited.docx").text

/-- The report of a run with the files that took part. -/
def reportWithFiles (request : ApplyRequest) (report : Report) : Json :=
  let output := if report.outcome.ok then Json.str (outputPath request) else .null
  .obj (report.fields ++
    [("artifacts", .obj [("input_docx", .str request.document), ("plan", .str request.plan),
      ("output_docx", output)])])

/-- Writes the reports of a run into a folder. -/
def writeReports (request : ApplyRequest) (report : Report) (folder : String) : Work Unit := do
  change (·.makeFolder? folder)
  let stem := (Path.ofText request.document).stem
  let value := reportWithFiles request report
  let place name := ((Path.ofText folder).child name).text
  writeFile (place s!"{stem}.run.json") (.text (value.print .pretty))
  writeFile (place s!"{stem}.run.txt") (.text (← lift (summary value)))

/-- Saves the changed document of a run that succeeded, and writes the reports asked for. -/
def writeResults (request : ApplyRequest) (report : Report) (host : Host) : Work Unit := do
  if report.outcome.ok then
    match Host.saved.runOn host with
    | (.ok d, _) => writeFile (outputPath request) (.document d)
    | (.error mishap, _) => throw (.mishap mishap)
  match request.reports with
  | some folder => writeReports request report folder
  | none => pure ()

/-- The snapshot that a plan was made from. -/
def readSnapshot (stamp : Stamp) : Option String → Work (Option Snapshot)
  | some path => do pure (some (← lift (Snapshot.ofJson stamp.epoch (← readValue path))))
  | none => pure none

/-- Applies a plan to a document. -/
def apply (stamp : Stamp) (rules : Rules) (request : ApplyRequest) : Work ExitCode := do
  let d ← readDocument request.document
  let payload ← readValue request.plan
  let snapshot ← readSnapshot stamp request.snapshot
  let ((report, wasRun), host) ←
    onDocument d (runRequest stamp rules request.bookmark payload snapshot)
  if wasRun then writeResults request report host
  putLine (report.toJson.print .pretty)
  pure (if report.outcome.ok then .done else .failed)

/-! ## Command lines -/

/-- Does what an invocation asks for. -/
def perform (reader : PackReader) (stamp : Stamp) (invocation : Invocation) : Work ExitCode := do
  let rules ← readRules reader invocation.rules
  match invocation.request with
  | .extract request => extract stamp rules request
  | .validate plan => validate rules plan
  | .apply request => apply stamp rules request

/-- Does what an invocation asks for, on a workspace. -/
def run (reader : PackReader) (stamp : Stamp) (invocation : Invocation) (workspace : Workspace) :
    Outcome :=
  let (ending, world) := StateT.run (ExceptT.run (perform reader stamp invocation)) { workspace }
  let ending := match ending with
    | .ok code => .ok code
    | .error .unusable => .ok .unusable
    | .error (.mishap mishap) => .error mishap
  ⟨ending, world.output, world.workspace⟩

/-- What is left when a command line is refused. -/
def rejected (reason : CommandLine.Problem) (workspace : Workspace) : Outcome :=
  let code := if reason = .helpWanted then ExitCode.done else .unusable
  ⟨.ok code, "", workspace⟩

/-- Does what a command line asks for. -/
def execute (reader : PackReader) (stamp : Stamp) (arguments : List String)
    (workspace : Workspace) : Outcome :=
  match Invocation.ofArguments arguments with
  | .ok invocation => run reader stamp invocation workspace
  | .error reason => rejected reason workspace

end Command

end Redline
