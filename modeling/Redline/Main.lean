import Redline.Command.Clock
import Redline.Command.Pack
import Redline.Command.Storage
import Std.Time.Format

/-!
# The program

Reads the files that the command line names, does what it asks for, and writes what has changed.
-/

namespace Redline.Program

/-- How the program is used. -/
def usage : String :=
  "usage: redline [--rules FILE] [-v] extract DOCUMENT [--out FILE] [--context PROMPT]\n" ++
  "       redline [--rules FILE] [-v] validate PLAN\n" ++
  "       redline [--rules FILE] [-v] apply DOCUMENT PLAN [--snapshot FILE] [--out FILE]\n" ++
  "               [--select-bookmark NAME] [--report FOLDER]"

/-- The text of a file, if it can be read. -/
def readText? (path : String) : IO (Option String) := do
  try
    pure (some (← IO.FS.readFile path))
  catch _ =>
    pure none

/-- Reads files into a workspace. -/
def readFiles (toContent : String → Content) (paths : List String) :
    IO (List (Path × Content)) :=
  paths.filterMapM fun path => do
    pure ((← readText? path).map fun text => (Path.ofText path, toContent text))

/-- The workspace of an invocation.  The folders that it may write to are taken for granted here;
one that is missing shows when the results are stored. -/
def load (i : Invocation) : IO Workspace := do
  let documents ← readFiles Content.ofStored i.documents
  let texts ← readFiles Content.text i.texts
  let folders := i.targets.map fun path => (Path.ofText path).parent
  pure { files := documents ++ texts, folders }

/-- Writes what has changed, and tells whether that was possible. -/
def store (before after : Workspace) : IO Bool := do
  try
    for folder in after.folders do
      if !before.folders.contains folder then IO.FS.createDirAll folder.text
    for (path, content) in before.changes after do
      IO.FS.writeFile path.text content.stored
    pure true
  catch _ =>
    pure false

/-- The time, and the name of a new epoch. -/
def newStamp : IO Stamp := do
  let now ← Std.Time.Timestamp.now
  let bytes ← IO.getRandomBytes 6
  let digits := bytes.toList.flatMap fun byte => Binary64.hexDigits 2 byte.toNat
  pure ⟨Clock.stamp now.toSecondsSinceUnixEpoch.val.toNat, String.ofList digits⟩

/-- Tells that a file cannot be used. -/
def reportUnusable : IO UInt32 := do
  IO.eprintln "redline: a file cannot be used"
  pure ExitCode.unusable.number.toUInt32

/-- Tells how a command has ended, and returns the number of that. -/
def report (outcome : Outcome) : IO UInt32 := do
  IO.print outcome.output
  match outcome.ending with
  | .ok .unusable => reportUnusable
  | .ok code => pure code.number.toUInt32
  | .error (.failure failure) => do
    IO.eprintln s!"redline: {failure.refusal.message}"
    pure ExitCode.failed.number.toUInt32
  | .error (.fault fault) => do
    IO.eprintln s!"redline: {fault.causeText}"
    pure ExitCode.failed.number.toUInt32

/-- Reads the command line and does what it asks for. -/
def run (arguments : List String) : IO UInt32 := do
  match Invocation.ofArguments arguments with
  | .error .helpWanted => do
    IO.println usage
    pure ExitCode.done.number.toUInt32
  | .error _ => do
    IO.eprintln usage
    pure ExitCode.unusable.number.toUInt32
  | .ok invocation => do
    let before ← load invocation
    let outcome := Command.run Command.readPack (← newStamp) invocation before
    if ← store before outcome.workspace then report outcome
    else reportUnusable

end Redline.Program

/-- The program. -/
def main (arguments : List String) : IO UInt32 := Redline.Program.run arguments
