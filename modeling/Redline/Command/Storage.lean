import Redline.Command.Request
import Redline.Command.Workspace
import Redline.Document.Notation
import Redline.Json.Parser
import Redline.Json.Printer

/-!
# How files are kept

A file is kept as a text; a document is kept in the notation of documents.  Which files a command
needs is told by its command line, so they can be read before it begins, and what it has changed can
be written when it has ended.

## Main definitions

* `Content.stored`, `Content.ofStored` — a file as a text.
* `Invocation.documents`, `Invocation.texts`, `Invocation.targets` — the paths of an invocation.
* `Workspace.changes` — the files that a command has made or changed.
-/

namespace Redline

namespace Content

/-- What a file holds, as a text. -/
def stored : Content → String
  | .document d => d.toJson.print .pretty
  | .text characters => characters

/-- The content of a document file: a list of nodes is a document, anything else only a text. -/
def ofStored (kept : String) : Content :=
  match Json.parse kept.toList with
  | .ok (.arr nodes) => .document (Document.ofJson (.arr nodes))
  | _ => .text kept

end Content

namespace Invocation

/-- The document that an invocation reads. -/
def documents (i : Invocation) : List String :=
  match i.request with
  | .extract request => [request.document]
  | .validate _ => []
  | .apply request => [request.document]

/-- The other files that an invocation reads. -/
def texts (i : Invocation) : List String :=
  i.rules.toList ++
    match i.request with
    | .extract _ => []
    | .validate plan => [plan]
    | .apply request => request.plan :: request.snapshot.toList

/-- The paths that an invocation may write to, or beside which it may write. -/
def targets (i : Invocation) : List String :=
  match i.request with
  | .extract request => request.out.toList
  | .validate _ => []
  | .apply request => request.document :: request.out.toList

end Invocation

/-- The files that are new in the second workspace, or hold something else there. -/
def Workspace.changes (before after : Workspace) : List (Path × Content) :=
  after.files.filter fun (path, content) =>
    (before.files.lookup path).map Content.stored != some content.stored

end Redline
