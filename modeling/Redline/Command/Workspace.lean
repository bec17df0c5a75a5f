import Redline.Command.Path
import Redline.Document.Basic

/-!
# Workspaces

The files that a command works on, as a value: what is written goes into a new workspace, so what a
command has changed can be told by comparing two of them.

## Main definitions

* `Content` — what a file holds.
* `Workspace` — files and folders.
* `Workspace.read?`, `Workspace.write?`, `Workspace.makeFolder?` — the ways to use one.
-/

namespace Redline

/-- What a file holds. -/
inductive Content where
  | document (document : Document)
  | text (text : String)
deriving Repr

/-- Files and folders. -/
structure Workspace where
  files : List (Path × Content)
  /-- Folders that are there although they may hold nothing. -/
  folders : List Path := []
deriving Repr

namespace Workspace

/-- Whether there is a folder: the starting place, a folder that was made, or one that holds
something. -/
def hasFolder (w : Workspace) (p : Path) : Bool :=
  p == ⟨false, []⟩ || w.folders.any (·.isUnder p) ||
    w.files.any fun (file, _) => file != p && file.isUnder p

/-- What the file of a path holds. -/
def read? (w : Workspace) (path : String) : Option Content :=
  if Path.namesFile path then w.files.lookup (.ofText path) else none

/-- Puts a file into a list of files, in the place of the one with the same path. -/
def putFile (p : Path) (content : Content) : List (Path × Content) → List (Path × Content)
  | [] => [(p, content)]
  | (q, old) :: rest =>
    if q == p then (p, content) :: rest else (q, old) :: putFile p content rest

/-- Writes a file; its folder has to be there, and the path must not lead to a folder. -/
def write? (w : Workspace) (path : String) (content : Content) : Option Workspace :=
  let p := Path.ofText path
  if Path.namesFile path && w.hasFolder p.parent && !w.hasFolder p then
    some { w with files := putFile p content w.files }
  else none

/-- Makes a folder with all the folders that it stands in, unless a file is in the way. -/
def makeFolder? (w : Workspace) (path : String) : Option Workspace :=
  let p := Path.ofText path
  if w.files.any fun (file, _) => p.isUnder file then none
  else some { w with folders := w.folders ++ [p] }

end Workspace

end Redline
