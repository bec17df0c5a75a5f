/-!
# Paths

A path is the parts between its slashes.  Empty parts and single dots say nothing and are left out,
so two texts that lead to the same place the same way are one path.

## Main definitions

* `Path` — a path.
* `Path.ofText`, `Path.text` — reading and writing one.
* `Path.parent`, `Path.name`, `Path.withName`, `Path.child` — the folder and the name of a file.
* `Path.stem` — a name without its ending.
-/

namespace Redline

/-- A path: whether it begins at the root, and its parts. -/
structure Path where
  rooted : Bool
  parts : List String
deriving DecidableEq, Repr

namespace Path

/-- The pieces of a text between slashes; there is always at least one. -/
def pieces : List Char → List (List Char)
  | [] => [[]]
  | '/' :: rest => [] :: pieces rest
  | c :: rest =>
    match pieces rest with
    | [] => [[c]]
    | piece :: others => (c :: piece) :: others

/-- Whether a piece says something. -/
def speaks (piece : List Char) : Bool := piece != [] && piece != ['.']

/-- The path of a text. -/
def ofText (text : String) : Path where
  rooted := text.toList.head? == some '/'
  parts := ((pieces text.toList).filter speaks).map String.ofList

/-- Whether a text can be the path of a file: its last piece is a name. -/
def namesFile (text : String) : Bool := ((pieces text.toList).getLast?).any speaks

/-- A path as a text. -/
def text (p : Path) : String :=
  let parts := "/".intercalate p.parts
  if p.rooted then "/" ++ parts else if p.parts.isEmpty then "." else parts

/-- The last part, empty when there is none. -/
def name (p : Path) : String := (p.parts.getLast?).getD ""

/-- The folder that a path stands in. -/
def parent (p : Path) : Path := { p with parts := p.parts.dropLast }

/-- What bears the given name in a folder. -/
def child (p : Path) (name : String) : Path := { p with parts := p.parts ++ [name] }

/-- The path with another name in the same folder. -/
def withName (p : Path) (name : String) : Path := p.parent.child name

/-- Whether something under the first path lies in the second one or is it. -/
def isUnder (p folder : Path) : Bool :=
  p.rooted == folder.rooted && folder.parts.isPrefixOf p.parts

/-- A name without its ending: the last dot and what is behind it, unless the dot is the first or
the last character. -/
def stemOf (name : List Char) : List Char :=
  let ending := (name.reverse.takeWhile (· != '.')).length
  let front := name.take (name.length - ending - 1)
  if ending == 0 || front.isEmpty then name else front

/-- The name of a file without its ending. -/
def stem (p : Path) : String := String.ofList (stemOf p.name.toList)

end Path

end Redline
