import Redline.Document.Bookmark
import Redline.Document.Stylesheet

/-!
# Documents

A document is a body, the styles that it defines, and whatever has been made for it, or taken out of
it, and stands nowhere.  What is taken out of a document lives on for those who still hold a handle on
it.

## Main definitions

* `Document` — a body with its loose parts and its styles.
* `Document.paragraphs`, `Document.passages` — what the document shows.
* `Document.standing` — where the element with a handle stands.
* `Document.place`, `Document.takeOut` — putting in and taking out.
-/

namespace Redline

/-- A part that stands nowhere. -/
structure LoosePart where
  /-- Whether it has been made for the document and never stood in it. -/
  fresh : Bool
  tree : Forest
deriving DecidableEq, Repr

/-- A document. -/
structure Document where
  body : Forest
  loose : List LoosePart := []
  /-- The number of the next handle. -/
  nextHandle : Nat := 0
  /-- The styles that it defines. -/
  styles : Stylesheet := .standard
deriving Repr

/-- Where an element stands. -/
inductive Standing where
  /-- Inside something: the body, or a part that has been taken out. -/
  | placed
  /-- Nowhere, since it was taken out or put beside something that stands nowhere. -/
  | removed
  /-- Nowhere, since it has never been put in. -/
  | fresh
deriving DecidableEq, Repr

/-- Which side of an element. -/
inductive Side where
  | before
  | after
deriving DecidableEq, Repr

/-- Which end of the body. -/
inductive Edge where
  | start
  | stop
deriving DecidableEq, Repr

/-- The name of a side. -/
def Side.name : Side → String
  | .before => "before"
  | .after => "after"

/-- The name of an end. -/
def Edge.name : Edge → String
  | .start => "start"
  | .stop => "end"

/-- Whether the root of a part has the given handle. -/
def LoosePart.isRoot (h : Handle) (part : LoosePart) : Bool :=
  match part.tree with
  | .nil => false
  | .cons e _ _ => e.has h

namespace Document

/-! ## Views -/

/-- The paragraphs of a document. -/
def paragraphs (d : Document) : List Paragraph := d.body.paragraphs

/-- The list of a document's paragraphs. -/
def passages (d : Document) : List Passage :=
  d.paragraphs.zipIdx.map fun (p, index) => p.passage index

/-- The handles of a document's paragraphs. -/
def listed (d : Document) : List Handle := d.paragraphs.map (·.handle)

/-- Whether the element with the given handle stands in the body, at any depth. -/
def attached (d : Document) (h : Handle) : Bool := d.body.holds h

/-- The element with the given handle, wherever it stands. -/
def tree? (d : Document) (h : Handle) : Option Forest :=
  match d.body.tree? h with
  | some tree => some tree
  | none => d.loose.findSome? fun part => part.tree.tree? h

/-- What is inside the element with the given handle. -/
def inside (d : Document) (h : Handle) : Forest :=
  match d.tree? h with
  | some (.cons _ inside _) => inside
  | _ => .nil

/-- Where the element with the given handle stands. -/
def standing (d : Document) (h : Handle) : Standing :=
  match d.loose.find? (·.isRoot h) with
  | some part => if part.fresh then .fresh else .removed
  | none => .placed

/-! ## Changes -/

/-- Changes the body and every loose part alike.  Handles are given once, so a change at a handle
happens at one place. -/
def mapTrees (change : Forest → Forest) (d : Document) : Document :=
  { d with
    body := change d.body
    loose := d.loose.map fun part => { part with tree := change part.tree } }

/-- Changes the element with the given handle and what is inside it. -/
def modify (h : Handle) (change : Element → Forest → Element × Forest) (d : Document) : Document :=
  d.mapTrees (·.modify h change)

/-- Changes what is inside the element with the given handle. -/
def modifyInside (h : Handle) (change : Forest → Forest) (d : Document) : Document :=
  d.mapTrees (·.modifyInside h change)

/-- A document without the loose part whose root has the given handle. -/
def dropLoose (h : Handle) (d : Document) : Document :=
  { d with loose := d.loose.filter fun part => !part.isRoot h }

/-- Puts forests on both sides of the element with the given handle. -/
def place (h : Handle) (before after : Forest) (d : Document) : Document :=
  d.mapTrees fun f => Forest.insertBefore h before (Forest.insertAfter h after f)

/-- Takes the element with the given handle out. -/
def takeOut (h : Handle) (d : Document) : Document :=
  match d.tree? h with
  | none => d
  | some tree =>
    let rest := d.mapTrees (·.erase h)
    { rest with loose := rest.loose ++ [⟨false, tree⟩] }

/-- Whether a paragraph is the only one of a cell. -/
def aloneInCell (d : Document) (h : Handle) : Bool :=
  d.body.aloneInCell h || d.loose.any fun part => part.tree.aloneInCell h

/-- Takes a paragraph out, or empties it when it is the only one of a cell; one that stands nowhere
stays as it is. -/
def removeParagraph (h : Handle) (d : Document) : Document :=
  if d.standing h ≠ .placed then d
  else if d.aloneInCell h then d.modifyInside h fun _ => .nil
  else d.takeOut h

/-- Adds a loose part that has never stood in the document. -/
def addFresh (make : Handle → Forest) (d : Document) : Document × Handle :=
  let h : Handle := ⟨d.nextHandle⟩
  ({ d with loose := d.loose ++ [⟨true, make h⟩], nextHandle := d.nextHandle + 1 }, h)

end Document

end Redline
