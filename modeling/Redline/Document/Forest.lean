import Redline.Passage

/-!
# Forests of document elements

The content of a document, of a cell, of a paragraph: elements in order, each with a forest of its
own inside.  Paragraphs and content controls carry a handle, by which edits find them; nothing else
needs one.

A forest is a first element with what is inside it, and the rest.  So every function on forests is a
plain recursion with two calls, and every law about them an induction with two hypotheses.

## Main definitions

* `Element`, `Forest` — what documents are made of.
* `Forest.tree?`, `Forest.holds` — finding an element by its handle.
* `Forest.insertBefore`, `Forest.insertAfter`, `Forest.erase`, `Forest.modify` — edits at a handle.
-/

namespace Redline

/-- Where the lines of a paragraph are aligned. -/
inductive Alignment where
  | left
  | center
  | right
  | justify
deriving DecidableEq, Repr

namespace Alignment

/-- The name of an alignment. -/
def name : Alignment → String
  | .left => "left"
  | .center => "center"
  | .right => "right"
  | .justify => "justify"

/-- The alignment of a name. -/
def ofName? (name : String) : Option Alignment :=
  [.left, .center, .right, .justify].find? fun a : Alignment => a.name == name

end Alignment

/-- The look of a run; what is not set comes from the style of the paragraph. -/
structure RunFormat where
  bold : Option Bool := none
  /-- Six capital digits to the base 16. -/
  color : Option String := none
deriving DecidableEq, Repr

/-- The properties of a content control. -/
structure ControlProperties where
  tag : Option String := none
  appearance : Option String := none
deriving DecidableEq, Repr

/-- What an element is, apart from what is inside it. -/
inductive Element where
  | paragraph (handle : Handle) (style : String) (alignment : Option Alignment)
  /-- A stretch of text; inside it stand its text boxes. -/
  | run (text : String) (format : RunFormat)
  | link
  | box
  | table
  | row
  | cell
  /-- A content control; one may lack the place for its properties. -/
  | control (handle : Handle) (properties : Option ControlProperties)
  | bookmarkStart (name id : String)
  | bookmarkEnd (id : String)
deriving DecidableEq, Repr

/-- Elements in order, each with what is inside it. -/
inductive Forest where
  | nil
  | cons (element : Element) (inside rest : Forest)
deriving DecidableEq, Repr, Inhabited

/-- The handle of an element. -/
def Element.handle? : Element → Option Handle
  | .paragraph handle _ _ => some handle
  | .control handle _ => some handle
  | _ => none

/-- Whether an element has the given handle. -/
def Element.has (e : Element) (h : Handle) : Bool := e.handle? == some h

namespace Forest

/-- Two forests one behind the other. -/
def append : Forest → Forest → Forest
  | .nil, other => other
  | .cons e inside rest, other => .cons e inside (append rest other)

instance : Append Forest := ⟨append⟩

@[simp] theorem nil_append (f : Forest) : Forest.nil ++ f = f := rfl

@[simp] theorem cons_append (e : Element) (inside rest f : Forest) :
    Forest.cons e inside rest ++ f = .cons e inside (rest ++ f) := rfl

@[simp] theorem append_nil (f : Forest) : f ++ Forest.nil = f := by
  induction f with
  | nil => rfl
  | cons e inside rest _ ih => simp [ih]

theorem append_assoc (f g h : Forest) : f ++ g ++ h = f ++ (g ++ h) := by
  induction f with
  | nil => rfl
  | cons e inside rest _ ih => simp [ih]

/-- A forest of one element. -/
def single (e : Element) (inside : Forest) : Forest := .cons e inside .nil

/-- Forests one behind the other. -/
def join (forests : List Forest) : Forest := forests.foldr (· ++ ·) .nil

/-- The elements of a forest as forests of one element each. -/
def trees : Forest → List Forest
  | .nil => []
  | .cons e inside rest => single e inside :: rest.trees

/-- Whether an element with the given handle stands anywhere in a forest. -/
def holds (h : Handle) : Forest → Bool
  | .nil => false
  | .cons e inside rest => e.has h || inside.holds h || rest.holds h

/-- The element with the given handle and what is inside it. -/
def tree? (h : Handle) : Forest → Option Forest
  | .nil => none
  | .cons e inside rest =>
    if e.has h then some (single e inside)
    else match inside.tree? h with
      | some tree => some tree
      | none => rest.tree? h

/-- Puts a forest in front of the element with the given handle. -/
def insertBefore (h : Handle) (new : Forest) : Forest → Forest
  | .nil => .nil
  | .cons e inside rest =>
    if e.has h then new ++ .cons e inside rest
    else .cons e (insertBefore h new inside) (insertBefore h new rest)

/-- Puts a forest behind the element with the given handle. -/
def insertAfter (h : Handle) (new : Forest) : Forest → Forest
  | .nil => .nil
  | .cons e inside rest =>
    if e.has h then .cons e inside (new ++ rest)
    else .cons e (insertAfter h new inside) (insertAfter h new rest)

/-- Takes the element with the given handle out, with what is inside it. -/
def erase (h : Handle) : Forest → Forest
  | .nil => .nil
  | .cons e inside rest =>
    if e.has h then rest else .cons e (inside.erase h) (rest.erase h)

/-- Changes the element with the given handle and what is inside it. -/
def modify (h : Handle) (change : Element → Forest → Element × Forest) : Forest → Forest
  | .nil => .nil
  | .cons e inside rest =>
    if e.has h then
      let (e, inside) := change e inside
      .cons e inside rest
    else .cons e (inside.modify h change) (rest.modify h change)

/-- Changes what is inside the element with the given handle. -/
def modifyInside (h : Handle) (change : Forest → Forest) (f : Forest) : Forest :=
  f.modify h fun e inside => (e, change inside)

/-- The handles of the paragraphs that stand directly in a forest. -/
def ownParagraphs : Forest → List Handle
  | .nil => []
  | .cons (.paragraph h _ _) _ rest => h :: rest.ownParagraphs
  | .cons _ _ rest => rest.ownParagraphs

/-- Whether the element with the given handle is the only paragraph of a cell. -/
def aloneInCell (h : Handle) : Forest → Bool
  | .nil => false
  | .cons e inside rest =>
    (e == .cell && inside.ownParagraphs == [h]) || inside.aloneInCell h || rest.aloneInCell h

end Forest

end Redline
