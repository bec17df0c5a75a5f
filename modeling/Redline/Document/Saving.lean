import Redline.Document.Host

/-!
# Saving, reopening, closing

A document is saved only when no effect waits.  What is opened again is a new document: it looks the
same, but its elements have handles of their own, and those that were handed out before now lead to
elements outside it.

## Main definitions

* `Host.ofDocument` — the host of a document that is opened.
* `Document.reopened` — a document whose elements are new.
* `Host.saved` — the document as it is saved.
* `Host.reopen` — saves and goes on with what was saved.
* `Host.select`, `Host.close` — choosing the selection, and giving the document up.
-/

namespace Redline

/-- An element whose handle is moved up. -/
def Element.relabel (offset : Nat) : Element → Element
  | .paragraph h style alignment => .paragraph ⟨h.number + offset⟩ style alignment
  | .control h properties => .control ⟨h.number + offset⟩ properties
  | e => e

/-- A forest whose handles are moved up. -/
def Forest.relabel (offset : Nat) : Forest → Forest
  | .nil => .nil
  | .cons e inside rest =>
    .cons (e.relabel offset) (inside.relabel offset) (rest.relabel offset)

/-- A document with the same look and new elements.  The old body lives on as a loose part of its
own, in which its elements keep their places. -/
def Document.reopened (d : Document) : Document where
  body := d.body.relabel d.nextHandle
  loose := d.loose ++ [⟨false, .single .box d.body⟩]
  nextHandle := d.nextHandle + d.nextHandle
  styles := d.styles

namespace Host

/-- The host of a document that is opened: nothing is queued or selected. -/
def ofDocument (d : Document) : Host := { document := d }

/-- The document as it is saved; waiting effects stand in the way. -/
def saved : Editing Document := do
  let host ← get
  if !host.pending.isEmpty then Editing.fault (.unflushed host.pending.length)
  else if host.isOpen then pure host.document
  else Editing.fault (closedFault "save")

/-- Saves the document and goes on with what was saved. -/
def reopen : Editing Unit := do
  set (ofDocument (← saved).reopened)

/-- Chooses the selected paragraphs. -/
def select (range : Option (List Handle)) : Editing Unit :=
  modify fun host => { host with selected := range }

/-- Gives the document up; what is queued stays queued. -/
def close : Editing Unit :=
  modify fun host => { host with isOpen := false, selected := none }

end Host

end Redline
