import Redline.Snapshot.Extract

/-!
# Finding the blocks of a snapshot again

The document may have changed since a snapshot was taken.  Its blocks are looked for in the order of
the sections: first a paragraph with the same text, then one that differs in case only, or that
contains the block's text or is contained in it when that text is long enough.  A heading has to
have the block's level as well.  Each paragraph answers for one block only.

## Main definitions

* `Snapshot.isExact`, `Snapshot.isSimilar` — the two rules.
* `Snapshot.Mapping` — blocks and the paragraphs that were found for them.
* `Snapshot.rematch` — the search.
-/

namespace Redline.Snapshot

open Redline.Text

/-- Whether a paragraph may stand for a block as far as the level is concerned. -/
def levelAgrees (rules : Rules) (block : Block) (p : Passage) : Bool :=
  if block.type.str? ≠ some "heading" then true
  else match rules.headingLevel? p.style with
    | some level => block.level.isInt level
    | none => block.level.isNull

/-- Whether a paragraph has the text of a block. -/
def isExact (rules : Rules) (block : Block) (text : String) (p : Passage) : Bool :=
  strip p.text.toList == strip text.toList && levelAgrees rules block p

/-- Whether a paragraph has nearly the text of a block. -/
def isSimilar (rules : Rules) (block : Block) (text : String) (p : Passage) : Bool :=
  let live := lower (strip p.text.toList)
  let wanted := lower (strip text.toList)
  (live == wanted ||
    ((wanted.length : Int) > rules.rematchMinChars &&
      (occursIn wanted live || occursIn live wanted))) &&
  levelAgrees rules block p

/-- The paragraph for a block among those that are free. -/
def findFor (rules : Rules) (block : Block) (text : String) (free : List Passage) :
    Option Passage :=
  match free.find? (isExact rules block text) with
  | some p => some p
  | none => free.find? (isSimilar rules block text)

/-- Sets what an id stands for: an id that is there already keeps its place. -/
def putPassage (id : String) (p : Passage) :
    List (String × Passage) → List (String × Passage)
  | [] => [(id, p)]
  | (i, q) :: rest => if i == id then (i, p) :: rest else (i, q) :: putPassage id p rest

/-- Blocks and the paragraphs that were found for them. -/
structure Mapping where
  matched : List (String × Passage) := []
  /-- The blocks for which no paragraph was found. -/
  unmatched : List String := []
  /-- The positions of the paragraphs that answer for a block. -/
  used : List Nat := []
deriving Repr

namespace Mapping

/-- The paragraphs that do not answer for a block yet. -/
def free (m : Mapping) (candidates : List Passage) : List Passage :=
  candidates.filter fun p => !m.used.contains p.index

/-- Looks for a block whose text is known. -/
def add (rules : Rules) (candidates : List Passage) (id : String) (block : Block) (text : String)
    (m : Mapping) : Mapping :=
  match findFor rules block text (m.free candidates) with
  | some p => { m with matched := putPassage id p m.matched, used := m.used ++ [p.index] }
  | none => { m with unmatched := m.unmatched ++ [id] }

/-- Looks for a block whose text is no text: that goes wrong with the first paragraph it would have
to be compared with, and, unless it is a list, even without one. -/
def addUntyped (candidates : List Passage) (id : String) (block : Block) (m : Mapping) :
    Except Fault Mapping :=
  if !(m.free candidates).isEmpty then
    .error (.noMember s!"'{block.text.typeName}' object has no attribute 'strip'")
  else match block.text with
    | .arr _ => .ok { m with unmatched := m.unmatched ++ [id] }
    | _ => .error (.wrongType "a text is expected")

/-- Looks for the block of a listed id; an id without a block is passed over. -/
def step (rules : Rules) (snapshot : Snapshot) (candidates : List Passage) (m : Mapping)
    (listed : Json) : Except Fault Mapping := do
  checkId listed
  match listed.str?, snapshot.block? listed with
  | some id, some block =>
    match block.text with
    | .str text => .ok (m.add rules candidates id block text)
    | _ => m.addUntyped candidates id block
  | _, _ => .ok m

end Mapping

/-- The paragraphs that can answer for a block: those that are not blank. -/
def candidates (passages : List Passage) : List Passage :=
  passages.filter fun p => !allBlank p.text.toList

/-- Looks for all blocks of a snapshot among paragraphs. -/
def mapping (snapshot : Snapshot) (rules : Rules) (passages : List Passage) :
    Except Fault Mapping :=
  snapshot.listedIds.foldlM (Mapping.step rules snapshot (candidates passages)) {}

/-- Looks for all blocks of a snapshot in a host's document. -/
def rematch (snapshot : Snapshot) (rules : Rules) : Editing Mapping := do
  Editing.lift (snapshot.mapping rules (← Host.paragraphs))

end Redline.Snapshot
