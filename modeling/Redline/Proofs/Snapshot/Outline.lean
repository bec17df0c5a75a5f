import Mathlib.Data.List.Basic
import Mathlib.Data.List.Induction
import Redline.Proofs.Forest.Rewrite
import Redline.Snapshot.Apply

/-!
# Block plans as edits of a list

What a block plan does to a document can be told from the list of its paragraphs alone: every
operation works on one entry of it.  Many operations add up to one description for each entry.

## Main definitions

* `Entry`, `Document.outline` — the list of a document's paragraphs, old ones told from new ones.
* `Snapshot.edit`, `Snapshot.editOutline` — what one operation does to the list.
* `Snapshot.edited` — what all operations of a plan make of one entry.
-/

namespace Redline

open Redline.Text

/-- A paragraph as it is compared before and after a run. -/
structure Entry where
  /-- The handle of a paragraph that was there before, nothing for a new one. -/
  original : Option Handle
  style : String
  alignment : Option Alignment
  text : List Char
deriving DecidableEq, Repr

/-- A paragraph as an entry; handles from the number `known` on are new. -/
def Paragraph.entry (known : Nat) (p : Paragraph) : Entry where
  original := if p.handle.number < known then some p.handle else none
  style := p.style
  alignment := p.alignment
  text := p.content.shownText

/-- The paragraphs of a document as entries. -/
def Document.outline (known : Nat) (d : Document) : List Entry :=
  d.paragraphs.map (·.entry known)

namespace Snapshot

variable {style : String} {m : Mapping}

/-- The paragraph of an operation. -/
def Mapping.handle? (m : Mapping) (op : Operation) : Option Handle :=
  (m.matched.lookup op.target).map (·.handle)

/-- The lines of an operation, each a new paragraph of the given style. -/
def newEntries (style : String) (op : Operation) : List Entry :=
  (lines op.content.toList).map fun line => ⟨none, style, none, line⟩

/-- What an operation makes of the entry that it works on. -/
def edit (style : String) (op : Operation) (e : Entry) : List Entry :=
  match op.kind with
  | .replace => [{ e with text := op.content.toList.map readBack }]
  | .insertBefore => newEntries style op ++ [e]
  | .insertAfter => e :: newEntries style op

/-- What an operation on the paragraph with the given handle makes of an outline. -/
def editOutline (style : String) (op : Operation) (h : Handle) (outline : List Entry) :
    List Entry :=
  outline.flatMap fun e => if e.original = some h then edit style op e else [e]

/-- What operations in their order make of an outline. -/
def editOutlines (style : String) (m : Mapping) (outline : List Entry) (ops : List Operation) :
    List Entry :=
  ops.foldl (fun outline op => ((m.handle? op).map fun h =>
    editOutline style op h outline).getD outline) outline

/-- The operations of a kind that work on an entry. -/
def opsOn (m : Mapping) (ops : List Operation) (e : Entry) (kind : OperationKind) :
    List Operation :=
  (ops.filter fun op => m.handle? op == e.original).filter fun op => op.kind == kind

/-- What operations make of an entry: the lines inserted before it, in order; the entry with the text
of the last replacement; the lines inserted after it, those of later operations first. -/
def edited (style : String) (m : Mapping) (ops : List Operation) (e : Entry) : List Entry :=
  (opsOn m ops e .insertBefore).flatMap (newEntries style) ++
    ({ e with text := (((opsOn m ops e .replace).getLast?).map fun op =>
        op.content.toList.map readBack).getD e.text } ::
      (opsOn m ops e .insertAfter).reverse.flatMap (newEntries style))

theorem editOutlines_concat (outline : List Entry) (ops : List Operation) (op : Operation) :
    editOutlines style m outline (ops ++ [op]) =
      ((m.handle? op).map fun h => editOutline style op h (editOutlines style m outline ops)).getD
        (editOutlines style m outline ops) := by
  simp [editOutlines]

theorem editOutline_append (op : Operation) (h : Handle) (first second : List Entry) :
    editOutline style op h (first ++ second) =
      editOutline style op h first ++ editOutline style op h second :=
  List.flatMap_append

/-- No operation works on new paragraphs. -/
theorem editOutline_of_new {op : Operation} {h : Handle} {entries : List Entry}
    (he : ∀ e ∈ entries, e.original = none) : editOutline style op h entries = entries := by
  induction entries with
  | nil => rfl
  | cons e rest ih =>
    have := ih fun e he' => he e (List.mem_cons_of_mem _ he')
    simp [editOutline, he e List.mem_cons_self] at this ⊢
    exact this

theorem original_of_mem_newEntries {ops : List Operation} {e : Entry}
    (he : e ∈ ops.flatMap (newEntries style)) : e.original = none := by
  obtain ⟨op, _, he⟩ := List.mem_flatMap.1 he
  obtain ⟨line, _, rfl⟩ := List.mem_map.1 he
  rfl

theorem opsOn_concat {ops : List Operation} {op : Operation} {e : Entry} {kind : OperationKind} :
    opsOn m (ops ++ [op]) e kind =
      opsOn m ops e kind ++ if m.handle? op = e.original ∧ op.kind = kind then [op] else [] := by
  by_cases hh : m.handle? op = e.original <;> by_cases hk : op.kind = kind <;>
    simp [opsOn, hh, hk]

/-- One more operation on an entry. -/
theorem edited_concat {ops : List Operation} {op : Operation} {e : Entry}
    (hop : m.handle? op = e.original) {h : Handle} (he : e.original = some h) :
    editOutline style op h (edited style m ops e) = edited style m (ops ++ [op]) e := by
  rw [edited, editOutline_append, editOutline_of_new fun _ => original_of_mem_newEntries,
    ← List.singleton_append, editOutline_append,
    editOutline_of_new fun _ => original_of_mem_newEntries]
  simp only [edited, opsOn_concat, hop, true_and, editOutline, List.flatMap_singleton, he, if_true,
    edit]
  cases op.kind <;> simp [newEntries]

/-- An operation on another paragraph. -/
theorem edited_concat_of_ne {ops : List Operation} {op : Operation} {e : Entry}
    (hop : m.handle? op ≠ e.original) :
    edited style m (ops ++ [op]) e = edited style m ops e := by
  simp [edited, opsOn_concat, hop]

theorem editOutline_edited_of_ne {ops : List Operation} {op : Operation} {e : Entry} {h : Handle}
    (he : e.original ≠ some h) :
    editOutline style op h (edited style m ops e) = edited style m ops e := by
  rw [edited, editOutline_append, editOutline_of_new fun _ => original_of_mem_newEntries,
    ← List.singleton_append, editOutline_append,
    editOutline_of_new fun _ => original_of_mem_newEntries]
  simp [editOutline, he]

/-- Operations in their order make of each entry what they make of it together. -/
theorem editOutlines_eq {outline : List Entry} (ho : ∀ e ∈ outline, e.original.isSome)
    (ops : List Operation) :
    editOutlines style m outline ops = outline.flatMap (edited style m ops) := by
  induction ops using List.reverseRecOn with
  | nil =>
    have : edited style m [] = fun e => [e] := by
      funext e
      simp [edited, opsOn]
    rw [this, List.flatMap_singleton']
    rfl
  | append_singleton ops op ih =>
    rw [editOutlines_concat, ih]
    cases hop : m.handle? op with
    | none =>
      refine List.flatMap_congr fun e he => (edited_concat_of_ne fun hh => ?_).symm
      have := ho e he
      simp [← hh, hop] at this
    | some h =>
      rw [Option.map_some, Option.getD_some, editOutline, List.flatMap_assoc]
      refine List.flatMap_congr fun e _ => ?_
      by_cases he : e.original = some h
      · exact edited_concat (hop.trans he.symm) he
      · rw [edited_concat_of_ne fun hh => he (hh.symm.trans hop)]
        exact editOutline_edited_of_ne he

/-- Only the order of the operations on one paragraph matters. -/
theorem edited_congr {ops ops' : List Operation} {e : Entry}
    (h : ops.filter (fun op => m.handle? op == e.original) =
      ops'.filter fun op => m.handle? op == e.original) :
    edited style m ops e = edited style m ops' e := by
  simp only [edited, opsOn, h]

end Snapshot

end Redline
