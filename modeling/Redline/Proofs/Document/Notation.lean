import Redline.Document.Notation
import Redline.Proofs.Document.WellFormed
import Redline.Proofs.Editing

/-!
# Documents that have been read

A body is read in document order, and every paragraph and content control gets the next handle when
it is come to.  Runs keep only what can be written.  So a document is well formed when it has been
read, and a host of it is ready.

## Main definitions

* `Notation.Numbered` — a forest whose handles are consecutive, in document order.
* `Notation.Numbers` — a reading of such forests.
-/

namespace Redline

open Redline.Text

namespace Notation

/-- The handles of the forest are those from one number up to another, in document order, and its
runs are readable. -/
structure Numbered (f : Forest) (n m : Nat) : Prop where
  le : n ≤ m
  handles : f.handles = (List.range' n (m - n)).map Handle.mk
  readable : f.OfKind isReadable

/-- A reading that numbers what it reads, from wherever it begins. -/
def Numbers (work : Reading Forest) : Prop :=
  ∀ n, Numbered (work.run n).1 n (work.run n).2

variable {f g : Forest} {e : Element} {n m k : Nat}

theorem Numbered.plain (hf : f.handles = []) (hr : f.OfKind isReadable) : Numbered f n n :=
  ⟨le_rfl, by simp [hf], hr⟩

theorem Numbers.of_plain (hf : f.handles = []) (hr : f.OfKind isReadable) : Numbers (pure f) :=
  fun _ => .plain hf hr

theorem Numbered.append (hf : Numbered f n m) (hg : Numbered g m k) : Numbered (f ++ g) n k where
  le := hf.le.trans hg.le
  handles := by
    have hle := hf.le
    have hle' := hg.le
    rw [Forest.handles_append, hf.handles, hg.handles, ← List.map_append]
    congr 1
    have := List.range'_append_1 (s := n) (m := m - n) (n := k - m)
    rw [show n + (m - n) = m by omega, show m - n + (k - m) = k - n by omega] at this
    exact this
  readable := Forest.ofKind_append.2 ⟨hf.readable, hg.readable⟩

theorem Numbered.inside (hf : Numbered f n m) (he : e.handle? = none)
    (hr : ∀ c ∈ e.characters, isReadable c = true) : Numbered (.single e f) n m where
  le := hf.le
  handles := by simp [he, hf.handles]
  readable := Forest.ofKind_single.2 ⟨hr, hf.readable⟩

theorem Numbered.holder (hf : Numbered f (n + 1) m) (he : e.handle? = some ⟨n⟩)
    (hr : ∀ c ∈ e.characters, isReadable c = true) : Numbered (.single e f) n m where
  le := (Nat.le_succ n).trans hf.le
  handles := by
    have := hf.le
    rw [Forest.handles_single, he, hf.handles, show m - n = m - (n + 1) + 1 by omega,
      List.range'_succ]
    rfl
  readable := Forest.ofKind_single.2 ⟨hr, hf.readable⟩

theorem numbered_mapM {α : Type} {read : α → Reading Forest} {l : List α}
    (h : ∀ a ∈ l, Numbers (read a)) (n : Nat) :
    Numbered (Forest.join ((l.mapM read).run n).1) n ((l.mapM read).run n).2 := by
  induction l generalizing n with
  | nil => exact .plain rfl Forest.ofKind_nil
  | cons a rest ih =>
    rw [List.mapM_cons]
    have ha := h a List.mem_cons_self n
    have hrest := ih (fun b hb => h b (List.mem_cons_of_mem _ hb)) ((read a).run n).2
    exact ha.append hrest

/-- What is read of many parts may be put inside an element without a handle. -/
theorem Numbers.mapM_inside {α : Type} {read : α → Reading Forest} {l : List α}
    (h : ∀ a ∈ l, Numbers (read a)) (he : e.handle? = none)
    (hr : ∀ c ∈ e.characters, isReadable c = true) :
    Numbers (do let parts ← l.mapM read; pure (.single e (Forest.join parts))) := fun n =>
  (numbered_mapM h n).inside he hr

theorem Numbers.mapM_holder {α : Type} {read : α → Reading Forest} {l : List α}
    {e : Handle → Element} (h : ∀ a ∈ l, Numbers (read a)) (he : ∀ h, (e h).handle? = some h)
    (hr : ∀ h, ∀ c ∈ (e h).characters, isReadable c = true) :
    Numbers (do
      let h ← newHandle
      let parts ← l.mapM read
      pure (.single (e h) (Forest.join parts))) := fun n =>
  (numbered_mapM h (n + 1)).holder (he _) (hr _)

theorem numbers_contentOf {style text : String} {alignment : Option Alignment} :
    Numbers (do pure (.single (.paragraph (← newHandle) style alignment) (contentOf text))) := by
  intro n
  have hcontent : Numbered (contentOf text) (n + 1) (n + 1) := by
    rw [contentOf]
    split
    · exact .plain rfl Forest.ofKind_nil
    · exact .plain (by simp [Forest.runOf, Element.handle?]) (Forest.ofKind_runOf _)
  exact hcontent.holder rfl (by simp [Element.characters])

theorem numbers_mark? (value : Json) :
    Numbers (pure ((mark? value).elim .nil fun e => Forest.single e .nil)) := by
  unfold mark?
  split
  · exact Numbers.of_plain rfl (Forest.ofKind_single.2 (by simp [Element.characters]))
  · exact Numbers.of_plain rfl (Forest.ofKind_single.2 (by simp [Element.characters]))
  · exact Numbers.of_plain rfl Forest.ofKind_nil

/-- Nodes and parts of paragraphs are numbered as they are read. -/
theorem numbers_of_sizeOf_lt (size : Nat) : ∀ value : Json, sizeOf value < size →
    Numbers (node value) ∧ Numbers (inlineNode value) := by
  induction size with
  | zero => simp
  | succ size ih =>
    intro value hsize
    constructor
    · unfold node
      split
      · exact numbers_contentOf
      · exact numbers_contentOf
      · split
        · exact Numbers.mapM_holder (fun a _ => (ih a (by omega)).2) (fun _ => rfl)
            (by simp [Element.characters])
        · split
          · refine Numbers.mapM_inside (fun row _ => ?_) rfl (by simp [Element.characters])
            refine Numbers.mapM_inside (fun cell _ => ?_) rfl (by simp [Element.characters])
            exact Numbers.mapM_inside (fun a _ => (ih a (by omega)).1) rfl
              (by simp [Element.characters])
          · split
            · exact Numbers.mapM_holder (fun a _ => (ih a (by omega)).1) (fun _ => rfl)
                (by simp [Element.characters])
            · exact numbers_mark? _
      · exact Numbers.of_plain rfl Forest.ofKind_nil
    · unfold inlineNode
      split
      · split
        · have hwritten : ∀ text : Option String, ∀ c ∈ written (text.getD "").toList,
              isReadable c = true := fun _ _ => isReadable_of_mem_written
          refine Numbers.mapM_inside (fun box _ => ?_) rfl
            (by simpa [Element.characters] using hwritten _)
          exact Numbers.mapM_inside (fun a _ => (ih a (by omega)).1) rfl
            (by simp [Element.characters])
        · split
          · exact Numbers.mapM_inside (fun a _ => (ih a (by omega)).2) rfl
              (by simp [Element.characters])
          · exact numbers_mark? _
      · exact Numbers.of_plain rfl Forest.ofKind_nil

theorem numbers_node (value : Json) : Numbers (node value) :=
  (numbers_of_sizeOf_lt _ value (Nat.lt_succ_self _)).1

end Notation

theorem Document.numbered_ofJson (body : Json) :
    Notation.Numbered (ofJson body).body 0 (ofJson body).nextHandle :=
  Notation.numbered_mapM (fun value _ => Notation.numbers_node value) 0

/-- A document that has just been read holds no return. -/
theorem Document.readable_ofJson (body : Json) : (ofJson body).OfKind isReadable := by
  intro tree ht
  obtain rfl : tree = (ofJson body).body := List.mem_singleton.1 ht
  exact (numbered_ofJson body).readable

/-- A document that has just been read is well formed. -/
theorem Document.wellFormed_ofJson (body : Json) : (ofJson body).WellFormed := by
  have h := numbered_ofJson body
  have htrees : (ofJson body).trees = [(ofJson body).body] := rfl
  have hhandles : (ofJson body).handles =
      (List.range' 0 (ofJson body).nextHandle).map Handle.mk := by
    rw [handles, htrees, List.flatMap_singleton, h.handles, Nat.sub_zero]
  refine ⟨?_, fun x hx => ?_, ?_⟩
  · rw [hhandles]
    exact List.Nodup.map (fun _ _ h => Handle.mk.inj h) List.nodup_range'
  · rw [hhandles] at hx
    obtain ⟨n, hn, rfl⟩ := List.mem_map.1 hx
    simpa using hn
  · exact fun tree ht c hc => (isReadable_iff.1 (readable_ofJson body tree ht c hc)).1

/-- A host of a document that has just been read is ready. -/
theorem Host.ready_ofJson (body : Json) : Host.Ready { document := Document.ofJson body } :=
  ⟨⟨rfl, rfl⟩, rfl, Document.wellFormed_ofJson body⟩

end Redline
