import Mathlib.Data.List.Count
import Mathlib.Data.List.Nodup
import Mathlib.Data.List.Pairwise
import Mathlib.Tactic.Linarith
import Redline.Document.Basic

/-!
# Handles of a forest

Edits find their place by a handle.  Where a handle stands once, all edits at it have one shape: the
element gives way to a forest, and everything else stays.

## Main definitions

* `Forest.handles` — the handles of a forest, in document order.
* `Forest.replaceAt` — the common shape of the edits at a handle.
-/

namespace Redline

/-- What stands in one of several lists without repetitions tells that list from all others. -/
theorem eq_of_mem_flatMap {α β : Type} {l : List α} {f : α → List β} (hn : (l.flatMap f).Nodup)
    {a b : α} (ha : a ∈ l) (hb : b ∈ l) {x : β} (hxa : x ∈ f a) (hxb : x ∈ f b) : a = b := by
  by_contra hne
  have : Std.Symm (Function.onFun List.Disjoint f) := ⟨fun _ _ h _ ha hb => h hb ha⟩
  exact (List.nodup_flatMap.1 hn).2.forall ha hb hne hxa hxb

theorem Element.has_iff {e : Element} {h : Handle} : e.has h = true ↔ e.handle? = some h := by
  simp [Element.has]

namespace Forest

/-- The handles of a forest at any depth, in document order. -/
def handles : Forest → List Handle
  | .nil => []
  | .cons e inside rest => e.handle?.toList ++ (inside.handles ++ rest.handles)

@[simp] theorem handles_nil : Forest.nil.handles = [] := rfl

@[simp] theorem handles_cons (e : Element) (inside rest : Forest) :
    (Forest.cons e inside rest).handles = e.handle?.toList ++ (inside.handles ++ rest.handles) :=
  rfl

@[simp] theorem handles_append (f g : Forest) : (f ++ g).handles = f.handles ++ g.handles := by
  induction f with
  | nil => rfl
  | cons e inside rest _ ih => simp [ih]

@[simp] theorem handles_single (e : Element) (inside : Forest) :
    (single e inside).handles = e.handle?.toList ++ inside.handles := by
  simp [single]

theorem ownParagraphs_sublist_handles (f : Forest) : f.ownParagraphs.Sublist f.handles := by
  induction f with
  | nil => simp [ownParagraphs]
  | cons e inside rest _ ihr =>
    have htail : rest.ownParagraphs.Sublist (inside.handles ++ rest.handles) :=
      ihr.trans (List.sublist_append_right _ _)
    cases e <;> simp [ownParagraphs, Element.handle?, htail, htail.cons]

theorem mem_handles_of_aloneInCell {h : Handle} {f : Forest} (ha : f.aloneInCell h = true) :
    h ∈ f.handles := by
  induction f with
  | nil => simp [aloneInCell] at ha
  | cons e inside rest ihi ihr =>
    simp only [aloneInCell, Bool.or_eq_true, Bool.and_eq_true, beq_iff_eq] at ha
    rcases ha with (⟨_, ho⟩ | hi) | hr
    · have : h ∈ inside.handles := (ownParagraphs_sublist_handles inside).subset (by simp [ho])
      simp [this]
    · simp [ihi hi]
    · simp [ihr hr]

/-! ## Edits at a handle -/

/-- Replaces the element with the given handle by a forest, which may depend on it. -/
def replaceAt (h : Handle) (into : Element → Forest → Forest) : Forest → Forest
  | .nil => .nil
  | .cons e inside rest =>
    if e.has h then into e inside ++ rest
    else .cons e (inside.replaceAt h into) (rest.replaceAt h into)

theorem insertBefore_eq_replaceAt (h : Handle) (new f : Forest) :
    insertBefore h new f = f.replaceAt h fun e inside => new ++ single e inside := by
  induction f with
  | nil => rfl
  | cons e inside rest ihi ihr =>
    simp only [insertBefore, replaceAt, ihi, ihr, append_assoc]
    rfl

theorem insertAfter_eq_replaceAt (h : Handle) (new f : Forest) :
    insertAfter h new f = f.replaceAt h fun e inside => single e inside ++ new := by
  induction f with
  | nil => rfl
  | cons e inside rest ihi ihr =>
    simp only [insertAfter, replaceAt, ihi, ihr, append_assoc]
    rfl

theorem erase_eq_replaceAt (h : Handle) (f : Forest) :
    f.erase h = f.replaceAt h fun _ _ => .nil := by
  induction f with
  | nil => rfl
  | cons e inside rest ihi ihr =>
    simp only [erase, replaceAt, ihi, ihr]
    rfl

theorem modify_eq_replaceAt (h : Handle) (change : Element → Forest → Element × Forest)
    (f : Forest) :
    f.modify h change =
      f.replaceAt h fun e inside => single (change e inside).1 (change e inside).2 := by
  induction f with
  | nil => rfl
  | cons e inside rest ihi ihr =>
    simp only [modify, replaceAt, ihi, ihr]
    rfl

theorem modifyInside_eq_replaceAt (h : Handle) (change : Forest → Forest) (f : Forest) :
    f.modifyInside h change = f.replaceAt h fun e inside => single e (change inside) :=
  modify_eq_replaceAt h _ f

theorem replaceAt_of_notMem {h : Handle} {f : Forest} (hf : h ∉ f.handles)
    (into : Element → Forest → Forest) : f.replaceAt h into = f := by
  induction f with
  | nil => rfl
  | cons e inside rest ihi ihr =>
    simp only [handles_cons, List.mem_append, Option.mem_toList, not_or] at hf
    have he : ¬ e.has h = true := by simpa [Element.has_iff] using hf.1
    simp [replaceAt, he, ihi hf.2.1, ihr hf.2.2]

/-- An element may give way to itself. -/
theorem replaceAt_single (h : Handle) (f : Forest) : f.replaceAt h single = f := by
  induction f with
  | nil => rfl
  | cons e inside rest ihi ihr =>
    by_cases he : e.has h = true <;> simp [replaceAt, he, ihi, ihr, single]

/-! ## Finding an element -/

theorem tree?_eq_none_iff {h : Handle} {f : Forest} : f.tree? h = none ↔ h ∉ f.handles := by
  induction f with
  | nil => simp [tree?]
  | cons e inside rest ihi ihr =>
    by_cases he : e.has h = true
    · simp [tree?, he, Element.has_iff.1 he]
    · have he' : e.handle? ≠ some h := fun hh => he (Element.has_iff.2 hh)
      cases hi : inside.tree? h with
      | none => simp [tree?, he, hi, ihr, he', ihi.1 hi]
      | some tree =>
        have hmem : h ∈ inside.handles := by
          by_contra hc
          simp [ihi.2 hc] at hi
        simp [tree?, he, hi, hmem]

theorem holds_iff {h : Handle} {f : Forest} : f.holds h = true ↔ h ∈ f.handles := by
  induction f with
  | nil => simp [holds]
  | cons e inside rest ihi ihr => simp [holds, Element.has_iff, ihi, ihr, or_assoc]

/-- What does not stand in the front of a forest is found behind it. -/
theorem tree?_append_of_notMem {h : Handle} {f g : Forest} (hf : h ∉ f.handles) :
    (f ++ g).tree? h = g.tree? h := by
  induction f with
  | nil => rfl
  | cons e inside rest _ ih =>
    simp only [handles_cons, List.mem_append, Option.mem_toList, not_or] at hf
    have he : ¬ e.has h = true := by simpa [Element.has_iff] using hf.1
    rw [cons_append, tree?, if_neg he, tree?_eq_none_iff.2 hf.2.1]
    exact ih hf.2.2

/-! ## How often a handle stands in an edited forest -/

variable {h x : Handle} {f : Forest}

theorem count_handles_replaceAt_le {g : Element → Forest → Forest} {n : Nat}
    (hg : ∀ e inside, e.has h = true →
      (g e inside).handles.count x ≤ (single e inside).handles.count x + n) :
    (f.replaceAt h g).handles.count x ≤ f.handles.count x + f.handles.count h * n := by
  induction f with
  | nil => simp [replaceAt]
  | cons e inside rest ihi ihr =>
    by_cases he : e.has h = true
    · have hle := hg e inside he
      have hh : e.handle? = some h := Element.has_iff.1 he
      simp only [handles_single, List.count_append] at hle
      simp only [replaceAt, he, if_true, handles_append, handles_cons, List.count_append]
      have hone : 1 ≤ List.count h e.handle?.toList := by simp [hh]
      nlinarith [Nat.zero_le n]
    · simp only [replaceAt, he, handles_cons, List.count_append, Bool.false_eq_true, if_false]
      nlinarith [Nat.zero_le n]

theorem count_handles_erase_le (f : Forest) (h x : Handle) :
    (f.erase h).handles.count x ≤ f.handles.count x := by
  simpa [erase_eq_replaceAt] using
    count_handles_replaceAt_le (f := f) (x := x) (h := h) (n := 0) (g := fun _ _ => .nil) (by simp)

/-- Taking an element out takes out no more than what stands there. -/
theorem count_handles_erase_add_le {tree : Forest} (ht : f.tree? h = some tree) :
    (f.erase h).handles.count x + tree.handles.count x ≤ f.handles.count x := by
  induction f with
  | nil => simp [tree?] at ht
  | cons e inside rest ihi ihr =>
    by_cases he : e.has h = true
    · simp only [tree?, he, if_true, Option.some.injEq] at ht
      subst ht
      simp only [erase, he, if_true, handles_cons, handles_single, List.count_append]
      omega
    · simp only [tree?, he, Bool.false_eq_true, if_false] at ht
      simp only [erase, he, Bool.false_eq_true, if_false, handles_cons, List.count_append]
      cases hi : inside.tree? h with
      | some t =>
        obtain rfl : t = tree := by simpa [hi] using ht
        have := ihi hi
        have := count_handles_erase_le rest h x
        omega
      | none =>
        have := ihr (by simpa [hi] using ht)
        have := count_handles_erase_le inside h x
        omega

end Forest

end Redline
