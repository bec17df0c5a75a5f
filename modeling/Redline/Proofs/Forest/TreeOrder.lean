import Mathlib.Data.List.Basic
import Redline.Proofs.Forest.Places

/-!
# Document order

All elements of a forest in one row, each in front of what is inside it.  An element that occurs
once has a place in this row, and by its place a mark parts the listed paragraphs of the forest:
those that are over when it comes, the one that holds it, if any, and those that begin behind it.

## Main definitions

* `Forest.everyElement` — the elements in document order.
* `Forest.Precedes` — one element begins before another one.
* `Forest.Around` — how a mark parts the listed paragraphs.
* `Forest.InTheOpen` — a mark among the inlines of a listed paragraph, or a child of the forest.
-/

namespace Redline.Forest

variable {f : Forest} {mark e : Element} {front behind : List Paragraph} {p : Paragraph}

/-! ## Elements in document order -/

/-- The elements of a forest in document order, at any depth. -/
def everyElement (f : Forest) : List Element := f.collect fun e => [e]

@[simp] theorem everyElement_nil : Forest.nil.everyElement = [] := rfl

@[simp] theorem everyElement_cons (e : Element) (inside rest : Forest) :
    (Forest.cons e inside rest).everyElement = e :: (inside.everyElement ++ rest.everyElement) := rfl

@[simp] theorem everyElement_append (f g : Forest) :
    (f ++ g).everyElement = f.everyElement ++ g.everyElement :=
  collect_append _ f g

@[simp] theorem everyElement_tree (p : Paragraph) :
    p.tree.everyElement = p.element :: p.content.everyElement := by
  simp [Paragraph.tree, single]

theorem collect_eq_flatMap {α : Type} (give : Element → List α) (f : Forest) :
    f.collect give = f.everyElement.flatMap give := by
  induction f with
  | nil => rfl
  | cons e inside rest ihi ihr => simp [ihi, ihr]

/-- The first element begins before the second one. -/
def Precedes (f : Forest) (first second : Element) : Prop :=
  f.everyElement.idxOf first < f.everyElement.idxOf second

/-- What stands in front of an element precedes it. -/
theorem precedes_of_mem_front {before after : List Element}
    (hsplit : f.everyElement = before ++ mark :: after) (hmark : mark ∉ before) (he : e ∈ before) :
    f.Precedes e mark := by
  rw [Precedes, hsplit, List.idxOf_append_of_mem he, List.idxOf_append_of_notMem hmark,
    List.idxOf_cons_self]
  have := List.idxOf_lt_length_of_mem he
  omega

/-- What occurs once precedes what does not stand in front of it. -/
theorem precedes_of_notMem_front {before after : List Element}
    (hsplit : f.everyElement = before ++ mark :: after) (hmark : mark ∉ before) (he : e ∉ before)
    (hne : e ≠ mark) : f.Precedes mark e := by
  rw [Precedes, hsplit, List.idxOf_append_of_notMem hmark, List.idxOf_append_of_notMem he,
    List.idxOf_cons_self, List.idxOf_cons_ne _ hne.symm]
  omega

/-! ## Paragraphs in document order -/

theorem mem_everyElement_of_mem_tree (hp : p ∈ f.paragraphs) (he : e ∈ p.tree.everyElement) :
    e ∈ f.everyElement := by
  induction f using paragraphInduction with
  | nil => simp at hp
  | paragraph q rest _ ih =>
    rw [everyElement_cons, ← List.cons_append, ← everyElement_tree, List.mem_append]
    rcases List.mem_cons.1 hp with rfl | hp
    · exact .inl he
    · exact .inr (ih hp)
  | other other inside rest ho ihi ihr =>
    rw [paragraphs_cons_other _ _ ho, List.mem_append] at hp
    rw [everyElement_cons, List.mem_cons, List.mem_append]
    exact .inr (hp.imp ihi ihr)

/-- The elements in front of a listed paragraph and those behind it. -/
theorem exists_everyElement_split (hp : f.paragraphs = front ++ p :: behind) :
    ∃ before after, f.everyElement = before ++ (p.tree.everyElement ++ after) ∧
      (∀ q ∈ front, ∀ e ∈ q.tree.everyElement, e ∈ before) ∧
      ∀ q ∈ behind, ∀ e ∈ q.tree.everyElement, e ∈ after := by
  induction f using paragraphInduction generalizing front behind with
  | nil => simp [paragraphs] at hp
  | paragraph q rest _ ih =>
    rw [paragraphs_cons_paragraph] at hp
    cases front with
    | nil =>
      obtain ⟨rfl, rfl⟩ := List.cons.inj hp
      exact ⟨[], rest.everyElement, by simp, by simp,
        fun q hq e he => mem_everyElement_of_mem_tree hq he⟩
    | cons q' others =>
      rw [List.cons_append] at hp
      obtain ⟨rfl, hrest⟩ := List.cons.inj hp
      obtain ⟨before, after, hsplit, hfront, hbehind⟩ := ih hrest
      refine ⟨q.tree.everyElement ++ before, after, by simp [hsplit], ?_, hbehind⟩
      refine List.forall_mem_cons.2 ⟨fun e he => List.mem_append_left _ he, fun o ho e he => ?_⟩
      exact List.mem_append_right _ (hfront o ho e he)
  | other other inside rest ho ihi ihr =>
    rw [paragraphs_cons_other _ _ ho] at hp
    -- The paragraph stands inside the element or behind it.
    obtain ⟨part, rfl, hrest⟩ | ⟨part, hinside, rfl⟩ : (∃ part, front = inside.paragraphs ++ part ∧
        rest.paragraphs = part ++ p :: behind) ∨ (∃ part, inside.paragraphs = front ++ p :: part ∧
        behind = part ++ rest.paragraphs) := by
      rcases List.append_eq_append_iff.1 hp with h | ⟨part, hi, hover⟩
      · exact .inl h
      · cases part with
        | nil => exact .inl ⟨[], by simpa using hi.symm, by simpa using hover.symm⟩
        | cons q part =>
          obtain ⟨rfl, rfl⟩ := List.cons.inj hover
          exact .inr ⟨part, hi, rfl⟩
    · obtain ⟨before, after, hsplit, hfront, hbehind⟩ := ihr hrest
      refine ⟨other :: (inside.everyElement ++ before), after, by simp [hsplit], fun q hq e he => ?_,
        hbehind⟩
      refine List.mem_cons_of_mem _ (List.mem_append.2 ?_)
      exact (List.mem_append.1 hq).imp (fun hq => mem_everyElement_of_mem_tree hq he)
        fun hq => hfront q hq e he
    · obtain ⟨before, after, hsplit, hfront, hbehind⟩ := ihi hinside
      refine ⟨other :: before, after ++ rest.everyElement, by simp [hsplit],
        fun q hq e he => List.mem_cons_of_mem _ (hfront q hq e he), fun q hq e he => ?_⟩
      refine List.mem_append.2 ?_
      exact (List.mem_append.1 hq).imp (fun hq => hbehind q hq e he)
        fun hq => mem_everyElement_of_mem_tree hq he

/-! ## How a mark parts the listed paragraphs -/

/-- A mark parts the listed paragraphs: some are over when it comes, one may hold it, and the others
begin behind it. -/
structure Around (f : Forest) (mark : Element) (front : List Paragraph) (holder : Option Paragraph)
    (behind : List Paragraph) : Prop where
  paragraphs_eq : f.paragraphs = front ++ (holder.toList ++ behind)
  ended : ∀ p ∈ front, ∀ e ∈ p.tree.everyElement, f.Precedes e mark
  holds : ∀ p ∈ holder, mark ∈ p.content.everyElement ∧ f.Precedes p.element mark
  begins : ∀ p ∈ behind, ∀ e ∈ p.tree.everyElement, f.everyElement.count e = 1 → f.Precedes mark e

/-- The elements of a forest that stand in none of its paragraphs. -/
def flow : Forest → List Element
  | .nil => []
  | .cons (.paragraph _ _ _) _ rest => rest.flow
  | .cons e inside rest => e :: (inside.flow ++ rest.flow)

theorem flow_cons_other {inside rest : Forest} (he : e.isParagraph = false) :
    (Forest.cons e inside rest).flow = e :: (inside.flow ++ rest.flow) := by
  cases e <;> first | rfl | cases he

theorem mem_everyElement_of_mem_flow (he : e ∈ f.flow) : e ∈ f.everyElement := by
  induction f using paragraphInduction with
  | nil => cases he
  | paragraph p rest _ ih =>
    rw [everyElement_cons]
    exact List.mem_cons_of_mem _ (List.mem_append_right _ (ih he))
  | other other inside rest ho ihi ihr =>
    rw [flow_cons_other ho, List.mem_cons, List.mem_append] at he
    rw [everyElement_cons, List.mem_cons, List.mem_append]
    exact he.imp_right (Or.imp ihi ihr)

/-- A mark stands among the inlines of a listed paragraph, or it is a child of the forest. -/
inductive InTheOpen (f : Forest) (mark : Element) : Prop
  | inline {p : Paragraph} : p ∈ f.paragraphs → mark ∈ p.content.flow → InTheOpen f mark
  | child {front behind : Forest} : f = front ++ .cons mark .nil behind → InTheOpen f mark

/-- What occurs once and is found behind a mark does not stand in front of it. -/
theorem notMem_of_count_eq_one {before after : List Element}
    (hsplit : f.everyElement = before ++ mark :: after) (hone : f.everyElement.count e = 1)
    (he : e ∈ after) : e ∉ before ∧ e ≠ mark := by
  have hafter := List.count_pos_iff.2 he
  rw [hsplit, List.count_append, List.count_cons] at hone
  refine ⟨fun h => ?_, fun h => ?_⟩
  · have := List.count_pos_iff.2 h
    omega
  · subst h
    simp only [beq_self_eq_true, if_true] at hone
    omega

theorem notMem_front_of_count_eq_one {before after : List Element}
    (hsplit : f.everyElement = before ++ mark :: after) (hone : f.everyElement.count mark = 1) :
    mark ∉ before := by
  intro h
  have := List.count_pos_iff.2 h
  rw [hsplit, List.count_append, List.count_cons_self] at hone
  omega

/-- A mark among the inlines of a paragraph parts the paragraphs there. -/
theorem Around.inline (hone : f.everyElement.count mark = 1)
    (hp : f.paragraphs = front ++ p :: behind) (hmark : mark ∈ p.content.everyElement) :
    f.Around mark front (some p) behind := by
  obtain ⟨before, after, hsplit, hfront, hbehind⟩ := exists_everyElement_split hp
  obtain ⟨left, right, hcontent⟩ := List.append_of_mem hmark
  have hrow : f.everyElement = (before ++ p.element :: left) ++ mark :: (right ++ after) := by
    simp [hsplit, hcontent]
  have hnot := notMem_front_of_count_eq_one hrow hone
  refine ⟨by simp [hp], fun q hq e he => ?_, ?_, fun q hq e he hc => ?_⟩
  · exact precedes_of_mem_front hrow hnot (List.mem_append_left _ (hfront q hq e he))
  · rintro _ ⟨⟩
    exact ⟨hmark, precedes_of_mem_front hrow hnot (by simp)⟩
  · have := notMem_of_count_eq_one hrow hc (List.mem_append_right _ (hbehind q hq e he))
    exact precedes_of_notMem_front hrow hnot this.1 this.2

/-- A mark that is a child of the forest parts the paragraphs there. -/
theorem Around.child {left right : Forest} (hone : f.everyElement.count mark = 1)
    (hm : mark.isParagraph = false) (hf : f = left ++ .cons mark .nil right) :
    f.Around mark left.paragraphs none right.paragraphs := by
  have hrow : f.everyElement = left.everyElement ++ mark :: right.everyElement := by simp [hf]
  have hnot := notMem_front_of_count_eq_one hrow hone
  refine ⟨by simp [hf, paragraphs_cons_other _ _ hm, paragraphs], fun q hq e he => ?_, nofun,
    fun q hq e he hc => ?_⟩
  · exact precedes_of_mem_front hrow hnot (mem_everyElement_of_mem_tree hq he)
  · have := notMem_of_count_eq_one hrow hc (mem_everyElement_of_mem_tree hq he)
    exact precedes_of_notMem_front hrow hnot this.1 this.2

/-- A handle belongs to one element, so a listed paragraph occurs once. -/
theorem count_element (hn : f.handles.Nodup) (hp : p ∈ f.paragraphs) :
    f.everyElement.count p.element = 1 := by
  have hmem : p.element ∈ f.everyElement := mem_everyElement_of_mem_tree hp (by simp)
  have hle : f.everyElement.count p.element ≤ f.handles.count p.handle := by
    clear hn hp hmem
    induction f with
    | nil => simp
    | cons e inside rest ihi ihr =>
      rw [everyElement_cons, List.count_cons, List.count_append, handles_cons, List.count_append,
        List.count_append]
      by_cases he : e = p.element
      · subst he
        have hhandle : p.element.handle?.toList = [p.handle] := rfl
        rw [hhandle, List.count_singleton_self, beq_self_eq_true, if_pos rfl]
        omega
      · have : (e == p.element) = false := by simpa using he
        simp only [this, Bool.false_eq_true, if_false]
        omega
  have := List.nodup_iff_count_le_one.1 hn p.handle
  have := List.count_pos_iff.2 hmem
  omega

end Redline.Forest
