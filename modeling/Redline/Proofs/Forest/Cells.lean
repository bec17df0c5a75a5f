import Redline.Proofs.Forest.Marks

/-!
# Cells of a forest

A cell has to hold a paragraph, so a paragraph that is the only one of its cell is emptied where any
other would be taken out.

## Main definitions

* `Forest.own` — the paragraphs that stand directly in a forest.
* `Forest.cells` — the paragraphs that stand directly in each cell.
* `Forest.Flat` — a forest of paragraphs and marks.
-/

namespace Redline.Forest

/-- The paragraphs that stand directly in a forest. -/
def own : Forest → List Paragraph
  | .nil => []
  | .cons (.paragraph h style alignment) inside rest => ⟨h, style, alignment, inside⟩ :: rest.own
  | .cons _ _ rest => rest.own

/-- The paragraphs that stand directly in each cell outside of text boxes. -/
def cells : Forest → List (List Paragraph)
  | .nil => []
  | .cons (.paragraph _ _ _) _ rest => rest.cells
  | .cons .cell inside rest => inside.own :: (inside.cells ++ rest.cells)
  | .cons _ inside rest => inside.cells ++ rest.cells

variable {f : Forest} {h : Handle} {r : Paragraph → Forest}

@[simp] theorem own_nil : Forest.nil.own = [] := rfl

@[simp] theorem own_cons_paragraph (p : Paragraph) (rest : Forest) :
    (Forest.cons p.element p.content rest).own = p :: rest.own := rfl

theorem own_cons_other {e : Element} (inside rest : Forest) (he : e.isParagraph = false) :
    (Forest.cons e inside rest).own = rest.own := by
  cases e <;> simp_all [own, Element.isParagraph]

@[simp] theorem cells_nil : Forest.nil.cells = [] := rfl

@[simp] theorem cells_cons_paragraph (p : Paragraph) (rest : Forest) :
    (Forest.cons p.element p.content rest).cells = rest.cells := rfl

theorem cells_cons_other {e : Element} (inside rest : Forest) (he : e.isParagraph = false) :
    (Forest.cons e inside rest).cells =
      (if e = .cell then [inside.own] else []) ++ (inside.cells ++ rest.cells) := by
  cases e <;> simp_all [cells, Element.isParagraph]

@[simp] theorem own_append (f g : Forest) : (f ++ g).own = f.own ++ g.own := by
  induction f using paragraphInduction with
  | nil => rfl
  | paragraph p rest _ ih => simp [ih]
  | other e inside rest he _ ih => simp [own_cons_other _ _ he, ih]

@[simp] theorem cells_append (f g : Forest) : (f ++ g).cells = f.cells ++ g.cells := by
  induction f using paragraphInduction with
  | nil => rfl
  | paragraph p rest _ ih => simp [ih]
  | other e inside rest he _ ih => simp [cells_cons_other _ _ he, ih]

@[simp] theorem own_tree (p : Paragraph) : p.tree.own = [p] := rfl

@[simp] theorem cells_tree (p : Paragraph) : p.tree.cells = [] := rfl

theorem ownParagraphs_eq (f : Forest) : f.ownParagraphs = f.own.map (·.handle) := by
  induction f using paragraphInduction with
  | nil => rfl
  | paragraph p rest _ ih => exact congrArg (p.handle :: ·) ih
  | other e inside rest he _ ih =>
    rw [own_cons_other _ _ he, ← ih]
    cases e <;> simp_all [ownParagraphs, Element.isParagraph]

theorem own_sublist_paragraphs (f : Forest) : f.own.Sublist f.paragraphs := by
  induction f using paragraphInduction with
  | nil => exact .slnil
  | paragraph p rest _ ih => simpa using ih
  | other e inside rest he _ ih =>
    rw [own_cons_other _ _ he, paragraphs_cons_other _ _ he]
    exact ih.trans (List.sublist_append_right _ _)

theorem sublist_of_mem_cells {own : List Paragraph} (ho : own ∈ f.cells) :
    own.Sublist f.paragraphs := by
  induction f using paragraphInduction with
  | nil => simp at ho
  | paragraph p rest _ ih => exact (ih ho).trans (List.sublist_cons_self _ _)
  | other e inside rest he ihi ihr =>
    rw [cells_cons_other _ _ he, List.mem_append, List.mem_append] at ho
    rw [paragraphs_cons_other _ _ he]
    rcases ho with ho | ho | ho
    · have : own = inside.own := by
        by_cases hc : e = .cell <;> simp_all
      exact this ▸ (own_sublist_paragraphs _).trans (List.sublist_append_left _ _)
    · exact (ihi ho).trans (List.sublist_append_left _ _)
    · exact (ihr ho).trans (List.sublist_append_right _ _)

/-! ## Cells of rewritten forests -/

/-- A forest of paragraphs and marks. -/
structure Flat (f : Forest) : Prop where
  cells : f.cells = []
  own : f.own = f.paragraphs

theorem flat_nil : Flat .nil := ⟨rfl, rfl⟩

theorem flat_tree (p : Paragraph) : p.tree.Flat := ⟨rfl, rfl⟩

theorem Flat.append {g : Forest} (hf : f.Flat) (hg : g.Flat) : (f ++ g).Flat :=
  ⟨by simp [hf.cells, hg.cells], by simp [hf.own, hg.own]⟩

theorem AllMarks.flat (hf : f.AllMarks) : f.Flat := by
  induction hf with
  | nil => exact flat_nil
  | start name id _ ih => exact ⟨ih.cells, ih.own⟩
  | stop id _ ih => exact ⟨ih.cells, ih.own⟩

theorem Flat.join {forests : List Forest} (h : ∀ f ∈ forests, f.Flat) :
    (Forest.join forests).Flat := by
  induction forests with
  | nil => exact flat_nil
  | cons f rest ih =>
    exact (h f List.mem_cons_self).append (ih fun g hg => h g (List.mem_cons_of_mem _ hg))

theorem flat_join_tree (news : List Paragraph) : (Forest.join (news.map Paragraph.tree)).Flat :=
  .join fun f hf => by
    obtain ⟨q, _, rfl⟩ := List.mem_map.1 hf
    exact flat_tree q

theorem own_rewrite (hr : ∀ p, (r p).Flat) (f : Forest) :
    (f.rewrite r).own = f.own.flatMap fun p => (r p).paragraphs := by
  induction f using paragraphInduction with
  | nil => rfl
  | paragraph p rest _ ih => simp [ih, (hr p).own]
  | other e inside rest he _ ih =>
    rw [rewrite_cons_other _ _ he, own_cons_other _ _ he, own_cons_other _ _ he, ih]

/-- Paragraphs that give way to paragraphs and marks do so in their cells. -/
theorem cells_rewrite (hr : ∀ p, (r p).Flat) (f : Forest) :
    (f.rewrite r).cells = f.cells.map fun own => own.flatMap fun p => (r p).paragraphs := by
  induction f using paragraphInduction with
  | nil => rfl
  | paragraph p rest _ ih => simp [ih, (hr p).cells]
  | other e inside rest he ihi ihr =>
    rw [rewrite_cons_other _ _ he, cells_cons_other _ _ he, cells_cons_other _ _ he, ihi, ihr]
    by_cases hc : e = .cell <;> simp [hc, own_rewrite hr]

/-! ## The only paragraph of a cell -/

theorem disjoint_own_cells (hn : f.paragraphs.Nodup) {p : Paragraph} (hp : p ∈ f.own)
    {own : List Paragraph} (ho : own ∈ f.cells) : p ∉ own := by
  intro hpo
  induction f using paragraphInduction with
  | nil => simp at hp
  | paragraph q rest _ ih =>
    rw [paragraphs_cons_paragraph, List.nodup_cons] at hn
    rcases List.mem_cons.1 hp with rfl | hp
    · exact hn.1 ((sublist_of_mem_cells (f := rest) ho).subset hpo)
    · exact ih hn.2 hp ho
  | other e inside rest he _ ih =>
    rw [paragraphs_cons_other _ _ he, List.nodup_append] at hn
    rw [own_cons_other _ _ he] at hp
    rw [cells_cons_other _ _ he, List.mem_append, List.mem_append] at ho
    have hpr : p ∈ rest.paragraphs := (own_sublist_paragraphs _).subset hp
    rcases ho with ho | ho | ho
    · have : own = inside.own := by by_cases hc : e = .cell <;> simp_all
      exact hn.2.2 p ((own_sublist_paragraphs _).subset (this ▸ hpo)) p hpr rfl
    · exact hn.2.2 p ((sublist_of_mem_cells ho).subset hpo) p hpr rfl
    · exact ih hn.2.1 hp ho

/-- A paragraph stands directly in one cell at most. -/
theorem eq_of_mem_cells (hn : f.paragraphs.Nodup) {own own' : List Paragraph} (ho : own ∈ f.cells)
    (ho' : own' ∈ f.cells) {p : Paragraph} (hp : p ∈ own) (hp' : p ∈ own') : own = own' := by
  induction f using paragraphInduction with
  | nil => simp at ho
  | paragraph q rest _ ih => exact ih (List.nodup_cons.1 hn).2 ho ho'
  | other e inside rest he ihi ihr =>
    rw [paragraphs_cons_other _ _ he, List.nodup_append] at hn
    rw [cells_cons_other _ _ he, List.mem_append, List.mem_append] at ho ho'
    have hdis : ∀ {own own'}, own ∈ inside.cells ∨ own = inside.own → own' ∈ rest.cells →
        p ∈ own → p ∉ own' := by
      intro own own' ho ho' hp hp'
      have : p ∈ inside.paragraphs := by
        rcases ho with ho | rfl
        · exact (sublist_of_mem_cells ho).subset hp
        · exact (own_sublist_paragraphs _).subset hp
      exact hn.2.2 p this p ((sublist_of_mem_cells ho').subset hp') rfl
    have hself : ∀ {own}, own ∈ (if e = .cell then [inside.own] else []) → own = inside.own := by
      intro own ho
      by_cases hc : e = .cell <;> simp_all
    rcases ho with ho | ho | ho <;> rcases ho' with ho' | ho' | ho'
    · rw [hself ho, hself ho']
    · exact absurd hp' (disjoint_own_cells hn.1 (hself ho ▸ hp) ho')
    · exact absurd hp' (hdis (.inr (hself ho)) ho' hp)
    · exact absurd hp (disjoint_own_cells hn.1 (hself ho' ▸ hp') ho)
    · exact ihi hn.1 ho ho'
    · exact absurd hp' (hdis (.inl ho) ho' hp)
    · exact absurd hp (hdis (.inr (hself ho')) ho hp')
    · exact absurd hp (hdis (.inl ho') ho hp')
    · exact ihr hn.2.1 ho ho'

theorem notMem_content (hn : f.handles.Nodup) (hl : h ∈ f.listed) {p : Paragraph}
    (hp : p ∈ f.paragraphs) : h ∉ p.content.handles := by
  have hn := hn.sublist (flatMap_handles_sublist f)
  obtain ⟨q, hq, rfl⟩ := List.mem_map.1 hl
  intro hc
  obtain rfl : q = p :=
    eq_of_mem_flatMap hn hq hp List.mem_cons_self (List.mem_cons_of_mem _ hc)
  exact (List.nodup_cons.1 ((List.nodup_flatMap.1 hn).1 q hq)).1 hc

theorem aloneInCell_iff (hn : f.handles.Nodup) (hl : h ∈ f.listed) :
    f.aloneInCell h = true ↔ ∃ own ∈ f.cells, own.map (·.handle) = [h] := by
  have hno : ∀ p ∈ f.paragraphs, h ∉ p.content.handles := fun p hp => notMem_content hn hl hp
  clear hn hl
  induction f using paragraphInduction with
  | nil => simp [aloneInCell]
  | paragraph p rest _ ih =>
    have hc : p.content.aloneInCell h = false := by
      rw [Bool.eq_false_iff]
      exact fun ha => hno p (by simp) (mem_handles_of_aloneInCell ha)
    have ih := ih fun q hq => hno q (by simp [hq])
    rw [cells_cons_paragraph]
    simpa [aloneInCell, hc, Paragraph.element] using ih
  | other e inside rest he ihi ihr =>
    rw [paragraphs_cons_other _ _ he] at hno
    have ihi := ihi fun p hp => hno p (List.mem_append_left _ hp)
    have ihr := ihr fun p hp => hno p (List.mem_append_right _ hp)
    simp only [aloneInCell, cells_cons_other _ _ he, ownParagraphs_eq, Bool.or_eq_true, ihi, ihr,
      List.mem_append, Bool.and_eq_true, beq_iff_eq]
    by_cases hc : e = .cell <;> simp [hc, or_and_right, exists_or, or_assoc]

end Redline.Forest
