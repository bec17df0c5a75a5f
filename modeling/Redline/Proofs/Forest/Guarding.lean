import Mathlib.Data.List.Forall2
import Redline.Proofs.Forest.Cells
import Redline.Proofs.Forest.Roles
import Redline.Proofs.Forest.Splice

/-!
# Cells that keep a paragraph

A paragraph is emptied rather than taken out where no other one stands directly in its cell.  So a
cell that has a paragraph of its own, or a cell in it that has one, is never left without
paragraphs.  Paragraphs in content controls are not protected in this way.

## Main definitions

* `Forest.cellInsides`, `Forest.everyCell` — what is inside the cells of a forest.
* `Forest.Guarded` — a cell with a paragraph that the rule for cells protects.
* `Forest.Stays` — a change that takes out no more than it was asked to, and no last paragraph.
* `Forest.KeepsBoxes` — a change that leaves the cells of text boxes as they are or drops them.
-/

namespace Redline

namespace Forest

/-- What is inside each cell outside of text boxes. -/
def cellInsides : Forest → List Forest
  | .nil => []
  | .cons (.paragraph _ _ _) _ rest => rest.cellInsides
  | .cons .cell inside rest => inside :: (inside.cellInsides ++ rest.cellInsides)
  | .cons _ inside rest => inside.cellInsides ++ rest.cellInsides

/-- What is inside each cell, those of text boxes included. -/
def everyCell : Forest → List Forest
  | .nil => []
  | .cons e inside rest =>
    (if e = .cell then [inside] else []) ++ (inside.everyCell ++ rest.everyCell)

/-- A paragraph stands directly in the cell, or directly in a cell inside it. -/
def Guarded (inside : Forest) : Prop := inside.own ≠ [] ∨ ∃ own ∈ inside.cells, own ≠ []

instance (inside : Forest) : Decidable inside.Guarded :=
  inferInstanceAs (Decidable (_ ∨ ∃ own ∈ inside.cells, _))

/-- What becomes of a cell when no paragraphs but the given ones are taken out of it. -/
structure CellKept (gone : List Handle) (before now : Forest) : Prop where
  guarded : before.Guarded → now.Guarded
  listed : ∀ h ∈ before.listed, h ∈ now.listed ∨ h ∈ gone

/-- No paragraphs but the given ones are taken out, and no cell loses its last one that way. -/
structure Stays (gone : List Handle) (f g : Forest) : Prop where
  cells : List.Forall₂ (CellKept gone) f.cellInsides g.cellInsides
  listed : ∀ h ∈ f.listed, h ∈ g.listed ∨ h ∈ gone

end Forest

/-- The paragraphs of the cells in the text boxes of a paragraph, cell by cell. -/
def Paragraph.boxedCells (p : Paragraph) : List (List Handle) :=
  p.content.everyCell.map Forest.listed

namespace Forest

/-- The cells in the text boxes of paragraphs have stood there with the same paragraphs; nothing is
said of those of the given paragraphs. -/
def KeepsBoxes (touched : List Handle) (f g : Forest) : Prop :=
  ∀ q ∈ g.paragraphs, q.handle ∈ touched ∨ q.boxedCells = [] ∨
    ∃ p ∈ f.paragraphs, p.handle = q.handle ∧ q.boxedCells.Sublist p.boxedCells

variable {f g k : Forest} {e : Element} {p q : Paragraph} {h : Handle} {gone touched : List Handle}
  {register : List (Handle × Role)} {role : Role} {into : Element → Forest → Forest}
  {r : Paragraph → Forest}

/-! ## Insides of cells -/

@[simp] theorem cellInsides_nil : Forest.nil.cellInsides = [] := rfl

@[simp] theorem cellInsides_cons_paragraph (p : Paragraph) (inside rest : Forest) :
    (Forest.cons p.element inside rest).cellInsides = rest.cellInsides := rfl

theorem cellInsides_cons_other (inside rest : Forest) (he : e.isParagraph = false) :
    (Forest.cons e inside rest).cellInsides =
      (if e = .cell then [inside] else []) ++ (inside.cellInsides ++ rest.cellInsides) := by
  cases e <;> simp_all [cellInsides, Element.isParagraph]

@[simp] theorem cellInsides_append (f g : Forest) :
    (f ++ g).cellInsides = f.cellInsides ++ g.cellInsides := by
  induction f using paragraphInduction with
  | nil => rfl
  | paragraph p rest _ ih => simp [ih]
  | other e inside rest he _ ih => simp [cellInsides_cons_other _ _ he, ih]

@[simp] theorem cellInsides_tree (p : Paragraph) : p.tree.cellInsides = [] := rfl

theorem cells_eq_map_own (f : Forest) : f.cells = f.cellInsides.map own := by
  induction f using paragraphInduction with
  | nil => rfl
  | paragraph p rest _ ih => simp [ih]
  | other e inside rest he ihi ihr =>
    rw [cells_cons_other _ _ he, cellInsides_cons_other _ _ he, ihi, ihr]
    by_cases hc : e = .cell <;> simp [hc]

theorem AllMarks.cellInsides_eq (hf : f.AllMarks) : f.cellInsides = [] := by
  rw [← List.map_eq_nil_iff, ← cells_eq_map_own]
  exact hf.flat.cells

/-- The cells inside a cell are cells of the forest. -/
theorem cells_subset_of_mem {inside : Forest} (hi : inside ∈ f.cellInsides) :
    inside.cells ⊆ f.cells := by
  intro own ho
  induction f using paragraphInduction with
  | nil => simp at hi
  | paragraph p rest _ ih => exact ih hi
  | other e within rest he ihi ihr =>
    rw [cellInsides_cons_other _ _ he, List.mem_append, List.mem_append] at hi
    rw [cells_cons_other _ _ he, List.mem_append, List.mem_append]
    rcases hi with hi | hi | hi
    · have hself : inside = within := by
        by_cases hc : e = .cell <;> simp_all
      exact .inr (.inl (hself ▸ ho))
    · exact .inr (.inl (ihi hi))
    · exact .inr (.inr (ihr hi))

theorem guarded_iff : f.Guarded ↔ f.own ≠ [] ∨ ∃ inside ∈ f.cellInsides, inside.Guarded := by
  refine or_congr_right ?_
  constructor
  · rintro ⟨own, ho, hne⟩
    rw [cells_eq_map_own] at ho
    obtain ⟨inside, hi, rfl⟩ := List.mem_map.1 ho
    exact ⟨inside, hi, .inl hne⟩
  · rintro ⟨inside, hi, hown | ⟨own, ho, hne⟩⟩
    · exact ⟨inside.own, by rw [cells_eq_map_own]; exact List.mem_map_of_mem hi, hown⟩
    · exact ⟨own, cells_subset_of_mem hi ho, hne⟩

theorem Guarded.paragraphs_ne_nil (hg : f.Guarded) : f.paragraphs ≠ [] := by
  intro hnil
  rcases hg with hown | ⟨own, ho, hne⟩
  · have hsub := own_sublist_paragraphs f
    rw [hnil] at hsub
    exact hown (List.sublist_nil.1 hsub)
  · have hsub := sublist_of_mem_cells ho
    rw [hnil] at hsub
    exact hne (List.sublist_nil.1 hsub)

/-! ## Cells that are kept -/

namespace CellKept

theorem refl (gone : List Handle) (f : Forest) : CellKept gone f f := ⟨id, fun _ hh => .inl hh⟩

theorem trans (hfg : CellKept gone f g) (hgk : CellKept gone g k) : CellKept gone f k where
  guarded hg := hgk.guarded (hfg.guarded hg)
  listed h hh := by
    rcases hfg.listed h hh with hh | hh
    · exact hgk.listed h hh
    · exact .inr hh

theorem forall₂_trans {l l' l'' : List Forest} (h : List.Forall₂ (CellKept gone) l l')
    (h' : List.Forall₂ (CellKept gone) l' l'') : List.Forall₂ (CellKept gone) l l'' := by
  induction h generalizing l'' with
  | nil => exact h'
  | cons hfirst _ ih =>
    cases h' with
    | cons hfirst' hrest => exact .cons (hfirst.trans hfirst') (ih hrest)

/-- A cell that held a paragraph holds one, unless it was unguarded and all its paragraphs were to
go. -/
theorem paragraphs_ne_nil (hk : CellKept gone f g) :
    g.paragraphs ≠ [] ∨ ¬ f.Guarded ∧ ∀ h ∈ f.listed, h ∈ gone := by
  by_cases hg : g.paragraphs = []
  · refine .inr ⟨fun hguard => (hk.guarded hguard).paragraphs_ne_nil hg, fun h hh => ?_⟩
    refine (hk.listed h hh).resolve_left fun hin => ?_
    simp [Forest.listed, hg] at hin
  · exact .inl hg

end CellKept

namespace Stays

theorem refl (gone : List Handle) (f : Forest) : f.Stays gone f :=
  ⟨List.forall₂_same.2 fun inside _ => .refl gone inside, fun _ hh => .inl hh⟩

theorem trans (hfg : f.Stays gone g) (hgk : g.Stays gone k) : f.Stays gone k where
  cells := CellKept.forall₂_trans hfg.cells hgk.cells
  listed h hh := by
    rcases hfg.listed h hh with hh | hh
    · exact hgk.listed h hh
    · exact .inr hh

theorem append {f' g' : Forest} (hf : f.Stays gone g) (hf' : f'.Stays gone g') :
    (f ++ f').Stays gone (g ++ g') where
  cells := by
    rw [cellInsides_append, cellInsides_append]
    exact List.rel_append hf.cells hf'.cells
  listed h hh := by
    rw [listed_append, List.mem_append] at hh ⊢
    rcases hh with hh | hh
    · exact (hf.listed h hh).imp_left .inl
    · exact (hf'.listed h hh).imp_left .inr

theorem exists_guarded {l l' : List Forest} (hl : List.Forall₂ (CellKept gone) l l')
    (hg : ∃ inside ∈ l, inside.Guarded) : ∃ inside ∈ l', inside.Guarded := by
  induction hl with
  | nil => exact hg
  | cons hfirst _ ih =>
    obtain ⟨inside, hi, hguard⟩ := hg
    rcases List.mem_cons.1 hi with rfl | hi
    · exact ⟨_, List.mem_cons_self, hfirst.guarded hguard⟩
    · obtain ⟨inside', hi', hguard'⟩ := ih ⟨inside, hi, hguard⟩
      exact ⟨inside', List.mem_cons_of_mem _ hi', hguard'⟩

theorem cellKept (hs : f.Stays gone g) (ho : f.own ≠ [] → g.own ≠ []) : CellKept gone f g where
  guarded hf := by
    rw [guarded_iff] at hf ⊢
    exact hf.imp ho fun hg => exists_guarded hs.cells hg
  listed := hs.listed

end Stays

/-! ## Cells of text boxes -/

namespace KeepsBoxes

theorem refl (touched : List Handle) (f : Forest) : f.KeepsBoxes touched f :=
  fun q hq => .inr (.inr ⟨q, hq, rfl, .refl _⟩)

theorem trans (hfg : f.KeepsBoxes touched g) (hgk : g.KeepsBoxes touched k) :
    f.KeepsBoxes touched k := by
  intro q hq
  rcases hgk q hq with ht | hnil | ⟨p, hp, hhandle, hsub⟩
  · exact .inl ht
  · exact .inr (.inl hnil)
  · rcases hfg p hp with ht | hnil | ⟨o, ho, hhandle', hsub'⟩
    · exact .inl (hhandle ▸ ht)
    · exact .inr (.inl (List.sublist_nil.1 (hnil ▸ hsub)))
    · exact .inr (.inr ⟨o, ho, hhandle'.trans hhandle, hsub.trans hsub'⟩)

theorem append {f' g' : Forest} (hf : f.KeepsBoxes touched g) (hf' : f'.KeepsBoxes touched g') :
    (f ++ f').KeepsBoxes touched (g ++ g') := by
  intro q hq
  rw [paragraphs_append, List.mem_append] at hq
  rw [paragraphs_append]
  rcases hq with hq | hq
  · refine (hf q hq).imp_right (Or.imp_right ?_)
    exact fun ⟨p, hp, h⟩ => ⟨p, List.mem_append_left _ hp, h⟩
  · refine (hf' q hq).imp_right (Or.imp_right ?_)
    exact fun ⟨p, hp, h⟩ => ⟨p, List.mem_append_right _ hp, h⟩

end KeepsBoxes

/-! ## Changes at a handle -/

/-- A row of paragraphs stays non-empty unless its only paragraph goes. -/
theorem own_replaceAt
    (halone : f.ownParagraphs = [h] → ∀ p : Paragraph, p.handle = h →
      (into p.element p.content).own ≠ []) (hf : f.own ≠ []) :
    (f.replaceAt h into).own ≠ [] := by
  induction f using paragraphInduction with
  | nil => exact hf
  | paragraph p rest _ _ =>
    by_cases he : p.handle = h
    · have hhas : p.element.has h = true := Element.has_iff.2 (congrArg some he)
      rw [replaceAt, if_pos hhas, own_append]
      by_cases hrest : rest.own = []
      · have hone : (cons p.element p.content rest).ownParagraphs = [h] := by
          rw [ownParagraphs_eq, own_cons_paragraph, hrest, List.map_singleton, he]
        exact fun hnil => halone hone p he (List.append_eq_nil_iff.1 hnil).1
      · exact fun hnil => hrest (List.append_eq_nil_iff.1 hnil).2
    · have hhas : ¬ p.element.has h = true := fun hh => he (Option.some.inj (Element.has_iff.1 hh))
      rw [replaceAt, if_neg hhas]
      exact List.cons_ne_nil _ _
  | other e inside rest hother _ ih =>
    rw [own_cons_other _ _ hother] at hf
    have hone : (cons e inside rest).ownParagraphs = rest.ownParagraphs := by
      rw [ownParagraphs_eq, ownParagraphs_eq, own_cons_other _ _ hother]
    rw [hone] at halone
    rw [replaceAt]
    split
    · rw [own_append]
      exact fun hnil => hf (List.append_eq_nil_iff.1 hnil).2
    · rw [own_cons_other _ _ hother]
      exact ih halone hf

section
variable (hc : Consistent register) (hrole : role ≠ .boxed) (hr : (h, role) ∈ register)
  (hf : f.roles ⊆ register)
include hc hrole hr hf

/-- A forest stays if what is changed stays, as long as no cell loses its only paragraph. -/
theorem stays_replaceAt
    (hinto : ∀ e inside, e.has h = true → (single e inside).roles ⊆ register →
      (single e inside).Stays gone (into e inside))
    (hown : f.aloneInCell h = true → ∀ p : Paragraph, p.handle = h →
      (into p.element p.content).own ≠ []) :
    f.Stays gone (f.replaceAt h into) := by
  induction f using paragraphInduction with
  | nil => exact .refl gone .nil
  | paragraph p rest _ ih =>
    obtain ⟨hp, hrest⟩ := roles_cons_subset.1 hf
    by_cases he : p.element.has h = true
    · rw [replaceAt, if_pos he]
      exact (hinto _ _ he hp).append (.refl gone rest)
    · rw [replaceAt, if_neg he, replaceAt_of_notMem (notMem_content_of_role hc hrole hp hr)]
      have halone : rest.aloneInCell h = true →
          (cons p.element p.content rest).aloneInCell h = true := fun ha => by simp [aloneInCell, ha]
      exact (Stays.refl gone p.tree).append (ih hrest fun ha => hown (halone ha))
  | other e inside rest hother ihi ihr =>
    obtain ⟨hp, hrest⟩ := roles_cons_subset.1 hf
    by_cases he : e.has h = true
    · rw [replaceAt, if_pos he]
      exact (hinto _ _ he hp).append (.refl gone rest)
    · rw [replaceAt, if_neg he]
      have hi := ihi (roles_inside_subset hother hp) fun ha => hown (by simp [aloneInCell, ha])
      have hrest := ihr hrest fun ha => hown (by simp [aloneInCell, ha])
      refine ⟨?_, fun x hx => ?_⟩
      · rw [cellInsides_cons_other _ _ hother, cellInsides_cons_other _ _ hother]
        refine List.rel_append ?_ (List.rel_append hi.cells hrest.cells)
        by_cases hcell : e = .cell
        · rw [if_pos hcell, if_pos hcell]
          -- The row of this very cell: it can be emptied only if its single paragraph is changed.
          refine .cons (hi.cellKept (own_replaceAt fun hone => hown ?_)) .nil
          simp [aloneInCell, hcell, hone]
        · rw [if_neg hcell, if_neg hcell]
          exact .nil
      · rw [listed_cons_other _ _ hother, List.mem_append] at hx ⊢
        rcases hx with hx | hx
        · exact (hi.listed x hx).imp_left .inl
        · exact (hrest.listed x hx).imp_left .inr

theorem keepsBoxes_replaceAt
    (hinto : ∀ e inside, e.has h = true → (single e inside).roles ⊆ register →
      (single e inside).KeepsBoxes touched (into e inside)) :
    f.KeepsBoxes touched (f.replaceAt h into) := by
  induction f using paragraphInduction with
  | nil => exact .refl touched .nil
  | paragraph p rest _ ih =>
    obtain ⟨hp, hrest⟩ := roles_cons_subset.1 hf
    by_cases he : p.element.has h = true
    · rw [replaceAt, if_pos he]
      exact (hinto _ _ he hp).append (.refl touched rest)
    · rw [replaceAt, if_neg he, replaceAt_of_notMem (notMem_content_of_role hc hrole hp hr)]
      exact (KeepsBoxes.refl touched p.tree).append (ih hrest)
  | other e inside rest hother ihi ihr =>
    obtain ⟨hp, hrest⟩ := roles_cons_subset.1 hf
    by_cases he : e.has h = true
    · rw [replaceAt, if_pos he]
      exact (hinto _ _ he hp).append (.refl touched rest)
    · rw [replaceAt, if_neg he]
      intro q hq
      rw [paragraphs_cons_other _ _ hother] at hq ⊢
      rw [← paragraphs_append] at hq ⊢
      exact ((ihi (roles_inside_subset hother hp)).append (ihr hrest)) q hq

end

/-! ## Changes of one element -/

/-- A change that puts no handle into another role, takes no paragraph out but the given ones, and
leaves the cells of text boxes alone but for those of the given paragraphs. -/
structure Harmless (register : List (Handle × Role)) (gone touched : List Handle)
    (f g : Forest) : Prop where
  roles : f.roles ⊆ register → g.roles ⊆ register
  stays : f.Stays gone g
  boxes : f.KeepsBoxes touched g

/-- An edit of a paragraph that puts nothing into it. -/
theorem harmless_edit (hh : q.handle = p.handle) (hc : q.content.handles ⊆ p.content.handles)
    (hb : p.handle ∈ touched ∨ q.boxedCells.Sublist p.boxedCells) :
    Harmless register gone touched p.tree q.tree where
  roles hf := by
    refine List.Subset.trans ?_ hf
    simp only [Paragraph.tree, single, roles_cons_paragraph, roles_nil, List.append_nil, hh]
    exact List.cons_subset_cons _ (List.map_subset _ hc)
  stays := ⟨.nil, fun x hx => .inl (by simpa [hh] using hx)⟩
  boxes := by
    intro x hx
    obtain rfl : x = q := by simpa using hx
    rcases hb with ht | hsub
    · exact .inl (hh ▸ ht)
    · exact .inr (.inr ⟨p, by simp, hh.symm, hsub⟩)

/-- Paragraphs without cells, and marks, may be put on both sides. -/
theorem harmless_beside {before after : Forest}
    (hroles : before.roles ⊆ register ∧ after.roles ⊆ register)
    (hcells : before.cellInsides = [] ∧ after.cellInsides = [])
    (hboxes : ∀ q, q ∈ before.paragraphs ∨ q ∈ after.paragraphs → q.boxedCells = []) (f : Forest) :
    Harmless register gone touched f (before ++ (f ++ after)) where
  roles hf := by
    rw [roles_append, roles_append, List.append_subset, List.append_subset]
    exact ⟨hroles.1, hf, hroles.2⟩
  stays := by
    refine ⟨?_, fun x hx => .inl (by simp [hx])⟩
    rw [cellInsides_append, cellInsides_append, hcells.1, hcells.2, List.nil_append, List.append_nil]
    exact (Stays.refl gone f).cells
  boxes := by
    intro q hq
    rw [paragraphs_append, paragraphs_append, List.mem_append, List.mem_append] at hq
    rcases hq with hq | hq | hq
    · exact .inr (.inl (hboxes q (.inl hq)))
    · exact KeepsBoxes.refl touched f q hq
    · exact .inr (.inl (hboxes q (.inr hq)))

/-- A content control may change its properties. -/
theorem harmless_control (h : Handle) (properties properties' : Option ControlProperties)
    (inside : Forest) : Harmless register gone touched (single (.control h properties) inside)
      (single (.control h properties') inside) where
  roles := id
  stays := ⟨(Stays.refl gone (single (.control h properties) inside)).cells, fun _ hx => .inl hx⟩
  boxes := .refl touched (single (.control h properties) inside)

/-! ## Paragraphs that are rewritten -/

theorem cellInsides_rewrite (hr : ∀ p, (r p).cellInsides = []) (f : Forest) :
    (f.rewrite r).cellInsides = f.cellInsides.map (·.rewrite r) := by
  induction f using paragraphInduction with
  | nil => rfl
  | paragraph p rest _ ih => simp [ih, hr]
  | other e inside rest he ihi ihr =>
    rw [rewrite_cons_other _ _ he, cellInsides_cons_other _ _ he, cellInsides_cons_other _ _ he,
      ihi, ihr]
    by_cases hc : e = .cell <;> simp [hc]

/-- Paragraphs outside of cells may move, as long as none gets lost. -/
theorem stays_rewrite (hr : ∀ p, (r p).cellInsides = [])
    (hcells : ∀ inside ∈ f.cellInsides, inside.rewrite r = inside)
    (hlisted : f.listed ⊆ (f.rewrite r).listed) : f.Stays gone (f.rewrite r) where
  cells := by
    rw [cellInsides_rewrite hr, List.map_congr_left hcells, List.map_id']
    exact (Stays.refl gone f).cells
  listed _ hh := .inl (hlisted hh)

/-! ## Cells inside contents -/

@[simp] theorem everyCell_nil : Forest.nil.everyCell = [] := rfl

@[simp] theorem everyCell_cons (e : Element) (inside rest : Forest) :
    (Forest.cons e inside rest).everyCell =
      (if e = .cell then [inside] else []) ++ (inside.everyCell ++ rest.everyCell) := rfl

@[simp] theorem everyCell_append (f g : Forest) :
    (f ++ g).everyCell = f.everyCell ++ g.everyCell := by
  induction f with
  | nil => rfl
  | cons e inside rest _ ih => simp [ih]

theorem AllMarks.everyCell_eq (hf : f.AllMarks) : f.everyCell = [] := by
  induction hf with
  | nil => rfl
  | start name id _ ih => simpa using ih
  | stop id _ ih => simpa using ih

@[simp] theorem everyCell_runOf (text : List Char) : (runOf text).everyCell = [] := by
  simp [runOf, single]

@[simp] theorem everyCell_formatRuns (change : RunFormat → RunFormat) (f : Forest) :
    (f.formatRuns change).everyCell = f.everyCell := by
  induction f with
  | nil => rfl
  | cons e inside rest _ ih => cases e <;> simp [formatRuns, ih]

theorem everyCell_withoutMarks (hf : f.everyCell = []) : f.withoutMarks.everyCell = [] := by
  induction f with
  | nil => rfl
  | cons e inside rest ihi ihr =>
    rw [everyCell_cons, List.append_eq_nil_iff, List.append_eq_nil_iff] at hf
    cases e with
    | bookmarkStart name id => exact ihr hf.2.2
    | bookmarkEnd id => exact ihr hf.2.2
    | cell => simp at hf
    | _ => simp [withoutMarks, ihi hf.2.1, ihr hf.2.2]

/-- A run that is touched loses its text boxes, with the cells in them. -/
theorem everyCell_spliceFrom_sublist (start stop position : Nat) (new : List Char) (f : Forest) :
    (spliceFrom start stop position new f).1.everyCell.Sublist f.everyCell := by
  induction f generalizing position new with
  | nil => exact .slnil
  | cons e inside rest _ ih =>
    by_cases he : ∃ text format, e = .run text format
    · obtain ⟨text, format, rfl⟩ := he
      have hrest := List.sublist_append_right inside.everyCell rest.everyCell
      simp only [spliceFrom]
      split
      · simpa using ih _ _
      · split
        · simpa using (ih _ _).trans hrest
        · simp
    · rw [spliceFrom_cons_other _ _ (by simpa using he)]
      simpa using ih _ _

end Forest

end Redline
