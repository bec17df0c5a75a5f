import Redline.Document.Host
import Redline.Proofs.Forest.Cells

/-!
# Content controls of a forest

The content controls that stand directly in a body keep their places when its paragraphs are
rewritten, and what they hold is rewritten with them.

## Main definitions

* `Forest.controls` — the content controls that stand directly in a forest, with what they hold.
-/

namespace Redline.Forest

/-- The content controls that stand directly in a forest, each with what it holds. -/
def controls : Forest → List (Marker × Forest)
  | .nil => []
  | .cons (.control h properties) inside rest =>
    (⟨(properties.bind (·.tag)).getD "", properties.bind (·.appearance), h⟩, inside) ::
      rest.controls
  | .cons _ _ rest => rest.controls

variable {f inside : Forest} {r : Paragraph → Forest} {m : Marker} {p : Paragraph}

theorem map_fst_controls (f : Forest) : f.controls.map Prod.fst = f.markers := by
  induction f with
  | nil => rfl
  | cons e inside rest _ ih => cases e <;> simp [controls, markers, ih]

theorem exists_control (hm : m ∈ f.markers) : ∃ inside, (m, inside) ∈ f.controls := by
  rw [← map_fst_controls] at hm
  obtain ⟨⟨m, inside⟩, hc, rfl⟩ := List.mem_map.1 hm
  exact ⟨inside, hc⟩

@[simp] theorem controls_append (f g : Forest) : (f ++ g).controls = f.controls ++ g.controls := by
  induction f with
  | nil => rfl
  | cons e inside rest _ ih => cases e <;> simp [controls, ih]

@[simp] theorem controls_tree (p : Paragraph) : p.tree.controls = [] := rfl

theorem AllMarks.controls_eq (hf : f.AllMarks) : f.controls = [] := by
  induction hf with
  | nil => rfl
  | start name id _ ih => exact ih
  | stop id _ ih => exact ih

theorem controls_join_tree (news : List Paragraph) :
    (join (news.map Paragraph.tree)).controls = [] := by
  induction news with
  | nil => rfl
  | cons q rest ih => simpa [join] using ih

theorem controls_rewrite (hr : ∀ p ∈ f.paragraphs, (r p).controls = []) :
    (f.rewrite r).controls = f.controls.map fun (m, inside) => (m, inside.rewrite r) := by
  induction f using paragraphInduction with
  | nil => rfl
  | paragraph p rest _ ih =>
    have ih := ih fun q hq => hr q (by simp [hq])
    rw [rewrite_cons_paragraph, controls_append, hr p (by simp), ih]
    rfl
  | other e inside rest he _ ih =>
    rw [paragraphs_cons_other _ _ he] at hr
    have ih := ih fun p hp => hr p (List.mem_append_right _ hp)
    rw [rewrite_cons_other _ _ he]
    cases e <;> simp_all [controls]

theorem markers_append (f g : Forest) : (f ++ g).markers = f.markers ++ g.markers := by
  simp only [← map_fst_controls, controls_append, List.map_append]

theorem markers_rewrite (hr : ∀ p ∈ f.paragraphs, (r p).controls = []) :
    (f.rewrite r).markers = f.markers := by
  rw [← map_fst_controls, ← map_fst_controls, controls_rewrite hr, List.map_map]
  rfl

theorem mem_handles_of_mem_controls (h : (m, inside) ∈ f.controls) : m.handle ∈ f.handles := by
  induction f with
  | nil => simp [controls] at h
  | cons e within rest _ ih =>
    have hrest : (m, inside) ∈ rest.controls → m.handle ∈ (cons e within rest).handles := by
      intro h
      simp [ih h]
    cases e with
    | control k properties =>
      rcases List.mem_cons.1 h with h | h
      · obtain ⟨rfl, rfl⟩ := Prod.mk.inj h
        simp [Element.handle?]
      · exact hrest h
    | _ => exact hrest h

/-- A content control is found by its handle. -/
theorem tree?_of_mem_controls (hn : f.handles.Nodup) (h : (m, inside) ∈ f.controls) :
    ∃ e, f.tree? m.handle = some (single e inside) := by
  induction f with
  | nil => simp [controls] at h
  | cons e within rest _ ih =>
    rw [handles_cons, List.nodup_append, List.nodup_append] at hn
    have hrest : (m, inside) ∈ rest.controls →
        ∃ e', (cons e within rest).tree? m.handle = some (single e' inside) := by
      intro h
      have hmem := mem_handles_of_mem_controls h
      have he : ¬ e.has m.handle = true := fun hh =>
        hn.2.2 m.handle (by simp [Element.has_iff.1 hh]) m.handle (List.mem_append_right _ hmem) rfl
      have hi : within.tree? m.handle = none :=
        tree?_eq_none_iff.2 fun hc => hn.2.1.2.2 _ hc _ hmem rfl
      obtain ⟨e', htree⟩ := ih hn.2.1.2.1 h
      exact ⟨e', by simp [tree?, he, hi, htree]⟩
    cases e with
    | control k properties =>
      rcases List.mem_cons.1 h with h | h
      · obtain ⟨rfl, rfl⟩ := Prod.mk.inj h
        exact ⟨.control k properties, by simp [tree?, Element.has, Element.handle?]⟩
      · exact hrest h
    | _ => exact hrest h

theorem sublist_of_mem_controls (h : (m, inside) ∈ f.controls) :
    inside.paragraphs.Sublist f.paragraphs := by
  induction f using paragraphInduction with
  | nil => simp [controls] at h
  | paragraph p rest _ ih => exact (ih h).trans (List.sublist_cons_self _ _)
  | other e within rest he _ ih =>
    rw [paragraphs_cons_other _ _ he]
    have hrest : (m, inside) ∈ rest.controls →
        inside.paragraphs.Sublist (within.paragraphs ++ rest.paragraphs) :=
      fun h => (ih h).trans (List.sublist_append_right _ _)
    cases e with
    | control k properties =>
      rcases List.mem_cons.1 h with h | h
      · obtain ⟨rfl, rfl⟩ := Prod.mk.inj h
        exact List.sublist_append_left _ _
      · exact hrest h
    | _ => exact hrest h

/-- A paragraph that stands directly in such a content control stands directly in no cell. -/
theorem disjoint_control_cells (hn : f.paragraphs.Nodup) (h : (m, inside) ∈ f.controls)
    (hp : p ∈ inside.own) {own : List Paragraph} (ho : own ∈ f.cells) : p ∉ own := by
  intro hpo
  induction f using paragraphInduction with
  | nil => simp [controls] at h
  | paragraph q rest _ ih => exact ih (List.nodup_cons.1 hn).2 h ho
  | other e within rest he _ ih =>
    rw [paragraphs_cons_other _ _ he, List.nodup_append] at hn
    rw [cells_cons_other _ _ he, List.mem_append, List.mem_append] at ho
    have hself : own ∈ (if e = .cell then [within.own] else []) → own = within.own := by
      intro ho
      by_cases hc : e = .cell <;> simp_all
    have hrest : (m, inside) ∈ rest.controls → False := by
      intro h
      have hpr := (sublist_of_mem_controls h).subset ((own_sublist_paragraphs _).subset hp)
      rcases ho with ho | ho | ho
      · have hpw := (own_sublist_paragraphs _).subset (hself ho ▸ hpo)
        exact hn.2.2 p hpw p hpr rfl
      · exact hn.2.2 p ((sublist_of_mem_cells ho).subset hpo) p hpr rfl
      · exact ih hn.2.1 h ho
    cases e with
    | control k properties =>
      rcases List.mem_cons.1 h with h | h
      · obtain ⟨rfl, rfl⟩ := Prod.mk.inj h
        rcases ho with ho | ho | ho
        · cases ho
        · exact disjoint_own_cells hn.1 hp ho hpo
        · exact hn.2.2 p ((own_sublist_paragraphs _).subset hp) p
            ((sublist_of_mem_cells ho).subset hpo) rfl
      · exact hrest h
    | _ => exact hrest h

end Redline.Forest
