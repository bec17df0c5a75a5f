import Redline.Document.Host
import Redline.Proofs.Forest.Controls
import Redline.Proofs.Forest.Places
import Redline.Proofs.Forest.Splice

/-!
# What a forest carries

Besides its text a document carries marks and content controls.  A change of its paragraphs carries
them on if each paragraph hands its marks on to whatever takes its place.

## Main definitions

* `Forest.labels` — what the content controls say that stand directly in a forest.
* `Forest.BoxesUnmarked` — a paragraph's content without marks in its text boxes.
* `Forest.Carries` — a forest with the marks and the content controls of another one.
* `Paragraph.HandsOn` — a forest with the marks of a paragraph.
-/

namespace Redline

namespace Forest

/-- The tags and appearances of the content controls that stand directly in a forest. -/
def labels (f : Forest) : List (String × Option String) :=
  f.markers.map fun m => (m.tag, m.appearance)

/-- What is inside the runs that stand directly in a forest: their text boxes. -/
def boxes : Forest → List Forest
  | .nil => []
  | .cons (.run _ _) inside rest => inside :: rest.boxes
  | .cons _ _ rest => rest.boxes

/-- No mark stands in a text box of the runs of a paragraph's content. -/
def BoxesUnmarked (content : Forest) : Prop :=
  ∀ box ∈ content.boxes, box.starts = [] ∧ box.stops = []

instance (content : Forest) : Decidable content.BoxesUnmarked :=
  inferInstanceAs (Decidable (∀ box ∈ content.boxes, _ ∧ _))

/-- The second forest has the marks of the first, in whatever order, and its content controls. -/
structure Carries (f g : Forest) : Prop where
  starts : g.starts.Perm f.starts
  stops : g.stops.Perm f.stops
  labels : g.labels = f.labels

namespace Carries

variable {f g h : Forest}

theorem refl (f : Forest) : f.Carries f := ⟨.refl _, .refl _, rfl⟩

theorem trans (hfg : f.Carries g) (hgh : g.Carries h) : f.Carries h :=
  ⟨hgh.starts.trans hfg.starts, hgh.stops.trans hfg.stops, hgh.labels.trans hfg.labels⟩

end Carries

variable {f g : Forest} {r : Paragraph → Forest}

/-! ## Content controls -/

theorem labels_eq_map_controls (f : Forest) :
    f.labels = f.controls.map fun c => (c.1.tag, c.1.appearance) := by
  rw [labels, ← map_fst_controls, List.map_map]
  rfl

theorem labels_eq_nil_iff : f.labels = [] ↔ f.controls = [] := by
  rw [labels_eq_map_controls, List.map_eq_nil_iff]

@[simp] theorem labels_append (f g : Forest) : (f ++ g).labels = f.labels ++ g.labels := by
  simp [labels_eq_map_controls]

@[simp] theorem labels_tree (p : Paragraph) : p.tree.labels = [] := rfl

theorem labels_rewrite (hr : ∀ p ∈ f.paragraphs, (r p).labels = []) :
    (f.rewrite r).labels = f.labels := by
  rw [labels_eq_map_controls, controls_rewrite fun p hp => labels_eq_nil_iff.1 (hr p hp),
    List.map_map, labels_eq_map_controls]
  rfl

/-! ## Marks -/

theorem collect_rewrite {α : Type} {give : Element → List α}
    (hr : ∀ p ∈ f.paragraphs, (r p).collect give = p.tree.collect give) :
    (f.rewrite r).collect give = f.collect give := by
  induction f using paragraphInduction with
  | nil => rfl
  | paragraph p rest _ ih =>
    have hp := hr p (by simp)
    have ih := ih fun q hq => hr q (by simp [hq])
    simp [hp, ih, Paragraph.tree, single]
  | other e inside rest he ihi ihr =>
    rw [paragraphs_cons_other _ _ he] at hr
    simp only [rewrite_cons_other _ _ he, collect_cons]
    rw [ihi fun p hp => hr p (List.mem_append_left _ hp),
      ihr fun p hp => hr p (List.mem_append_right _ hp)]

/-! ## Text boxes -/

@[simp] theorem boxes_append (f g : Forest) : (f ++ g).boxes = f.boxes ++ g.boxes := by
  induction f with
  | nil => rfl
  | cons e inside rest _ ih => cases e <;> simp [boxes, ih]

theorem BoxesUnmarked.append (hf : f.BoxesUnmarked) (hg : g.BoxesUnmarked) :
    (f ++ g).BoxesUnmarked := by
  intro box hbox
  rw [boxes_append, List.mem_append] at hbox
  exact hbox.elim (hf box) (hg box)

/-- Where no mark is, none is in a text box. -/
theorem boxesUnmarked_of_unmarked (hs : f.starts = []) (ht : f.stops = []) : f.BoxesUnmarked := by
  induction f with
  | nil => simp [BoxesUnmarked, boxes]
  | cons e inside rest _ ih =>
    simp only [starts_cons, stops_cons, List.append_eq_nil_iff] at hs ht
    have hrest := ih hs.2.2 ht.2.2
    cases e with
    | run text format => exact List.forall_mem_cons.2 ⟨⟨hs.2.1, ht.2.1⟩, hrest⟩
    | _ => exact hrest

theorem AllMarks.boxes_eq (hf : f.AllMarks) : f.boxes = [] := by
  induction hf with
  | nil => rfl
  | start name id _ ih => exact ih
  | stop id _ ih => exact ih

@[simp] theorem boxes_formatRuns (change : RunFormat → RunFormat) (f : Forest) :
    (f.formatRuns change).boxes = f.boxes := by
  induction f with
  | nil => rfl
  | cons e inside rest _ ih => cases e <;> simp [formatRuns, boxes, ih]

/-- A run that gives text away or takes it loses its text boxes, so no mark must be in them. -/
theorem spliceFrom_carries (start stop position : Nat) (new : List Char) (hf : f.BoxesUnmarked) :
    (spliceFrom start stop position new f).1.starts = f.starts ∧
      (spliceFrom start stop position new f).1.stops = f.stops ∧
      (spliceFrom start stop position new f).1.BoxesUnmarked := by
  induction f generalizing position new with
  | nil => exact ⟨rfl, rfl, hf⟩
  | cons e inside rest _ ih =>
    by_cases he : ∃ text format, e = .run text format
    · obtain ⟨text, format, rfl⟩ := he
      obtain ⟨⟨hs, ht⟩, hrest⟩ := List.forall_mem_cons.1 hf
      have hbare : Forest.nil.starts = [] ∧ Forest.nil.stops = [] := ⟨rfl, rfl⟩
      simp only [spliceFrom]
      split
      · obtain ⟨hstarts, hstops, hboxes⟩ := ih (position + text.toList.length) new hrest
        exact ⟨by simp [hstarts], by simp [hstops], List.forall_mem_cons.2 ⟨⟨hs, ht⟩, hboxes⟩⟩
      · split
        · obtain ⟨hstarts, hstops, hboxes⟩ := ih (position + text.toList.length) [] hrest
          refine ⟨?_, ?_, List.forall_mem_cons.2 ⟨hbare, hboxes⟩⟩
          · simp [Element.opens, hstarts, hs]
          · simp [Element.closes, hstops, ht]
        · refine ⟨?_, ?_, List.forall_mem_cons.2 ⟨hbare, hrest⟩⟩
          · simp [Element.opens, hs]
          · simp [Element.closes, ht]
    · have he : ∀ text format, e ≠ .run text format := by simpa using he
      have hboxes : ∀ inside rest : Forest, (Forest.cons e inside rest).boxes = rest.boxes := by
        cases e <;> simp_all [boxes]
      rw [BoxesUnmarked, hboxes] at hf
      obtain ⟨hstarts, hstops, hnew⟩ := ih position new hf
      rw [spliceFrom_cons_other _ _ he, BoxesUnmarked, hboxes]
      exact ⟨by simp [hstarts], by simp [hstops], hnew⟩

end Forest

open Forest

/-- What may take the place of a paragraph: its marks stay, and none comes to stand in a text
box. -/
structure Paragraph.HandsOn (p : Paragraph) (g : Forest) : Prop where
  starts : g.starts = p.content.starts
  stops : g.stops = p.content.stops
  labels : g.labels = []
  boxes : ∀ q ∈ g.paragraphs, q.content.BoxesUnmarked

theorem Paragraph.handsOn_tree {p : Paragraph} (hp : p.content.BoxesUnmarked) :
    p.HandsOn p.tree :=
  ⟨by simp [tree, single, element, Element.opens], by simp [tree, single, element, Element.closes],
    rfl, by simpa using hp⟩

namespace Forest

/-- Each paragraph gives way to something with its marks. -/
theorem carries_rewrite {f : Forest} {r : Paragraph → Forest}
    (hr : ∀ p ∈ f.paragraphs, p.HandsOn (r p)) :
    f.Carries (f.rewrite r) ∧ ∀ q ∈ (f.rewrite r).paragraphs, q.content.BoxesUnmarked := by
  refine ⟨⟨.of_eq ?_, .of_eq ?_, labels_rewrite fun p hp => (hr p hp).labels⟩, fun q hq => ?_⟩
  · exact collect_rewrite fun p hp => (hr p hp).starts.trans (by
      simp [starts, Paragraph.tree, single, Paragraph.element, Element.opens])
  · exact collect_rewrite fun p hp => (hr p hp).stops.trans (by
      simp [stops, Paragraph.tree, single, Paragraph.element, Element.closes])
  · rw [paragraphs_rewrite, List.mem_flatMap] at hq
    obtain ⟨p, hp, hq⟩ := hq
    exact (hr p hp).boxes q hq

end Forest

end Redline
