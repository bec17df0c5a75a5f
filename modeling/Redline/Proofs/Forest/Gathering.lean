import Mathlib.Algebra.BigOperators.Group.List.Basic
import Mathlib.Data.List.Infix
import Redline.Proofs.Forest.Places

/-!
# Gathering marks

When a range gives way to new paragraphs, the marks inside its paragraphs are gathered around these,
and all other marks stay where they are.  So a mark that stands between paragraphs keeps its
surroundings, which change as the document does.

## Main definitions

* `Forest.Regrouped` — what may become of a paragraph.
-/

namespace Redline.Forest

variable {f : Forest} {h : Handle} {o : Opening} {c : Closing} {segment tail front : List Handle}

/-! ## Segments -/

/-- The paragraphs behind a start mark are consecutive. -/
theorem infix_of_mem_openings (ho : o ∈ f.openings tail) (hp : o.place = .between segment) :
    segment <:+: f.listed ++ tail := by
  induction f using paragraphInduction generalizing tail with
  | nil => simp at ho
  | paragraph p rest _ ih =>
    rw [openings_cons_paragraph, List.mem_append] at ho
    rcases ho with ho | ho
    · obtain ⟨s, _, rfl⟩ := List.mem_map.1 ho
      cases hp
    · exact (ih ho).trans (List.suffix_cons p.handle _).isInfix
  | other e inside rest he ihi ihr =>
    rw [openings_cons_other _ _ _ he, List.mem_append, List.mem_append] at ho
    rw [listed_cons_other _ _ he, List.append_assoc]
    rcases ho with ho | ho | ho
    · obtain ⟨s, _, rfl⟩ := List.mem_map.1 ho
      obtain rfl := Place.between.inj hp
      exact (List.suffix_append _ _).isInfix
    · have := ihi ho
      rw [List.append_nil] at this
      exact this.trans (List.prefix_append _ _).isInfix
    · exact (ihr ho).trans (List.suffix_append _ _).isInfix

/-- The paragraphs in front of an end mark are consecutive. -/
theorem infix_of_mem_closings (hc : c ∈ f.closings front) (hp : c.place = .between segment) :
    segment <:+: front ++ f.listed := by
  induction f using paragraphInduction generalizing front with
  | nil => simp at hc
  | paragraph p rest _ ih =>
    rw [closings_cons_paragraph, List.mem_append] at hc
    rcases hc with hc | hc
    · obtain ⟨s, _, rfl⟩ := List.mem_map.1 hc
      cases hp
    · simpa using ih hc
  | other e inside rest he ihi ihr =>
    rw [closings_cons_other _ _ _ he, List.mem_append, List.mem_append] at hc
    rw [listed_cons_other _ _ he, ← List.append_assoc]
    rcases hc with hc | hc | hc
    · obtain ⟨s, _, rfl⟩ := List.mem_map.1 hc
      obtain rfl := Place.between.inj hp
      rw [List.append_assoc]
      exact (List.prefix_append _ _).isInfix
    · have := ihi hc
      rw [List.nil_append] at this
      rw [List.append_assoc]
      exact this.trans ((List.prefix_append _ _).isInfix.trans (List.suffix_append _ _).isInfix)
    · exact ihr hc

/-! ## Marks inside paragraphs -/

theorem mem_listed_of_mem_openings (ho : o ∈ f.openings tail) (hp : o.place = .inside h) :
    h ∈ f.listed := by
  induction f using paragraphInduction generalizing tail with
  | nil => simp at ho
  | paragraph p rest _ ih =>
    rw [openings_cons_paragraph, List.mem_append] at ho
    rcases ho with ho | ho
    · obtain ⟨s, _, rfl⟩ := List.mem_map.1 ho
      obtain rfl := Place.inside.inj hp
      exact List.mem_cons_self
    · exact List.mem_cons_of_mem _ (ih ho)
  | other e inside rest he ihi ihr =>
    rw [openings_cons_other _ _ _ he, List.mem_append, List.mem_append] at ho
    rw [listed_cons_other _ _ he, List.mem_append]
    rcases ho with ho | ho | ho
    · obtain ⟨s, _, rfl⟩ := List.mem_map.1 ho
      cases hp
    · exact .inl (ihi ho)
    · exact .inr (ihr ho)

theorem mem_listed_of_mem_closings (hc : c ∈ f.closings front) (hp : c.place = .inside h) :
    h ∈ f.listed := by
  induction f using paragraphInduction generalizing front with
  | nil => simp at hc
  | paragraph p rest _ ih =>
    rw [closings_cons_paragraph, List.mem_append] at hc
    rcases hc with hc | hc
    · obtain ⟨s, _, rfl⟩ := List.mem_map.1 hc
      obtain rfl := Place.inside.inj hp
      exact List.mem_cons_self
    · exact List.mem_cons_of_mem _ (ih hc)
  | other e inside rest he ihi ihr =>
    rw [closings_cons_other _ _ _ he, List.mem_append, List.mem_append] at hc
    rw [listed_cons_other _ _ he, List.mem_append]
    rcases hc with hc | hc | hc
    · obtain ⟨s, _, rfl⟩ := List.mem_map.1 hc
      cases hp
    · exact .inl (ihi hc)
    · exact .inr (ihr hc)

theorem mem_openings {p : Paragraph} (hp : p ∈ f.paragraphs) {s : String × String}
    (hs : s ∈ p.content.starts) : ⟨s.1, s.2, .inside p.handle⟩ ∈ f.openings tail := by
  induction f using paragraphInduction generalizing tail with
  | nil => simp at hp
  | paragraph q rest _ ih =>
    rw [openings_cons_paragraph, List.mem_append]
    rcases List.mem_cons.1 hp with rfl | hp
    · exact .inl (List.mem_map_of_mem hs)
    · exact .inr (ih hp)
  | other e inside rest he ihi ihr =>
    rw [paragraphs_cons_other _ _ he, List.mem_append] at hp
    rw [openings_cons_other _ _ _ he, List.mem_append, List.mem_append]
    exact .inr (hp.imp ihi ihr)

theorem mem_closings {p : Paragraph} (hp : p ∈ f.paragraphs) {id : String}
    (hs : id ∈ p.content.stops) : ⟨id, .inside p.handle⟩ ∈ f.closings front := by
  induction f using paragraphInduction generalizing front with
  | nil => simp at hp
  | paragraph q rest _ ih =>
    rw [closings_cons_paragraph, List.mem_append]
    rcases List.mem_cons.1 hp with rfl | hp
    · exact .inl (List.mem_map_of_mem hs)
    · exact .inr (ih hp)
  | other e inside rest he ihi ihr =>
    rw [paragraphs_cons_other _ _ he, List.mem_append] at hp
    rw [closings_cons_other _ _ _ he, List.mem_append, List.mem_append]
    exact .inr (hp.imp ihi ihr)

theorem openings_of_starts (hs : f.starts = []) : f.openings tail = [] := by
  rw [← List.map_eq_nil_iff, map_openings, hs]

theorem closings_of_stops (hs : f.stops = []) : f.closings front = [] := by
  rw [← List.map_eq_nil_iff, map_closings, hs]

namespace AllMarks

variable (hf : f.AllMarks)
include hf

theorem listed_eq : f.listed = [] := by simp [listed, hf.paragraphs_eq]

theorem openings_eq (tail : List Handle) :
    f.openings tail = f.starts.map fun s => ⟨s.1, s.2, .between tail⟩ := by
  induction hf with
  | nil => rfl
  | start name id hrest ih => simp [openings, Element.opens, ih, hrest.listed_eq]
  | stop id _ ih => simp [openings, Element.opens, ih]

theorem closings_eq (front : List Handle) :
    f.closings front = f.stops.map fun id => ⟨id, .between front⟩ := by
  induction hf with
  | nil => rfl
  | start name id _ ih => simp [closings, Element.closes, ih]
  | stop id _ ih => simp [closings, Element.closes, ih]

end AllMarks

/-! ## Regrouping -/

/-- What may become of a paragraph when a range gives way to new paragraphs: outside of the range it
stays, in the range it goes with its marks, and at one place the new paragraphs stand with the marks
around them. -/
inductive Regrouped (range : List Handle) (starts : List (String × String)) (stops : List String)
    (news : List Handle) (p : Paragraph) : Forest → Prop where
  | kept : p.handle ∉ range → Regrouped range starts stops news p p.tree
  | bare {g : Forest} : g.starts = [] → g.stops = [] → Regrouped range starts stops news p g
  | gathered {before between behind : Forest} : before.AllMarks → behind.AllMarks →
    before.starts = starts → before.stops = [] → behind.starts = [] → behind.stops = stops →
    between.starts = [] → between.stops = [] → between.listed = news →
    Regrouped range starts stops news p (before ++ (between ++ behind))

section
variable {range news : List Handle} {starts : List (String × String)} {stops : List String}
  {r : Paragraph → Forest} {image : Handle → List Handle}

theorem listed_rewrite_eq (hi : ∀ p ∈ f.paragraphs, (r p).listed = image p.handle) :
    (f.rewrite r).listed = f.listed.flatMap image := by
  rw [listed_rewrite, listed, List.flatMap_map]
  exact List.flatMap_congr hi

/-- A start mark has stood where it stands, has the same surroundings, or has been gathered. -/
theorem mem_openings_rewrite (hi : ∀ p ∈ f.paragraphs, (r p).listed = image p.handle)
    (hr : ∀ p ∈ f.paragraphs, Regrouped range starts stops news p (r p))
    (ho : o ∈ (f.rewrite r).openings []) :
    (∃ h, h ∉ range ∧ o.place = .inside h ∧ o ∈ f.openings []) ∨
      (∃ segment, o.place = .between (segment.flatMap image) ∧
        ⟨o.name, o.id, .between segment⟩ ∈ f.openings []) ∨
      ((o.name, o.id) ∈ starts ∧ ∃ behind, o.place = .between (news ++ behind)) := by
  induction f using paragraphInduction with
  | nil => simp at ho
  | paragraph p rest _ ih =>
    have ih := ih (fun q hq => hi q (by simp [hq])) (fun q hq => hr q (by simp [hq]))
    rw [openings_cons_paragraph]
    simp only [List.mem_append]
    rw [rewrite_cons_paragraph, openings_append, List.mem_append] at ho
    rcases ho with ho | ho
    · generalize hg : r p = g at ho
      have hrp := hr p (by simp)
      rw [hg] at hrp
      cases hrp with
      | kept hp =>
        have ho : o ∈ p.content.starts.map fun s => ⟨s.1, s.2, .inside p.handle⟩ := by
          simpa [Paragraph.tree, single] using ho
        obtain ⟨s, _, rfl⟩ := List.mem_map.1 ho
        exact .inl ⟨p.handle, hp, rfl, .inl ho⟩
      | bare hs _ => simp [openings_of_starts hs] at ho
      | gathered hb hh hbs _ hhs _ hms _ hml =>
        rw [openings_append, openings_append, openings_of_starts hms, openings_of_starts hhs,
          hb.openings_eq, hbs, List.append_nil, List.append_nil, List.append_nil] at ho
        obtain ⟨s, hs, rfl⟩ := List.mem_map.1 ho
        exact .inr (.inr ⟨hs, _, by rw [listed_append, hml, List.append_assoc]⟩)
    · rcases ih ho with ⟨h, hh, hp, ho⟩ | ⟨segment, hp, ho⟩ | hgathered
      · exact .inl ⟨h, hh, hp, .inr ho⟩
      · exact .inr (.inl ⟨segment, hp, .inr ho⟩)
      · exact .inr (.inr hgathered)
  | other e inside rest he ihi ihr =>
    rw [paragraphs_cons_other _ _ he] at hi hr
    have ihi := ihi (fun p hp => hi p (List.mem_append_left _ hp))
      fun p hp => hr p (List.mem_append_left _ hp)
    have ihr := ihr (fun p hp => hi p (List.mem_append_right _ hp))
      fun p hp => hr p (List.mem_append_right _ hp)
    have hlisted := listed_rewrite_eq fun p hp => hi p (List.mem_append_right _ hp)
    rw [openings_cons_other _ _ _ he]
    simp only [List.mem_append]
    rw [rewrite_cons_other _ _ he, openings_cons_other _ _ _ he, List.mem_append, List.mem_append,
      hlisted, List.append_nil] at ho
    rcases ho with ho | ho | ho
    · obtain ⟨s, hs, rfl⟩ := List.mem_map.1 ho
      refine .inr (.inl ⟨rest.listed, rfl, .inl (List.mem_map.2 ⟨s, hs, by simp⟩)⟩)
    · rcases ihi ho with ⟨h, hh, hp, ho⟩ | ⟨segment, hp, ho⟩ | hgathered
      · exact .inl ⟨h, hh, hp, .inr (.inl ho)⟩
      · exact .inr (.inl ⟨segment, hp, .inr (.inl ho)⟩)
      · exact .inr (.inr hgathered)
    · rcases ihr ho with ⟨h, hh, hp, ho⟩ | ⟨segment, hp, ho⟩ | hgathered
      · exact .inl ⟨h, hh, hp, .inr (.inr ho)⟩
      · exact .inr (.inl ⟨segment, hp, .inr (.inr ho)⟩)
      · exact .inr (.inr hgathered)

/-- An end mark has stood where it stands, has the same surroundings, or has been gathered. -/
theorem mem_closings_rewrite (hi : ∀ p ∈ f.paragraphs, (r p).listed = image p.handle)
    (hr : ∀ p ∈ f.paragraphs, Regrouped range starts stops news p (r p))
    (hc : c ∈ (f.rewrite r).closings (front.flatMap image)) :
    (∃ h, h ∉ range ∧ c.place = .inside h ∧ c ∈ f.closings front) ∨
      (∃ segment, c.place = .between (segment.flatMap image) ∧
        ⟨c.id, .between segment⟩ ∈ f.closings front) ∨
      (c.id ∈ stops ∧ ∃ before, c.place = .between (before ++ news)) := by
  induction f using paragraphInduction generalizing front with
  | nil => simp at hc
  | paragraph p rest _ ih =>
    have ih := @ih (front ++ [p.handle]) (fun q hq => hi q (by simp [hq]))
      (fun q hq => hr q (by simp [hq]))
    rw [List.flatMap_append, List.flatMap_singleton, ← hi p (by simp)] at ih
    rw [closings_cons_paragraph]
    simp only [List.mem_append]
    rw [rewrite_cons_paragraph, closings_append, List.mem_append] at hc
    rcases hc with hc | hc
    · generalize hg : r p = g at hc
      have hrp := hr p (by simp)
      rw [hg] at hrp
      cases hrp with
      | kept hp =>
        have hc : c ∈ p.content.stops.map fun id => ⟨id, .inside p.handle⟩ := by
          simpa [Paragraph.tree, single] using hc
        obtain ⟨s, _, rfl⟩ := List.mem_map.1 hc
        exact .inl ⟨p.handle, hp, rfl, .inl hc⟩
      | bare _ hs => simp [closings_of_stops hs] at hc
      | gathered hb hh _ hbs _ hhs _ hms hml =>
        rw [closings_append, closings_append, closings_of_stops hms, closings_of_stops hbs,
          hh.closings_eq, hhs] at hc
        obtain ⟨s, hs, rfl⟩ := List.mem_map.1 hc
        exact .inr (.inr ⟨hs, _, by rw [hml]⟩)
    · rcases ih hc with ⟨h, hh, hp, hc⟩ | ⟨segment, hp, hc⟩ | hgathered
      · exact .inl ⟨h, hh, hp, .inr hc⟩
      · exact .inr (.inl ⟨segment, hp, .inr hc⟩)
      · exact .inr (.inr hgathered)
  | other e inside rest he ihi ihr =>
    rw [paragraphs_cons_other _ _ he] at hi hr
    have hlisted := listed_rewrite_eq fun p hp => hi p (List.mem_append_left _ hp)
    have ihi := @ihi [] (fun p hp => hi p (List.mem_append_left _ hp))
      fun p hp => hr p (List.mem_append_left _ hp)
    have ihr := @ihr (front ++ inside.listed)
      (fun p hp => hi p (List.mem_append_right _ hp))
      fun p hp => hr p (List.mem_append_right _ hp)
    rw [List.flatMap_append, ← hlisted] at ihr
    rw [closings_cons_other _ _ _ he]
    simp only [List.mem_append]
    rw [rewrite_cons_other _ _ he, closings_cons_other _ _ _ he, List.mem_append,
      List.mem_append] at hc
    rcases hc with hc | hc | hc
    · obtain ⟨s, hs, rfl⟩ := List.mem_map.1 hc
      exact .inr (.inl ⟨front, rfl, .inl (List.mem_map.2 ⟨s, hs, rfl⟩)⟩)
    · rcases ihi hc with ⟨h, hh, hp, hc⟩ | ⟨segment, hp, hc⟩ | hgathered
      · exact .inl ⟨h, hh, hp, .inr (.inl hc)⟩
      · exact .inr (.inl ⟨segment, hp, .inr (.inl hc)⟩)
      · exact .inr (.inr hgathered)
    · rcases ihr hc with ⟨h, hh, hp, hc⟩ | ⟨segment, hp, hc⟩ | hgathered
      · exact .inl ⟨h, hh, hp, .inr (.inr hc)⟩
      · exact .inr (.inl ⟨segment, hp, .inr (.inr hc)⟩)
      · exact .inr (.inr hgathered)

end

/-! ## No mark is lost -/

/-- What a rewritten forest gives, besides what its paragraphs give. -/
theorem count_collect_rewrite {α : Type} [DecidableEq α] {give : Element → List α}
    (hg : ∀ p : Paragraph, give p.element = []) (r : Paragraph → Forest) (x : α) (f : Forest) :
    ((f.rewrite r).collect give).count x +
        (f.paragraphs.map fun p => (p.content.collect give).count x).sum =
      (f.collect give).count x +
        (f.paragraphs.map fun p => ((r p).collect give).count x).sum := by
  induction f using paragraphInduction with
  | nil => rfl
  | paragraph p rest _ ih =>
    simp only [rewrite_cons_paragraph, paragraphs_cons_paragraph, collect_append, collect_cons, hg,
      List.nil_append, List.count_append, List.map_cons, List.sum_cons]
    omega
  | other e inside rest he ihi ihr =>
    simp only [rewrite_cons_other _ _ he, paragraphs_cons_other _ _ he, collect_cons,
      List.count_append, List.map_append, List.sum_append]
    omega

end Redline.Forest
