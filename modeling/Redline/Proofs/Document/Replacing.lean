import Redline.Proofs.Document.Clearing

/-!
# What a replacement leaves

A replacement puts new paragraphs in the place of the first one of its range and takes the others
out.  A cell that would be left without paragraphs keeps the last one of its own, emptied.

## Main definitions

* `Document.LastOfCell`, `Document.InGoneCell` — paragraphs of cells that lose all of their own.
* `Document.replaced` — what stands for each paragraph when a range has been replaced.
-/

namespace Redline

/-- In a list without repetitions a part is told by its items. -/
theorem filter_eq_part {α : Type} [DecidableEq α] {whole part : List α} (hn : whole.Nodup)
    (hp : part.Sublist whole) : whole.filter (· ∈ part) = part := by
  induction whole generalizing part with
  | nil => exact (List.sublist_nil.1 hp).symm
  | cons x rest ih =>
    obtain ⟨hx, hrest⟩ := List.nodup_cons.1 hn
    by_cases hxp : x ∈ part
    · obtain ⟨tail, rfl⟩ : ∃ tail, part = x :: tail := by
        cases hp with
        | cons _ h => exact absurd (h.subset hxp) hx
        | cons_cons _ _ => exact ⟨_, rfl⟩
      have htail := List.cons_sublist_cons.1 hp
      have hcongr : rest.filter (· ∈ x :: tail) = rest.filter (· ∈ tail) :=
        List.filter_congr fun y hy => by
          have hne : ¬y = x := fun he => hx (he ▸ hy)
          simp [hne]
      rw [List.filter_cons_of_pos (by simp), hcongr, ih hrest htail]
    · have htail : part.Sublist rest := by
        cases hp with
        | cons _ h => exact h
        | cons_cons _ _ => exact absurd List.mem_cons_self hxp
      rw [List.filter_cons_of_neg (by simpa using hxp), ih hrest htail]

theorem filter_eq_of_parts {α : Type} [DecidableEq α] {s t l : List α} (hn : l.Nodup)
    (hs : s.Sublist l) (ht : t.Sublist l) (hts : t ⊆ s) : s.filter (· ∈ t) = t := by
  calc s.filter (· ∈ t)
      = (l.filter (· ∈ s)).filter (· ∈ t) := by rw [filter_eq_part hn hs]
    _ = l.filter (· ∈ t) := by
        rw [List.filter_filter]
        refine List.filter_congr fun x _ => ?_
        by_cases hx : x ∈ t
        · simp [hx, hts hx]
        · simp [hx]
    _ = t := filter_eq_part hn ht

namespace Document

variable {d : Document} {first : Handle} {others : List Handle} {p : Paragraph}

/-- The paragraph is the last of a cell all of whose own paragraphs are among the given ones. -/
def LastOfCell (d : Document) (gone : List Handle) (p : Paragraph) : Prop :=
  ∃ own ∈ d.body.cells, own.getLast? = some p ∧ ∀ q ∈ own, q.handle ∈ gone

/-- The paragraph stands in a cell all of whose own paragraphs are among the given ones. -/
def InGoneCell (d : Document) (gone : List Handle) (p : Paragraph) : Prop :=
  ∃ own ∈ d.body.cells, p ∈ own ∧ ∀ q ∈ own, q.handle ∈ gone

instance (d : Document) (gone : List Handle) (p : Paragraph) : Decidable (d.LastOfCell gone p) :=
  inferInstanceAs (Decidable (∃ own ∈ d.body.cells, _ ∧ _))

instance (d : Document) (gone : List Handle) (p : Paragraph) : Decidable (d.InGoneCell gone p) :=
  inferInstanceAs (Decidable (∃ own ∈ d.body.cells, _ ∧ _))

theorem LastOfCell.mem {gone : List Handle} (h : d.LastOfCell gone p) : p.handle ∈ gone := by
  obtain ⟨own, _, hlast, hall⟩ := h
  exact hall p (List.mem_of_getLast? hlast)

/-- What stands for a paragraph when a range has been replaced.  The new paragraphs stand in the place
of the first one; the others go, but for the last one of a cell that would be left without any. -/
def replaced (d : Document) (first : Handle) (others : List Handle) (news : List Paragraph)
    (p : Paragraph) : List Paragraph :=
  if p.handle = first then
    news ++ if news = [] ∧ d.InGoneCell (first :: others) p then [p.emptied] else []
  else if p.handle ∈ others then if d.LastOfCell others p then [p.emptied] else []
  else [p]

theorem WellFormed.nodup_listed (hd : d.WellFormed) : d.body.listed.Nodup :=
  hd.nodup_body.sublist (Forest.listed_sublist_handles _)

theorem remains_iff_lastOfCell (hd : d.WellFormed) (hs : others.Sublist d.body.listed)
    (hp : p ∈ d.paragraphs) : d.body.Remains others p.handle ↔ d.LastOfCell others p := by
  refine exists_congr fun own => and_congr_right fun ho => ?_
  rw [and_comm]
  refine and_congr_left fun hall => ?_
  have hown : (own.map (·.handle)).Sublist d.body.listed := (Forest.sublist_of_mem_cells ho).map _
  have hsub : own.map (·.handle) ⊆ others := by
    intro x hx
    obtain ⟨q, hq, rfl⟩ := List.mem_map.1 hx
    exact hall q hq
  rw [filter_eq_of_parts hd.nodup_listed hs hown hsub, List.getLast?_map, Option.map_eq_some_iff]
  constructor
  · rintro ⟨q, hq, he⟩
    have hqm := (Forest.sublist_of_mem_cells ho).subset (List.mem_of_getLast? hq)
    rwa [← hd.eq_of_handle_eq hqm hp he]
  · exact fun hlast => ⟨p, hlast, rfl⟩

theorem remains_first_iff (hd : d.WellFormed) (hf : first ∉ others) (hp : p ∈ d.paragraphs)
    (he : p.handle = first) :
    d.body.Remains (others ++ [first]) first ↔ d.InGoneCell (first :: others) p := by
  rw [Forest.remains_concat_self hf]
  refine exists_congr fun own => and_congr_right fun ho => ?_
  rw [and_comm]
  refine and_congr ?_ (by simp [or_comm])
  constructor
  · intro hmem
    obtain ⟨q, hq, hqf⟩ := List.mem_map.1 hmem
    have hqm := (Forest.sublist_of_mem_cells ho).subset hq
    rwa [← hd.eq_of_handle_eq hqm hp (hqf.trans he.symm)]
  · exact fun hmem => List.mem_map.2 ⟨p, hmem, he⟩

theorem paragraphs_replacing (hd : d.WellFormed) (hs : (first :: others).Sublist d.body.listed)
    (news : List Paragraph) (hp : p ∈ d.paragraphs) :
    (d.replacing first others news p).paragraphs = d.replaced first others news p := by
  have hfirst : first ∉ others := (List.nodup_cons.1 (hd.nodup_listed.sublist hs)).1
  rw [replacing, cleared, replaced]
  by_cases he : p.handle = first
  · rw [if_pos he, if_pos he]
    have hremains := remains_first_iff hd hfirst hp he
    simp only [Forest.paragraphs_append, (allMarks_startsOf _ d).paragraphs_eq,
      (allMarks_endsOf _ d).paragraphs_eq, Forest.paragraphs_join_tree, hremains,
      List.nil_append, List.append_nil]
    split <;> simp
  · rw [if_neg he, if_neg he]
    have hremains := remains_iff_lastOfCell hd ((List.sublist_cons_self _ _).trans hs) hp
    simp only [Forest.leave, hremains]
    split
    · split <;> rfl
    · rfl

end Document

end Redline
