import Mathlib.Data.List.Induction
import Redline.Proofs.Document.Edits
import Redline.Proofs.Forest.Cells

/-!
# Removing paragraphs

Paragraphs are removed one after the other, and each of them is emptied instead if it has become the
only one of its cell by then.  So a cell all of whose paragraphs are to go keeps the last one that was
reached, without its content.

## Main definitions

* `Forest.Remains` — whether a paragraph stays as the last one of its cell.
* `Document.removeAll` — removing paragraphs one after the other.
-/

namespace Redline

namespace Forest

/-- The paragraph is reached last among those of a cell that are all to go. -/
def Remains (f : Forest) (gone : List Handle) (h : Handle) : Prop :=
  ∃ own ∈ f.cells, (∀ p ∈ own, p.handle ∈ gone) ∧
    (gone.filter fun x => x ∈ own.map (·.handle)).getLast? = some h

instance (f : Forest) (gone : List Handle) (h : Handle) : Decidable (f.Remains gone h) :=
  inferInstanceAs (Decidable (∃ own ∈ f.cells, _ ∧ _))

/-- What is left of a paragraph when those with the given handles are removed. -/
def leave (f : Forest) (gone : List Handle) (p : Paragraph) : Forest :=
  if p.handle ∈ gone then if f.Remains gone p.handle then p.emptied.tree else .nil else p.tree

theorem flat_leave (f : Forest) (gone : List Handle) (p : Paragraph) : (f.leave gone p).Flat := by
  unfold leave
  split
  · split
    · exact flat_tree _
    · exact flat_nil
  · exact flat_tree _

theorem listed_leave (f : Forest) (gone : List Handle) (p : Paragraph) :
    (f.leave gone p).listed =
      if p.handle ∉ gone ∨ f.Remains gone p.handle then [p.handle] else [] := by
  unfold leave
  by_cases hg : p.handle ∈ gone <;> by_cases hr : f.Remains gone p.handle <;> simp [hg, hr]

theorem flatMap_listed_leave (f : Forest) (gone : List Handle) (own : List Paragraph) :
    (own.flatMap fun p => (f.leave gone p).listed) =
      (own.map (·.handle)).filter fun x => decide (x ∉ gone ∨ f.Remains gone x) := by
  induction own with
  | nil => rfl
  | cons p rest ih =>
    rw [List.flatMap_cons, ih, listed_leave, List.map_cons, List.filter_cons]
    by_cases hp : p.handle ∉ gone ∨ f.Remains gone p.handle <;> simp [hp]

variable {f : Forest} {gone : List Handle} {h x : Handle}

theorem Remains.exists_cell (hr : f.Remains gone h) :
    ∃ own ∈ f.cells, (∀ p ∈ own, p.handle ∈ gone) ∧ h ∈ own.map (·.handle) := by
  obtain ⟨own, ho, hall, hlast⟩ := hr
  exact ⟨own, ho, hall, by simpa using List.of_mem_filter (List.mem_of_getLast? hlast)⟩

section
variable (hn : f.listed.Nodup)
include hn

theorem eq_of_handle_mem_cells {own own' : List Paragraph} (ho : own ∈ f.cells)
    (ho' : own' ∈ f.cells) (hh : h ∈ own.map (·.handle)) (hh' : h ∈ own'.map (·.handle)) :
    own = own' := by
  obtain ⟨p, hp, rfl⟩ := List.mem_map.1 hh
  obtain ⟨q, hq, he⟩ := List.mem_map.1 hh'
  have : q = p := List.inj_on_of_nodup_map hn ((sublist_of_mem_cells ho').subset hq)
    ((sublist_of_mem_cells ho).subset hp) he
  exact eq_of_mem_cells (List.Nodup.of_map _ hn) ho ho' hp (this ▸ hq)

omit hn in
/-- The paragraph that is reached next remains if all others of its cell have been reached. -/
theorem remains_concat_self (hg : h ∉ gone) :
    f.Remains (gone ++ [h]) h ↔
      ∃ own ∈ f.cells, (∀ p ∈ own, p.handle ∈ gone ++ [h]) ∧ h ∈ own.map (·.handle) := by
  refine exists_congr fun own => and_congr_right fun _ => and_congr_right fun _ => ?_
  rw [List.filter_append]
  by_cases hh : h ∈ own.map (·.handle)
  · rw [List.filter_cons_of_pos (by simpa using hh)]
    simpa using hh
  · rw [List.filter_cons_of_neg (by simpa using hh), List.filter_nil, List.append_nil]
    refine iff_of_false (fun hlast => ?_) hh
    exact hg (List.mem_of_mem_filter (List.mem_of_getLast? hlast))

omit hn in
/-- Whether an earlier paragraph remains has been decided when it was reached. -/
theorem remains_concat_of_mem (hg : h ∉ gone) (hx : x ∈ gone) :
    f.Remains (gone ++ [h]) x ↔ f.Remains gone x := by
  refine exists_congr fun own => and_congr_right fun _ => ?_
  rw [List.filter_append]
  by_cases hh : h ∈ own.map (·.handle)
  · rw [List.filter_cons_of_pos (by simpa using hh), List.filter_nil, List.getLast?_concat]
    refine iff_of_false (fun hlast => ?_) fun hall => ?_
    · exact hg (Option.some.inj hlast.2 ▸ hx)
    · obtain ⟨p, hp, rfl⟩ := List.mem_map.1 hh
      exact hg (hall.1 p hp)
  · rw [List.filter_cons_of_neg (by simpa using hh), List.filter_nil, List.append_nil]
    refine and_congr_left fun _ => forall₂_congr fun p hp => ?_
    have : p.handle ≠ h := fun he => hh (he ▸ List.mem_map_of_mem hp)
    simp [this]

/-- The paragraph that is reached next is alone in its cell exactly if it remains. -/
theorem remains_iff_alone (hg : h ∉ gone) :
    (∃ own ∈ f.cells, (own.flatMap fun p => (f.leave gone p).listed) = [h]) ↔
      f.Remains (gone ++ [h]) h := by
  rw [remains_concat_self hg]
  refine exists_congr fun own => and_congr_right fun ho => ?_
  rw [flatMap_listed_leave]
  constructor
  · intro hone
    have hmem : ∀ x ∈ own.map (·.handle), x ∉ gone ∨ f.Remains gone x → x = h := by
      intro x hx hr
      have : x ∈ [h] := hone ▸ List.mem_filter.2 ⟨hx, decide_eq_true hr⟩
      simpa using this
    refine ⟨fun p hp => ?_, List.mem_of_mem_filter (hone ▸ List.mem_singleton_self h)⟩
    by_cases hpg : p.handle ∈ gone
    · exact List.mem_append_left _ hpg
    · have := hmem p.handle (List.mem_map_of_mem hp) (Or.inl hpg)
      exact List.mem_append_right _ (by simp [this])
  · rintro ⟨hall, hh⟩
    have hown : (own.map (·.handle)).Nodup := hn.sublist ((sublist_of_mem_cells ho).map _)
    have hiff : ∀ x ∈ own.map (·.handle), (x ∉ gone ∨ f.Remains gone x) ↔ x = h := by
      intro x hx
      refine ⟨fun hr => ?_, fun he => Or.inl (he ▸ hg)⟩
      obtain ⟨p, hp, rfl⟩ := List.mem_map.1 hx
      by_contra hne
      have hpg : p.handle ∈ gone := by simpa [hne] using hall p hp
      obtain ⟨own', ho', hall', hx'⟩ := (hr.resolve_left (not_not_intro hpg)).exists_cell
      obtain rfl := eq_of_handle_mem_cells hn ho ho' hx hx'
      obtain ⟨q, hq, rfl⟩ := List.mem_map.1 hh
      exact hg (hall' q hq)
    have hkeep : ∀ x ∈ own.map (·.handle), decide (x ∉ gone ∨ f.Remains gone x) = (x == h) :=
      fun x hx => by rw [Bool.eq_iff_iff, decide_eq_true_iff, hiff x hx, beq_iff_eq]
    rw [List.filter_congr hkeep, List.filter_beq, List.count_eq_one_of_mem hown hh]
    rfl

end

end Forest

namespace Document

variable {d : Document} {gone : List Handle}

/-- Removes paragraphs one after the other. -/
def removeAll (gone : List Handle) (d : Document) : Document :=
  gone.foldl (fun d h => d.removeParagraph h) d

theorem removeAll_concat (gone : List Handle) (h : Handle) (d : Document) :
    d.removeAll (gone ++ [h]) = (d.removeAll gone).removeParagraph h := by
  simp [removeAll]

theorem WellFormed.removeAll (hd : d.WellFormed) (gone : List Handle) :
    (d.removeAll gone).WellFormed := by
  induction gone generalizing d with
  | nil => exact hd
  | cons h rest ih => exact ih (hd.removeParagraph h)

@[simp] theorem nextHandle_removeAll (gone : List Handle) (d : Document) :
    (d.removeAll gone).nextHandle = d.nextHandle := by
  induction gone generalizing d with
  | nil => rfl
  | cons h rest ih => exact (ih (d.removeParagraph h)).trans (nextHandle_removeParagraph d h)

/-- Removing paragraphs leaves the last one of every cell that would be left without any. -/
theorem removeAll_spec (hd : d.WellFormed) (hn : gone.Nodup) (hl : gone ⊆ d.body.listed) :
    (d.removeAll gone).body = d.body.rewrite (d.body.leave gone) ∧
      d.loose ⊆ (d.removeAll gone).loose := by
  have hlisted : d.body.listed.Nodup := hd.nodup_body.sublist (Forest.listed_sublist_handles _)
  induction gone using List.reverseRecOn with
  | nil =>
    have : d.body.leave [] = Paragraph.tree := by
      funext p
      simp [Forest.leave]
    exact ⟨by rw [this, Forest.rewrite_self]; rfl, fun _ h => h⟩
  | append_singleton gone h ih =>
    rw [List.nodup_append] at hn
    have hg : h ∉ gone := fun hc => hn.2.2 h hc h (List.mem_singleton_self h) rfl
    obtain ⟨hbody, hloose⟩ := ih hn.1 fun x hx => hl (List.mem_append_left _ hx)
    have hmid := hd.removeAll gone
    have hstays : h ∈ (d.removeAll gone).body.listed := by
      obtain ⟨p, hp, rfl⟩ :=
        mem_listed_iff.1 (hl (List.mem_append_right _ (List.mem_singleton_self h)))
      rw [hbody, Forest.listed_rewrite]
      exact List.mem_flatMap.2 ⟨p, hp, by simp [Forest.listed_leave, hg]⟩
    have halone : (d.removeAll gone).body.aloneInCell h = true ↔ d.body.Remains (gone ++ [h]) h := by
      rw [Forest.aloneInCell_iff hmid.nodup_body hstays, ← Forest.remains_iff_alone hlisted hg, hbody,
        Forest.cells_rewrite (Forest.flat_leave _ _)]
      simp only [List.mem_map, exists_exists_and_eq_and, List.map_flatMap]
      rfl
    rw [hbody] at halone
    refine ⟨?_, ?_⟩
    · rw [removeAll_concat, body_removeParagraph hmid hstays, hbody, Forest.rewriteAt,
        Forest.rewrite_rewrite]
      refine Forest.rewrite_congr fun p _ => ?_
      by_cases hp : p.handle = h
      · subst hp
        simp [Forest.leave, hg, halone]
      · by_cases hpg : p.handle ∈ gone
        · by_cases hr : d.body.Remains gone p.handle <;>
            simp [Forest.leave, hp, hpg, hr, Forest.remains_concat_of_mem hg hpg]
        · simp [Forest.leave, hp, hpg]
    · rw [removeAll_concat]
      exact fun part hp => loose_subset_removeParagraph hmid hstays (hloose hp)

end Document

end Redline
