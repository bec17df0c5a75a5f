import Redline.Proofs.Document.Insertion
import Redline.Proofs.Document.Styles
import Redline.Proofs.Document.Removal
import Redline.Proofs.Forest.Controls

/-!
# Clearing and replacing a range

A range is emptied down to its first paragraph, new paragraphs go in front of what remains of that,
and at last the remnant goes as well.  All this together replaces the first paragraph and removes the
others, and the marks of the range end up around the new paragraphs.

## Main definitions

* `Document.startsOf`, `Document.endsOf` — the marks of a range.
* `Document.replaceRange` — what a replacement makes of each paragraph.
-/

namespace Redline

namespace Forest

variable {f : Forest} {gone : List Handle} {h : Handle} {r : Paragraph → Forest}

/-- Whether a paragraph remains does not depend on the contents of paragraphs. -/
theorem remains_rewrite (hr : ∀ p, (r p).Flat) (hl : ∀ p, (r p).listed = [p.handle]) :
    (f.rewrite r).Remains gone h ↔ f.Remains gone h := by
  have hmap : ∀ own : List Paragraph,
      (own.flatMap fun p => (r p).paragraphs).map (·.handle) = own.map (·.handle) := by
    intro own
    rw [List.map_flatMap, List.map_eq_flatMap]
    exact List.flatMap_congr fun p _ => hl p
  have hall : ∀ own : List Paragraph, (∀ p ∈ own, p.handle ∈ gone) ↔
      ∀ x ∈ own.map (·.handle), x ∈ gone := by simp
  simp only [Remains, cells_rewrite hr, List.mem_map (f := fun own : List Paragraph => _),
    exists_exists_and_eq_and, hall, hmap]

end Forest

/-- Paragraphs that give way to one paragraph each, with its handle, are listed as before. -/
theorem Forest.listed_rewrite_of_listed {f : Forest} {r : Paragraph → Forest}
    (hl : ∀ p, (r p).listed = [p.handle]) : (f.rewrite r).listed = f.listed := by
  rw [Forest.listed_rewrite, Forest.listed, List.map_eq_flatMap]
  exact List.flatMap_congr fun p _ => hl p

namespace Document

open Effect

variable {d : Document} {first : Handle} {others range : List Handle}

/-- The start marks of a range, in order. -/
def startsOf (range : List Handle) (d : Document) : Forest :=
  Forest.join (range.map fun h => (d.inside h).startMarks)

/-- The end marks of a range, in order. -/
def endsOf (range : List Handle) (d : Document) : Forest :=
  Forest.join (range.map fun h => (d.inside h).endMarks)

theorem allMarks_startsOf (range : List Handle) (d : Document) : (d.startsOf range).AllMarks :=
  .join fun f hf => by
    obtain ⟨h, _, rfl⟩ := List.mem_map.1 hf
    exact .startMarks _

theorem allMarks_endsOf (range : List Handle) (d : Document) : (d.endsOf range).AllMarks :=
  .join fun f hf => by
    obtain ⟨h, _, rfl⟩ := List.mem_map.1 hf
    exact .endMarks _

/-- Takes the marks out of the paragraphs of a range. -/
def bare (range : List Handle) (d : Document) : Document :=
  range.foldl (fun d h => d.modifyInside h (·.withoutMarks)) d

/-- A range emptied down to its first paragraph, with the marks beside that. -/
def clear (first : Handle) (others : List Handle) (d : Document) : Document :=
  (((d.bare (first :: others)).place first (d.startsOf (first :: others))
    (d.endsOf (first :: others))).modifyInside first fun _ => .nil).removeAll others

theorem lastPlaces_of_nodup {l : List Handle} (hn : l.Nodup) : lastPlaces l = l := by
  induction l with
  | nil => rfl
  | cons h rest ih =>
    rw [List.nodup_cons] at hn
    simp [lastPlaces, hn.1, ih hn.2]

theorem mem_lastPlaces {h : Handle} {l : List Handle} : h ∈ lastPlaces l ↔ h ∈ l := by
  induction l with
  | nil => simp [lastPlaces]
  | cons k rest ih =>
    rw [lastPlaces]
    by_cases hk : k ∈ rest
    · have hkeep : h = k → h ∈ rest := fun he => he ▸ hk
      simpa [hk, ih] using hkeep
    · simp [hk, ih]

theorem nodup_lastPlaces (l : List Handle) : (lastPlaces l).Nodup := by
  induction l with
  | nil => simp [lastPlaces]
  | cons k rest ih =>
    rw [lastPlaces]
    by_cases hk : k ∈ rest
    · simpa [hk] using ih
    · simpa [hk, mem_lastPlaces] using ih

theorem apply_clearRange (hd : d.WellFormed) (hn : (first :: others).Nodup)
    (hl : first ∈ d.body.listed) :
    (Effect.clearRange first others).apply d = (d.clear first others, none) := by
  have hb : first ∈ d.body.handles := (Forest.listed_sublist_handles _).subset hl
  have hplaced := hd.standing_eq_placed hb
  simp only [apply, applyClearRange, lastPlaces_of_nodup hn, hplaced, reduceCtorEq, false_and,
    if_false, if_true, done]
  rfl

/-! ## Well-formedness -/

theorem WellFormed.bare (hd : d.WellFormed) (range : List Handle) : (d.bare range).WellFormed := by
  induction range generalizing d with
  | nil => exact hd
  | cons h rest ih =>
    exact ih (hd.modifyInside (fun x f => (Forest.handles_withoutMarks_sublist f).count_le x)
      fun f hf => hf.withoutMarks)

theorem keeps_clearRange (first : Handle) (others : List Handle) :
    Keeps (.clearRange first others) := by
  intro d hd
  simp only [apply, applyClearRange]
  have hstarts := allMarks_startsOf (lastPlaces (first :: others)) d
  have hends := allMarks_endsOf (lastPlaces (first :: others)) d
  split
  · exact hd
  · refine WellFormed.removeAll (WellFormed.modifyInside ?_ (by simp) (by simp)) _
    split
    · exact (hd.bare _).place_marks hstarts.handles_eq hends.handles_eq hstarts.ofKind
        hends.ofKind
    · exact hd.bare _

theorem keeps_delete (h : Handle) : Keeps (.delete h) := by
  intro d hd
  simp only [apply, applyDelete]
  split
  · exact hd
  · exact hd.removeParagraph h

/-! ## What a replacement makes of the paragraphs -/

theorem bare_eq (hd : d.WellFormed) (hn : range.Nodup) (hl : range ⊆ d.body.listed) :
    d.bare range = d.rewrite fun p =>
      if p.handle ∈ range then { p with content := p.content.withoutMarks : Paragraph }.tree
      else p.tree := by
  induction range using List.reverseRecOn with
  | nil => simp [bare, rewrite, Forest.rewrite_self]
  | append_singleton range h ih =>
    rw [List.nodup_append] at hn
    have hh : h ∉ range := fun hc => hn.2.2 h hc h (List.mem_singleton_self h) rfl
    have ih := ih hn.1 fun x hx => hl (List.mem_append_left _ hx)
    have hstays : h ∈ (d.bare range).body.listed := by
      obtain ⟨p, hp, rfl⟩ :=
        mem_listed_iff.1 (hl (List.mem_append_right _ (List.mem_singleton_self h)))
      rw [ih, rewrite, Forest.listed_rewrite]
      exact List.mem_flatMap.2 ⟨p, hp, by simp [hh]⟩
    have hlast : d.bare (range ++ [h]) = (d.bare range).modifyInside h (·.withoutMarks) := by
      simp [bare]
    rw [hlast, modifyInside_of_listed (hd.bare range) hstays, ih, rewriteAt, rewrite, rewrite,
      Forest.rewriteAt, Forest.rewrite_rewrite]
    congr 1
    refine Forest.rewrite_congr fun p _ => ?_
    by_cases hp : p.handle = h
    · simp [hp, hh]
    · by_cases hpr : p.handle ∈ range <;> simp [hp, hpr]

/-- What stands in the place of each paragraph before the others of the range are removed. -/
def opened (d : Document) (first : Handle) (others : List Handle) (p : Paragraph) : Forest :=
  if p.handle = first then
    d.startsOf (first :: others) ++ (p.emptied.tree ++ d.endsOf (first :: others))
  else if p.handle ∈ others then { p with content := p.content.withoutMarks : Paragraph }.tree
  else p.tree

theorem listed_opened (d : Document) (first : Handle) (others : List Handle) (p : Paragraph) :
    (d.opened first others p).listed = [p.handle] := by
  unfold opened
  split
  · simp [Forest.listed, (allMarks_startsOf _ d).paragraphs_eq, (allMarks_endsOf _ d).paragraphs_eq]
  · split <;> rfl

theorem flat_opened (d : Document) (first : Handle) (others : List Handle) (p : Paragraph) :
    (d.opened first others p).Flat := by
  unfold opened
  split
  · exact (allMarks_startsOf _ d).flat.append
      ((Forest.flat_tree _).append (allMarks_endsOf _ d).flat)
  · split <;> exact Forest.flat_tree _

/-- What stands in the place of each paragraph when the others of the range have been removed;
`between` stands between the marks. -/
def cleared (d : Document) (first : Handle) (others : List Handle) (between : Paragraph → Forest)
    (p : Paragraph) : Forest :=
  if p.handle = first then
    d.startsOf (first :: others) ++ (between p ++ d.endsOf (first :: others))
  else d.body.leave others p

theorem flat_cleared {between : Paragraph → Forest} (hb : ∀ p, (between p).Flat) (d : Document)
    (first : Handle) (others : List Handle) (p : Paragraph) :
    (d.cleared first others between p).Flat := by
  unfold cleared
  split
  · exact (allMarks_startsOf _ d).flat.append ((hb p).append (allMarks_endsOf _ d).flat)
  · exact Forest.flat_leave _ _ _

theorem controls_cleared {between : Paragraph → Forest} (hb : ∀ p, (between p).controls = [])
    (d : Document) (first : Handle) (others : List Handle) (p : Paragraph) :
    (d.cleared first others between p).controls = [] := by
  unfold cleared Forest.leave
  split
  · simp [(allMarks_startsOf _ d).controls_eq, (allMarks_endsOf _ d).controls_eq, hb]
  · split
    · split <;> rfl
    · rfl

theorem listed_cleared (d : Document) (first : Handle) (others : List Handle)
    (between : Paragraph → Forest) (p : Paragraph) :
    (d.cleared first others between p).listed =
      if p.handle = first then (between p).listed else (d.body.leave others p).listed := by
  unfold cleared
  split <;>
    simp [Forest.listed, (allMarks_startsOf _ d).paragraphs_eq, (allMarks_endsOf _ d).paragraphs_eq]

section
variable (hd : d.WellFormed) (hn : (first :: others).Nodup) (hl : (first :: others) ⊆ d.body.listed)
include hd hn hl

theorem opened_eq :
    ((d.bare (first :: others)).place first (d.startsOf (first :: others))
      (d.endsOf (first :: others))).modifyInside first (fun _ => .nil) =
        d.rewrite (d.opened first others) := by
  have hfirst : first ∈ (d.bare (first :: others)).body.listed := by
    rw [bare_eq hd hn hl, rewrite, Forest.listed_rewrite_of_listed]
    · exact hl List.mem_cons_self
    · intro p
      split <;> rfl
  have hends := allMarks_endsOf (first :: others) d
  have hstarts := allMarks_startsOf (first :: others) d
  have hplace := place_marks_of_listed (hd.bare (first :: others)) hfirst
    (d.startsOf (first :: others)) hends.handles_eq hends.ofKind
  have hwell := (hd.bare (first :: others)).place_marks (h := first) hstarts.handles_eq
    hends.handles_eq hstarts.ofKind hends.ofKind
  have hlist : first ∈ ((d.bare (first :: others)).place first (d.startsOf (first :: others))
      (d.endsOf (first :: others))).body.listed := by
    rw [hplace]
    exact mem_listed_rewriteAt hfirst fun p _ hp _ => by simp [hp]
  rw [modifyInside_of_listed hwell hlist, hplace, rewriteAt_rewriteAt (Or.inl rfl),
    bare_eq hd hn hl, rewriteAt, rewrite, rewrite, Forest.rewriteAt, Forest.rewrite_rewrite]
  congr 1
  refine Forest.rewrite_congr fun p _ => ?_
  by_cases hp : p.handle = first
  · simp [opened, hp, Forest.rewriteAt, hstarts.rewrite_eq, hends.rewrite_eq, Paragraph.emptied]
  · by_cases ho : p.handle ∈ others <;> simp [opened, hp, ho]

/-- A cleared range is left with its first paragraph, which is empty. -/
theorem clear_spec :
    (d.clear first others).body = d.body.rewrite (d.cleared first others fun p => p.emptied.tree) ∧
      d.loose ⊆ (d.clear first others).loose ∧
      (d.clear first others).nextHandle = d.nextHandle := by
  have hwell : (d.rewrite (d.opened first others)).WellFormed := by
    rw [← opened_eq hd hn hl]
    exact ((hd.bare _).place_marks (allMarks_startsOf _ d).handles_eq
      (allMarks_endsOf _ d).handles_eq (allMarks_startsOf _ d).ofKind
      (allMarks_endsOf _ d).ofKind).modifyInside (by simp) (by simp)
  have hothers : others ⊆ (d.rewrite (d.opened first others)).body.listed := by
    rw [rewrite, Forest.listed_rewrite_of_listed (d.listed_opened first others)]
    exact fun h hh => hl (List.mem_cons_of_mem _ hh)
  obtain ⟨hbody, hloose⟩ := removeAll_spec hwell (List.nodup_cons.1 hn).2 hothers
  rw [clear, opened_eq hd hn hl]
  refine ⟨?_, hloose, by simp [rewrite]⟩
  rw [hbody, rewrite, Forest.rewrite_rewrite]
  refine Forest.rewrite_congr fun p _ => ?_
  have hremains := @Forest.remains_rewrite d.body others p.handle _ (d.flat_opened first others)
    (d.listed_opened first others)
  have hfirst : first ∉ others := (List.nodup_cons.1 hn).1
  by_cases hp : p.handle = first
  · simp [opened, cleared, Forest.leave, hp, hfirst, (allMarks_startsOf _ d).rewrite_eq,
      (allMarks_endsOf _ d).rewrite_eq]
  · by_cases ho : p.handle ∈ others
    · simp [opened, cleared, Forest.leave, hp, ho, hremains, Paragraph.emptied]
    · simp [opened, cleared, Forest.leave, hp, ho]

end

/-! ## The whole replacement -/

/-- What a replacement of a range makes of each paragraph.  Without new paragraphs the first one
remains where its cell would be left without any. -/
def replacing (d : Document) (first : Handle) (others : List Handle) (news : List Paragraph) :
    Paragraph → Forest :=
  d.cleared first others fun p => Forest.join (news.map Paragraph.tree) ++
    if news = [] ∧ d.body.Remains (others ++ [first]) first then p.emptied.tree else .nil

/-- The effects of a replacement. -/
def replacementEffects (first : Handle) (others : List Handle) (insertions : List Insertion) :
    List Effect :=
  .clearRange first others :: (chain .before first insertions ++ [.delete first])

theorem keeps_replacementEffects {insertions : List Insertion} {e : Effect}
    (he : e ∈ replacementEffects first others insertions) : Keeps e := by
  rcases List.mem_cons.1 he with rfl | he
  · exact keeps_clearRange first others
  · rcases List.mem_append.1 he with he | he
    · exact keeps_chain he
    · rw [List.mem_singleton.1 he]
      exact keeps_delete first

/-- The remnant is alone in its cell only if nothing new has been put in front of it. -/
theorem alone_remnant_iff (hd : d.WellFormed) (hn : (first :: others).Nodup)
    (hl : first ∈ d.body.listed) {news : List Paragraph}
    (hnews : ∀ q ∈ news, q.handle ∉ d.body.listed) :
    (∃ own ∈ d.body.cells, (own.flatMap fun p =>
        (d.cleared first others (·.emptied.beside .before news) p).listed) = [first]) ↔
      news = [] ∧ d.body.Remains (others ++ [first]) first := by
  have hlisted : d.body.listed.Nodup := hd.nodup_body.sublist (Forest.listed_sublist_handles _)
  have hfirst : first ∉ others := (List.nodup_cons.1 hn).1
  cases news with
  | nil =>
    have hleave : ∀ p, (d.cleared first others (·.emptied.beside .before []) p).listed =
        (d.body.leave others p).listed := by
      intro p
      rw [listed_cleared]
      by_cases hp : p.handle = first <;> simp [hp, Forest.listed_leave, hfirst]
    simp only [hleave, true_and]
    exact Forest.remains_iff_alone hlisted hfirst
  | cons q rest =>
    refine iff_of_false ?_ (by simp)
    rintro ⟨own, _, hone⟩
    have hmem : first ∈ own.flatMap fun p =>
        (d.cleared first others (·.emptied.beside .before (q :: rest)) p).listed := by
      simp [hone]
    obtain ⟨p, hp, hfp⟩ := List.mem_flatMap.1 hmem
    have hpf : p.handle = first := by
      by_contra hne
      rw [listed_cleared, if_neg hne, Forest.listed_leave] at hfp
      split at hfp
      · exact hne (List.mem_singleton.1 hfp).symm
      · simp at hfp
    have hq : q.handle ∈ own.flatMap fun p =>
        (d.cleared first others (·.emptied.beside .before (q :: rest)) p).listed := by
      refine List.mem_flatMap.2 ⟨p, hp, ?_⟩
      rw [listed_cleared, if_pos hpf]
      simp [Paragraph.beside, Forest.join]
    rw [hone, List.mem_singleton] at hq
    exact hnews q List.mem_cons_self (hq ▸ hl)

theorem cleared_congr {between between' : Paragraph → Forest}
    (hb : ∀ p, p.handle = first → between p = between' p) :
    d.cleared first others between = d.cleared first others between' := by
  funext p
  by_cases hp : p.handle = first <;> simp [cleared, hp, hb p]

/-- What stands in front of the remnant is not touched with it. -/
theorem rewriteAt_remnant {news : List Paragraph} {p : Paragraph} {r : Paragraph → Forest}
    (hp : p.handle = first) (hnews : ∀ q ∈ news, q.handle ≠ first) :
    (p.emptied.beside .before news).rewriteAt first r =
      Forest.join (news.map Paragraph.tree) ++ r p.emptied := by
  have hjoin : first ∉ (Forest.join (news.map Paragraph.tree)).listed := by
    rw [Forest.listed_join_tree, List.mem_map]
    rintro ⟨q, hq, he⟩
    exact hnews q hq he
  rw [Paragraph.beside, Forest.rewriteAt_append, Forest.rewriteAt_of_notMem hjoin,
    Forest.rewriteAt_tree, Paragraph.handle_emptied, if_pos hp]

/-- A change of the first paragraph of a cleared range. -/
theorem rewriteAt_cleared {between : Paragraph → Forest} {r : Paragraph → Forest} :
    (d.body.rewrite (d.cleared first others between)).rewriteAt first r =
      d.body.rewrite (d.cleared first others fun p => (between p).rewriteAt first r) := by
  rw [Forest.rewriteAt, Forest.rewrite_rewrite]
  refine Forest.rewrite_congr fun p _ => ?_
  by_cases hp : p.handle = first
  · simp [cleared, hp, (allMarks_startsOf _ d).rewrite_eq, (allMarks_endsOf _ d).rewrite_eq,
      Forest.rewriteAt]
  · have hnot : first ∉ (d.body.leave others p).listed := by
      rw [Forest.listed_leave]
      split
      · simpa using fun h => hp h.symm
      · simp
    have := Forest.rewriteAt_of_notMem (r := r) hnot
    rw [Forest.rewriteAt] at this
    simp [cleared, hp, this]

/-- The first paragraph stands where it stood when the range has been cleared. -/
theorem mem_listed_cleared {between : Paragraph → Forest} (hl : first ∈ d.body.listed)
    (hb : ∀ p, p.handle = first → first ∈ (between p).listed) :
    first ∈ (d.body.rewrite (d.cleared first others between)).listed := by
  obtain ⟨p, hp, rfl⟩ := mem_listed_iff.1 hl
  rw [Forest.listed_rewrite]
  exact List.mem_flatMap.2 ⟨p, hp, by simpa [listed_cleared] using hb p rfl⟩

/-- Deleting the remnant. -/
theorem body_delete_remnant {mid d' : Document} {news : List Paragraph} (hd : d.WellFormed)
    (hn : (first :: others).Nodup) (hl : first ∈ d.body.listed)
    (hnews : ∀ q ∈ news, q.handle ∉ d.body.listed) (hmid : mid.WellFormed)
    (hbody : mid.body = d.body.rewrite (d.cleared first others (·.emptied.beside .before news)))
    (h : (Effect.delete first).apply mid = (d', none)) :
    d'.body = d.body.rewrite (d.replacing first others news) ∧ d'.nextHandle = mid.nextHandle := by
  have hlm : first ∈ mid.body.listed := by
    rw [hbody]
    exact mem_listed_cleared hl fun p hp => by simp [Paragraph.beside, hp]
  have hplaced := hmid.standing_eq_placed ((Forest.listed_sublist_handles _).subset hlm)
  have happly : (Effect.delete first).apply mid = (mid.removeParagraph first, none) := by
    simp [apply, applyDelete, hplaced, done]
  obtain rfl : mid.removeParagraph first = d' := (Prod.mk.inj (happly.symm.trans h)).1
  have hflat : ∀ p : Paragraph, (p.emptied.beside .before news).Flat := fun p =>
    (Forest.flat_join_tree news).append (Forest.flat_tree _)
  have halone : mid.body.aloneInCell first = true ↔
      news = [] ∧ d.body.Remains (others ++ [first]) first := by
    rw [Forest.aloneInCell_iff hmid.nodup_body hlm, hbody,
      Forest.cells_rewrite (d.flat_cleared hflat first others), ← alone_remnant_iff hd hn hl hnews]
    simp only [List.mem_map, exists_exists_and_eq_and, List.map_flatMap]
    rfl
  refine ⟨?_, nextHandle_removeParagraph mid first⟩
  rw [body_removeParagraph hmid hlm, hbody, rewriteAt_cleared, replacing]
  rw [hbody] at halone
  rw [cleared_congr fun p hp => rewriteAt_remnant hp fun q hq he => hnews q hq (he ▸ hl)]
  simp only [halone]
  rfl

theorem styles_clear (hd : d.WellFormed) (hn : (first :: others).Nodup)
    (hl : first ∈ d.body.listed) : (d.clear first others).styles = d.styles := by
  have hstyles := styles_apply (.clearRange first others) d
  rwa [apply_clearRange hd hn hl] at hstyles

/-- A cleared range is ready for new paragraphs: its first paragraph stands where it stood, and what
waits goes on waiting. -/
theorem ready_clear {insertions : List Insertion} (hd : d.WellFormed) (hn : (first :: others).Nodup)
    (hl : (first :: others) ⊆ d.body.listed) (ha : d.Awaits insertions) :
    (d.clear first others).WellFormed ∧ first ∈ (d.clear first others).body.listed ∧
      (d.clear first others).Awaits insertions := by
  have hlf : first ∈ d.body.listed := hl List.mem_cons_self
  obtain ⟨hbody, hloose, _⟩ := clear_spec hd hn hl
  refine ⟨?_, ?_, fun i hi => hloose (ha.waiting i hi), ha.distinct⟩
  · have := keeps_clearRange first others d hd
    rwa [apply_clearRange hd hn hlf] at this
  · rw [hbody]
    exact mem_listed_cleared hlf fun p hp => by simp [hp]

/-- A replacement that succeeds puts the new paragraphs in the place of the range. -/
theorem becomes_replacement {d' : Document} {insertions : List Insertion} (hd : d.WellFormed)
    (hn : (first :: others).Nodup) (hl : (first :: others) ⊆ d.body.listed)
    (ha : d.Awaits insertions) (h : d.Becomes (replacementEffects first others insertions) d') :
    ∃ news, Dressed d.styles insertions news ∧
      d'.body = d.body.rewrite (d.replacing first others news) ∧ d'.nextHandle = d.nextHandle := by
  have hlf : first ∈ d.body.listed := hl List.mem_cons_self
  obtain ⟨_, hclear, hrest⟩ := becomes_cons.1 h
  rw [apply_clearRange hd hn hlf] at hclear
  obtain rfl := (Prod.mk.inj hclear).1
  obtain ⟨hbody, hloose, hnext⟩ := clear_spec hd hn hl
  obtain ⟨hwell, hlc, hawaits⟩ := ready_clear hd hn hl ha
  obtain ⟨mid, hchain, hdelete⟩ := becomes_append.1 hrest
  have hmid := hwell.becomes hchain fun _ he => keeps_chain he
  obtain ⟨news, hnews, rfl⟩ := (becomes_chain hwell hlc hawaits).1 hchain
  rw [styles_clear hd hn hlf] at hnews
  have hfresh : ∀ q ∈ news, q.handle ∉ d.body.listed := by
    intro q hq
    have : q.handle ∈ insertions.map (·.paragraph.handle) :=
      hnews.map_handle ▸ List.mem_map_of_mem hq
    obtain ⟨i, hi, he⟩ := List.mem_map.1 this
    exact he ▸ (ha.waiting i hi).notMem_listed hd
  obtain ⟨last, hlast, rfl⟩ := becomes_cons.1 hdelete
  have hbodyMid : (((d.clear first others).dropAll (insertions.map (·.paragraph.handle))).rewriteAt
      first (·.beside .before news)).body =
        d.body.rewrite (d.cleared first others (·.emptied.beside .before news)) := by
    rw [body_rewriteAt, body_dropAll, hbody, rewriteAt_cleared]
    congr 1
    refine cleared_congr fun p hp => ?_
    rw [Forest.rewriteAt_tree, Paragraph.handle_emptied, if_pos hp]
  obtain ⟨hfinal, hnextFinal⟩ := body_delete_remnant hd hn hlf hfresh hmid hbodyMid hlast
  exact ⟨news, hnews, hfinal, by simp [hnextFinal, hnext]⟩

end Document

end Redline
