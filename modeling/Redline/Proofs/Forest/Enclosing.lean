import Mathlib.Data.List.Count
import Redline.Proofs.Forest.Order
import Redline.Proofs.Forest.Places

/-!
# Bookmarks whose marks are known

Where a bookmark opens and closes is told by its two marks alone, if no other start has its name
and no other end its id.  Marks that stand directly in a paragraph open and close there; those that
stand around paragraphs open in the first of these and close in the last.

## Main definitions

* `Forest.elements` — the elements that stand directly in a forest.
-/

namespace Redline

/-- An item whose key no other one has is found by its key. -/
theorem find?_of_count {α κ : Type} [DecidableEq κ] {key : α → κ} {items : List α} {item : α}
    (hi : item ∈ items) (hc : (items.map key).count (key item) = 1) :
    items.find? (fun other => key other == key item) = some item := by
  induction items with
  | nil => cases hi
  | cons first rest ih =>
    rw [List.map_cons, List.count_cons] at hc
    by_cases hf : key first = key item
    · -- No other item has the key, so the first one is meant.
      rw [if_pos (by simpa using hf)] at hc
      have hrest : item ∉ rest := fun h => by
        have : 0 < (rest.map key).count (key item) :=
          List.count_pos_iff.2 (List.mem_map_of_mem h)
        omega
      obtain rfl := (List.mem_cons.1 hi).resolve_right hrest
      simp
    · rw [if_neg (by simpa using hf)] at hc
      have hne : item ≠ first := fun he => hf (he ▸ rfl)
      rw [List.find?_cons_of_neg (by simpa using hf)]
      exact ih ((List.mem_cons.1 hi).resolve_left hne) hc

/-- Consecutive items are the part of the list from the first through the last of them. -/
theorem slice_of_isInfix {α : Type} [DecidableEq α] {l segment : List α} {a z : α} (hn : l.Nodup)
    (hs : segment <:+: l) (ha : segment.head? = some a) (hz : segment.getLast? = some z) :
    Forest.slice l (l.idxOf a) (l.idxOf z) = segment := by
  have hsn : segment.Nodup := hn.sublist hs.sublist
  obtain ⟨front, tail, rfl⟩ := hs
  have hpos : ∀ (k : Nat) (x : α), segment[k]? = some x →
      (front ++ segment ++ tail).idxOf x = front.length + k := by
    intro k x hk
    obtain ⟨hlt, rfl⟩ := List.getElem?_eq_some_iff.1 hk
    have hlt' : front.length + k < (front ++ segment ++ tail).length := by simp; omega
    have hget : (front ++ segment ++ tail)[front.length + k] = segment[k] := by
      simp [hlt]
    rw [← hget]
    exact hn.idxOf_getElem _ hlt'
  have hlen : 0 < segment.length := List.length_pos_of_mem (List.mem_of_head? ha)
  rw [hpos 0 a (by rwa [← List.head?_eq_getElem?]),
    hpos (segment.length - 1) z (by rwa [← List.getLast?_eq_getElem?]), Forest.slice]
  have hcount : front.length + (segment.length - 1) + 1 - (front.length + 0) = segment.length := by
    omega
  rw [hcount, Nat.add_zero, List.append_assoc, List.drop_left, List.take_left]

namespace Forest

variable {f g : Forest} {h : Handle} {name id : String} {holder before : Option Handle}

/-- The elements that stand directly in a forest. -/
def elements : Forest → List Element
  | .nil => []
  | .cons e _ rest => e :: rest.elements

theorem bookmarksIn_cons (holder : Option Handle) (e : Element) (inside rest : Forest) :
    (cons e inside rest).bookmarksIn holder =
      e.opens.map (fun s => ⟨s.1, s.2, holder <|> rest.everyParagraph.head?⟩) ++
        (inside.bookmarksIn (holderInside e holder) ++ rest.bookmarksIn holder) := by
  cases e <;> simp [bookmarksIn, Element.opens]

theorem bookmarkEndsIn_cons (holder before : Option Handle) (e : Element) (inside rest : Forest) :
    (cons e inside rest).bookmarkEndsIn holder before =
      e.closes.map (fun id => ⟨id, holder <|> before⟩) ++
        (inside.bookmarkEndsIn (holderInside e holder) none ++
          rest.bookmarkEndsIn holder (lastParagraph e inside <|> before)) := by
  cases e <;> simp [bookmarkEndsIn, Element.closes]

/-! ## Marks in a paragraph -/

theorem mem_starts_of_elements (hm : .bookmarkStart name id ∈ f.elements) :
    (name, id) ∈ f.starts := by
  induction f with
  | nil => simp [elements] at hm
  | cons e inside rest _ ih =>
    rw [starts_cons, List.mem_append, List.mem_append]
    rcases List.mem_cons.1 hm with rfl | hm
    · exact .inl (by simp [Element.opens])
    · exact .inr (.inr (ih hm))

theorem mem_stops_of_elements (hm : .bookmarkEnd id ∈ f.elements) : id ∈ f.stops := by
  induction f with
  | nil => simp [elements] at hm
  | cons e inside rest _ ih =>
    rw [stops_cons, List.mem_append, List.mem_append]
    rcases List.mem_cons.1 hm with rfl | hm
    · exact .inl (by simp [Element.closes])
    · exact .inr (.inr (ih hm))

theorem mem_bookmarksIn_of_elements (hm : .bookmarkStart name id ∈ f.elements) (h : Handle) :
    ⟨name, id, some h⟩ ∈ f.bookmarksIn (some h) := by
  induction f with
  | nil => simp [elements] at hm
  | cons e inside rest _ ih =>
    rw [bookmarksIn_cons, List.mem_append, List.mem_append]
    rcases List.mem_cons.1 hm with rfl | hm
    · exact .inl (by simp [Element.opens])
    · exact .inr (.inr (ih hm))

theorem mem_bookmarkEndsIn_of_elements (hm : .bookmarkEnd id ∈ f.elements) (h : Handle)
    (before : Option Handle) : ⟨id, some h⟩ ∈ f.bookmarkEndsIn (some h) before := by
  induction f generalizing before with
  | nil => simp [elements] at hm
  | cons e inside rest _ ih =>
    rw [bookmarkEndsIn_cons, List.mem_append, List.mem_append]
    rcases List.mem_cons.1 hm with rfl | hm
    · exact .inl (by simp [Element.closes])
    · exact .inr (.inr (ih hm _))

/-! ## Marks and what stands behind them -/

theorem mem_bookmarksIn_append {b : Bookmark} (hb : b ∈ g.bookmarksIn holder) :
    b ∈ (f ++ g).bookmarksIn holder := by
  induction f with
  | nil => exact hb
  | cons e inside rest _ ih =>
    rw [cons_append, bookmarksIn_cons]
    exact List.mem_append_right _ (List.mem_append_right _ ih)

theorem mem_bookmarkEndsIn_append {b : BookmarkEnd}
    (hb : ∀ before, b ∈ g.bookmarkEndsIn holder before) (before : Option Handle) :
    b ∈ (f ++ g).bookmarkEndsIn holder before := by
  induction f generalizing before with
  | nil => exact hb before
  | cons e inside rest _ ih =>
    rw [cons_append, bookmarkEndsIn_cons]
    exact List.mem_append_right _ (List.mem_append_right _ (ih _))

theorem AllMarks.everyParagraph_eq (hf : f.AllMarks) : f.everyParagraph = [] := by
  induction hf with
  | nil => rfl
  | start name id _ ih => exact ih
  | stop id _ ih => exact ih

/-- Start marks open in the first paragraph behind them. -/
theorem AllMarks.mem_bookmarksIn (hf : f.AllMarks) (hm : (name, id) ∈ f.starts) (g : Forest) :
    ⟨name, id, g.everyParagraph.head?⟩ ∈ (f ++ g).bookmarksIn none := by
  induction hf with
  | nil => simp at hm
  | start other key hrest ih =>
    rw [cons_append, bookmarksIn_cons, List.mem_append, List.mem_append]
    rw [starts_cons, List.mem_append] at hm
    rcases hm with hm | hm
    · obtain ⟨rfl, rfl⟩ : name = other ∧ id = key := by simpa [Element.opens] using hm
      exact .inl (by simp [Element.opens, hrest.everyParagraph_eq])
    · exact .inr (.inr (ih hm))
  | stop key _ ih =>
    rw [cons_append, bookmarksIn_cons]
    exact List.mem_append_right _ (List.mem_append_right _ (ih (by simpa [Element.opens] using hm)))

/-- End marks close in the last paragraph in front of them. -/
theorem AllMarks.mem_bookmarkEndsIn (hf : f.AllMarks) (hm : id ∈ f.stops) (g : Forest)
    (before : Option Handle) : ⟨id, before⟩ ∈ (f ++ g).bookmarkEndsIn none before := by
  induction hf with
  | nil => simp at hm
  | start name key _ ih =>
    rw [cons_append, bookmarkEndsIn_cons]
    have hm := ih (by simpa [Element.closes] using hm)
    exact List.mem_append_right _ (List.mem_append_right _ hm)
  | stop key _ ih =>
    rw [cons_append, bookmarkEndsIn_cons, List.mem_append, List.mem_append]
    rw [stops_cons, List.mem_append] at hm
    rcases hm with hm | hm
    · obtain rfl : id = key := by simpa [Element.closes] using hm
      exact .inl (by simp [Element.closes])
    · exact .inr (.inr (ih hm))

/-- What closes behind paragraphs, whatever stands in front of them, closes in the last of them. -/
theorem mem_bookmarkEndsIn_join {news : List Paragraph} {q : Paragraph} {b : BookmarkEnd}
    (hq : news.getLast? = some q) (hb : b ∈ g.bookmarkEndsIn none (some q.handle))
    (before : Option Handle) :
    b ∈ (join (news.map Paragraph.tree) ++ g).bookmarkEndsIn none before := by
  induction news generalizing before with
  | nil => cases hq
  | cons first rest ih =>
    rw [List.map_cons, join_cons, append_assoc, tree_append, bookmarkEndsIn_cons]
    refine List.mem_append_right _ (List.mem_append_right _ ?_)
    cases rest with
    | nil =>
      obtain rfl := Option.some.inj hq
      exact hb
    | cons second rest => exact ih (by simpa using hq) _

/-! ## Marks of a rewritten forest -/

theorem holderInside_other {e : Element} (he : e.isParagraph = false) :
    holderInside e holder = holder := by
  cases e <;> simp_all [holderInside, Element.isParagraph]

section
variable {r : Paragraph → Forest} {p : Paragraph} (hp : p ∈ f.paragraphs)
include hp

theorem mem_bookmarksIn_rewrite {b : Bookmark} (hb : ∀ g, b ∈ (r p ++ g).bookmarksIn none) :
    b ∈ (f.rewrite r).bookmarksIn none := by
  induction f using paragraphInduction with
  | nil => cases hp
  | paragraph q rest _ ih =>
    rw [rewrite_cons_paragraph]
    rcases List.mem_cons.1 hp with rfl | hp
    · exact hb _
    · exact mem_bookmarksIn_append (ih hp)
  | other e inside rest he ihi ihr =>
    rw [paragraphs_cons_other _ _ he, List.mem_append] at hp
    rw [rewrite_cons_other _ _ he, bookmarksIn_cons, holderInside_other he,
      List.mem_append, List.mem_append]
    exact .inr (hp.imp ihi ihr)

theorem mem_bookmarkEndsIn_rewrite {b : BookmarkEnd}
    (hb : ∀ g before, b ∈ (r p ++ g).bookmarkEndsIn none before) (before : Option Handle) :
    b ∈ (f.rewrite r).bookmarkEndsIn none before := by
  induction f using paragraphInduction generalizing before with
  | nil => cases hp
  | paragraph q rest _ ih =>
    rw [rewrite_cons_paragraph]
    rcases List.mem_cons.1 hp with rfl | hp
    · exact hb _ _
    · exact mem_bookmarkEndsIn_append (ih hp) _
  | other e inside rest he ihi ihr =>
    rw [paragraphs_cons_other _ _ he, List.mem_append] at hp
    rw [rewrite_cons_other _ _ he, bookmarkEndsIn_cons, holderInside_other he,
      List.mem_append, List.mem_append]
    exact .inr (hp.imp (fun h => ihi h _) fun h => ihr h _)

end

/-! ## Bookmarks told by their marks -/

section
variable {p : Paragraph} (hp : p ∈ f.paragraphs)
include hp

theorem mem_bookmarks_of_elements (hm : .bookmarkStart name id ∈ p.content.elements) :
    ⟨name, id, some p.handle⟩ ∈ f.bookmarks := by
  rw [bookmarks, ← f.rewrite_self]
  refine mem_bookmarksIn_rewrite hp fun g => ?_
  rw [tree_append, bookmarksIn_cons]
  exact List.mem_append_right _
    (List.mem_append_left _ (mem_bookmarksIn_of_elements hm p.handle))

theorem mem_bookmarkEnds_of_elements (hm : .bookmarkEnd id ∈ p.content.elements) :
    ⟨id, some p.handle⟩ ∈ f.bookmarkEnds := by
  rw [bookmarkEnds, ← f.rewrite_self]
  refine mem_bookmarkEndsIn_rewrite hp (fun g before => ?_) none
  rw [tree_append, bookmarkEndsIn_cons]
  exact List.mem_append_right _
    (List.mem_append_left _ (mem_bookmarkEndsIn_of_elements hm p.handle none))

end

theorem find?_bookmarks_of_count {b : Bookmark} (hb : b ∈ f.bookmarks)
    (hc : (f.starts.map Prod.fst).count b.name = 1) :
    f.bookmarks.find? (fun other => other.name == b.name) = some b := by
  refine find?_of_count hb ?_
  rwa [← map_bookmarksIn none, List.map_map] at hc

theorem find?_bookmarkEnds_of_count {stop : BookmarkEnd} (hs : stop ∈ f.bookmarkEnds)
    (hc : f.stops.count stop.id = 1) :
    f.bookmarkEnds.find? (fun other => other.id == stop.id) = some stop :=
  find?_of_count hs (by rwa [← map_bookmarkEndsIn none none] at hc)

/-- A bookmark whose end is not in front of its start covers what is between them. -/
theorem bookmarkRange_eq_slice {a z : Handle} (ha : a ∈ f.listed) (hz : z ∈ f.listed)
    (hle : f.listed.idxOf a ≤ f.listed.idxOf z) (hstop : ⟨id, some z⟩ ∈ f.bookmarkEnds)
    (hc : f.stops.count id = 1) :
    f.bookmarkRange ⟨name, id, some a⟩ = slice f.listed (f.listed.idxOf a) (f.listed.idxOf z) := by
  have hlisted : f.paragraphs.map (·.handle) = f.listed := rfl
  simp only [bookmarkRange, find?_bookmarkEnds_of_count hstop hc, Option.bind_some,
    Option.getD_some, hlisted, findIdx?_beq ha, findIdx?_beq hz, max_eq_right hle]

end Forest

end Redline
