import Redline.Proofs.Document.Covering

/-!
# Marks and their neighbours

A mark between paragraphs belongs to one of its neighbours: a start to the first paragraph behind
it, an end to the last one in front of it.  So what stands beside a forest matters only to the marks
directly in it.

## Main definitions

* `Forest.closers` — the ends with a given id.

## Main results

* `Forest.mem_bookmarksIn_append_or` — bookmarks that keep their neighbour.
* `Forest.closers_front` — the first end closes in one paragraph, or in the last one in front.
* `Forest.bookmarkRange_of_closing` — a range changes only with the paragraph that the bookmark
  closes in.
-/

namespace Redline.Forest

variable {f g g' : Forest} {b : Bookmark} {id : String} {holder before before' : Option Handle}
  {e : Element} {p : Paragraph}

theorem everyParagraph_eq_nil_iff : f.everyParagraph = [] ↔ f.paragraphs = [] := by
  rw [everyParagraph_eq]
  cases f.paragraphs <;> simp

@[simp] theorem elements_append (f g : Forest) : (f ++ g).elements = f.elements ++ g.elements := by
  induction f with
  | nil => rfl
  | cons e inside rest _ ih => simp [elements, ih]

/-! ## Starts -/

/-- What stands behind a forest may change, as long as the first paragraph there stays the same or
the start is not directly in the forest. -/
theorem mem_bookmarksIn_append_or
    (hnext : b.start ∈ f.elements → g.everyParagraph.head? = g'.everyParagraph.head?)
    (hb : b ∈ (f ++ g).bookmarksIn holder) :
    b ∈ (f ++ g').bookmarksIn holder ∨ b ∈ g.bookmarksIn holder := by
  induction f with
  | nil => exact .inr hb
  | cons e inside rest _ ih =>
    rw [cons_append, bookmarksIn_cons, List.mem_append, List.mem_append] at hb ⊢
    rcases hb with hb | hb | hb
    · obtain ⟨s, hs, rfl⟩ := List.mem_map.1 hb
      have he : Element.bookmarkStart s.1 s.2 = e := by
        cases e with
        | bookmarkStart name id =>
          obtain rfl := List.mem_singleton.1 hs
          rfl
        | _ => cases hs
      have hhead := hnext (he ▸ List.mem_cons_self)
      refine .inl (.inl (List.mem_map.2 ⟨s, hs, ?_⟩))
      rw [everyParagraph_append, everyParagraph_append, List.head?_append, List.head?_append, hhead]
    · exact .inl (.inr (.inl hb))
    · refine (ih (fun he => hnext (List.mem_cons_of_mem _ he)) hb).imp_left fun hb => ?_
      exact .inr (.inr hb)

/-! ## Ends -/

/-- The ends with the given id, in document order; `before` is the last paragraph in front of the
forest. -/
def closers (id : String) (before : Option Handle) (f : Forest) : List BookmarkEnd :=
  (f.bookmarkEndsIn none before).filter fun stop => stop.id == id

theorem closers_cons_other (he : e.isParagraph = false) (inside rest : Forest) :
    (cons e inside rest).closers id before =
      (if e = .bookmarkEnd id then [⟨id, before⟩] else []) ++ (inside.closers id none ++
        rest.closers id (inside.everyParagraph.getLast? <|> before)) := by
  rw [closers, bookmarkEndsIn_cons, holderInside_other he, lastParagraph_other he,
    List.filter_append, List.filter_append]
  refine congrArg (· ++ _) ?_
  cases e with
  | bookmarkEnd key => by_cases hk : key = id <;> simp [Element.closes, hk]
  | _ => rfl

theorem closers_append (f g : Forest) :
    (f ++ g).closers id before = f.closers id before ++ g.closers id (f.passed before) := by
  rw [closers, bookmarkEndsIn_append, List.filter_append]
  rfl

/-- What closes in a paragraph does so whatever stands in front of it. -/
theorem closers_tree (p : Paragraph) (before : Option Handle) :
    p.tree.closers id before = p.tree.closers id none := rfl

theorem passed_append (f g : Forest) : (f ++ g).passed before = g.passed (f.passed before) := by
  induction f generalizing before with
  | nil => rfl
  | cons e inside rest _ ih => exact ih

theorem passed_tree (p : Paragraph) : p.tree.passed before = some p.handle := rfl

theorem closers_eq_nil_iff : f.closers id before = [] ↔ id ∉ f.stops := by
  rw [← map_bookmarkEndsIn none before f, closers, List.filter_eq_nil_iff, List.mem_map]
  simp only [beq_iff_eq, not_exists, not_and]

/-- What stands in front of a forest does not matter to an end that is not directly in it. -/
theorem closers_congr (h : .bookmarkEnd id ∉ f.elements) :
    f.closers id before = f.closers id before' := by
  induction f using paragraphInduction generalizing before before' with
  | nil => rfl
  | paragraph p rest _ _ => rfl
  | other e inside rest he _ ih =>
    rw [elements, List.mem_cons, not_or] at h
    rw [closers_cons_other he, closers_cons_other he, if_neg (Ne.symm h.1), if_neg (Ne.symm h.1),
      ih h.2]

/-- The first end with an id is either the same whatever stands in front of the forest, or it closes
in the last paragraph there. -/
theorem closers_front (id : String) (f : Forest) :
    (∀ before before', (f.closers id before).head? = (f.closers id before').head?) ∨
      ∀ before, (f.closers id before).head? = some ⟨id, before⟩ := by
  induction f using paragraphInduction with
  | nil => exact .inl fun _ _ => rfl
  | paragraph p rest _ _ => exact .inl fun _ _ => rfl
  | other e inside rest he _ ih =>
    simp only [closers_cons_other he]
    by_cases hstop : e = .bookmarkEnd id
    · exact .inr fun _ => by rw [if_pos hstop]; rfl
    · simp only [if_neg hstop, List.nil_append, List.head?_append]
      cases hlast : inside.everyParagraph.getLast? with
      | some q => exact .inl fun _ _ => rfl
      | none =>
        cases hin : (inside.closers id none).head? with
        | some stop => exact .inl fun _ _ => rfl
        | none => simpa using ih

/-! ## Ranges -/

theorem closing_eq_head? (id : String) (f : Forest) :
    f.closing id = (f.closers id none).head?.bind (·.closesIn) := by
  rw [closers, List.head?_filter, closing, bookmarkEnds]

theorem bookmarkRange_of_closing (hl : g.listed = f.listed) (hc : g.closing b.id = f.closing b.id) :
    g.bookmarkRange b = f.bookmarkRange b := by
  rw [bookmarkRange_eq_through, bookmarkRange_eq_through, hl, hc]

/-- A bookmark that now closes in a paragraph that is not listed keeps its first paragraph alone. -/
theorem bookmarkRange_of_closing_notMem (hl : g.listed = f.listed) {z : Handle} (hz : z ∉ f.listed)
    (hc : g.closing b.id = some z) : g.bookmarkRange b = (f.bookmarkRange b).take 1 := by
  rw [bookmarkRange_eq_through, bookmarkRange_eq_through, hl, hc, through_of_notMem hz]

end Redline.Forest
