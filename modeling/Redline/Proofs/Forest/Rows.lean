import Mathlib.Data.List.DropRight
import Redline.Proofs.Forest.Neighbours
import Redline.Proofs.Forest.Wrapping

/-!
# Rows of paragraphs

Consecutive paragraphs that stand directly in a forest make a row: between them stand elements in
which no paragraph is listed, such as marks.  When they are gathered in one element, at the place of
the first of them, what stood between them is left behind that element.

A bookmark keeps its range when a row is gathered, unless one of its marks is left behind, or it
closes in the last paragraph of the row from behind, and that paragraph has a text box.

## Main definitions

* `Forest.Row` — paragraphs with what stands in front of each of them.
* `Forest.amid` — what stands between the paragraphs of a range.
* `Forest.Disturbed` — a bookmark with a mark between the paragraphs of a range.
* `Forest.ClosesBehind` — a bookmark that closes in the last paragraph of a range, from behind.

## Main results

* `Forest.exists_row` — consecutive paragraphs make a row.
* `Forest.rewrite_wrapping` — what wrapping a row makes of the forest.
* `Row.mem_bookmarks_gathered`, `Row.bookmarkRange_gathered` — the bookmarks when a row is gathered.
-/

namespace Redline

namespace Forest

variable {f front behind row between gap inside : Forest} {p q : Paragraph} {ps : List Paragraph}
  {range : List Handle} {h first : Handle} {b : Bookmark} {id : String}
  {before before' : Option Handle} {e : Element}

/-! ## What stands between -/

/-- The paragraphs that stand directly in a forest are not in the range. -/
def outside (range : List Handle) (f : Forest) : Bool := decide (∀ h ∈ f.ownParagraphs, h ∉ range)

/-- What stands directly between the paragraphs of a range. -/
def amid (range : List Handle) (f : Forest) : Forest :=
  join (((f.trees.dropWhile (outside range)).rdropWhile (outside range)).filter (outside range))

/-- A mark of the bookmark stands directly between the paragraphs of the range, or one of several
ends with its id stands anywhere between them. -/
def Disturbed (f : Forest) (range : List Handle) (b : Bookmark) : Prop :=
  b.start ∈ (f.amid range).elements ∨ b.stop ∈ (f.amid range).elements ∨
    (b.id ∈ (f.amid range).stops ∧ 1 < f.stops.count b.id)

instance (f : Forest) (range : List Handle) (b : Bookmark) : Decidable (f.Disturbed range b) :=
  inferInstanceAs (Decidable (_ ∨ _))

/-- The bookmark closes in the last paragraph of the range, with its end behind that paragraph, and
there is a text box in the paragraph. -/
def ClosesBehind (f : Forest) (range : List Handle) (b : Bookmark) : Prop :=
  ∃ p ∈ f.paragraphs, range.getLast? = some p.handle ∧ f.closing b.id = some p.handle ∧
    b.id ∉ p.content.stops ∧ p.content.everyParagraph ≠ []

instance (f : Forest) (range : List Handle) (b : Bookmark) : Decidable (f.ClosesBehind range b) :=
  inferInstanceAs (Decidable (∃ _ ∈ _, _))

/-- Paragraphs one behind the other, each with elements in front of it in which no paragraph is
listed; `between` is all of these. -/
inductive Row : List Paragraph → Forest → Forest → Prop
  | nil : Row [] .nil .nil
  | cons {p : Paragraph} {ps : List Paragraph} {gap between row : Forest} :
      gap.paragraphs = [] → Row ps between row →
        Row (p :: ps) (gap ++ between) (gap ++ (p.tree ++ row))

@[simp] theorem trees_append (f g : Forest) : (f ++ g).trees = f.trees ++ g.trees := by
  induction f with
  | nil => rfl
  | cons e inside rest _ ih => simp [trees, ih]

theorem join_trees (f : Forest) : join f.trees = f := by
  induction f with
  | nil => rfl
  | cons e inside rest _ ih => rw [trees, join_cons, ih, single, cons_append, nil_append]

theorem trees_tree (p : Paragraph) : p.tree.trees = [p.tree] := rfl

theorem outside_tree : outside range p.tree = decide (p.handle ∉ range) := by
  simp [outside, ownParagraphs_eq]

theorem outside_of_mem_trees (hf : ∀ h ∈ f.listed, h ∉ range) :
    ∀ tree ∈ f.trees, outside range tree = true := by
  induction f using paragraphInduction with
  | nil => nofun
  | paragraph p rest _ ih =>
    obtain ⟨hfirst, hrest⟩ := List.forall_mem_cons.1 hf
    refine List.forall_mem_cons.2 ⟨?_, ih hrest⟩
    exact outside_tree.trans (decide_eq_true hfirst)
  | other e inside rest he _ ih =>
    rw [listed_cons_other _ _ he, List.forall_mem_append] at hf
    refine List.forall_mem_cons.2 ⟨?_, ih hf.2⟩
    simp [outside, ownParagraphs_eq, single, own_cons_other _ _ he]

theorem mem_bookmarksIn_tree_append :
    b ∈ (p.tree ++ f).bookmarksIn none ↔
      b ∈ p.content.bookmarksIn (some p.handle) ∨ b ∈ f.bookmarksIn none := by
  rw [tree_append, bookmarksIn_cons, Paragraph.opens_element, List.map_nil, List.nil_append,
    List.mem_append]
  rfl

/-! ## Consecutive paragraphs -/

/-- A paragraph that stands directly in a forest parts it. -/
theorem exists_tree_of_own (hh : h ∈ f.ownParagraphs) :
    ∃ (front : Forest) (p : Paragraph) (behind : Forest),
      f = front ++ (p.tree ++ behind) ∧ p.handle = h := by
  rw [ownParagraphs_eq] at hh
  induction f using paragraphInduction with
  | nil => cases hh
  | paragraph p rest _ ih =>
    rw [own_cons_paragraph, List.map_cons, List.mem_cons] at hh
    rcases hh with rfl | hh
    · exact ⟨.nil, p, rest, by rw [nil_append, tree_append], rfl⟩
    · obtain ⟨front, q, behind, rfl, hq⟩ := ih hh
      exact ⟨.cons p.element p.content front, q, behind, rfl, hq⟩
  | other e inside rest he _ ih =>
    rw [own_cons_other _ _ he] at hh
    obtain ⟨front, q, behind, rfl, hq⟩ := ih hh
    exact ⟨.cons e inside front, q, behind, rfl, hq⟩

/-- It does so at its place among the listed paragraphs. -/
theorem exists_tree_of_listed (hn : f.listed.Nodup) (hh : h ∈ f.ownParagraphs)
    {left right : List Handle} (hl : f.listed = left ++ h :: right) :
    ∃ (front : Forest) (p : Paragraph) (behind : Forest), f = front ++ (p.tree ++ behind) ∧
      p.handle = h ∧ front.listed = left ∧ behind.listed = right ∧
        ∀ k ∈ right, k ∈ f.ownParagraphs → k ∈ behind.ownParagraphs := by
  obtain ⟨front, p, behind, rfl, rfl⟩ := exists_tree_of_own hh
  rw [listed_append, listed_append, listed_tree, List.singleton_append] at hn hl
  obtain ⟨-, hright, hdisjoint⟩ := List.nodup_append.1 hn
  have hfront : p.handle ∉ front.listed := fun hm => hdisjoint _ hm _ List.mem_cons_self rfl
  have hbehind : p.handle ∉ behind.listed := (List.nodup_cons.1 hright).1
  obtain ⟨rfl, -, rfl⟩ := (List.append_cons_inj_of_notMem hfront hbehind).1 hl
  refine ⟨front, p, behind, rfl, rfl, rfl, rfl, fun k hk hown => ?_⟩
  rw [ownParagraphs_eq, own_append, own_append, own_tree, List.map_append, List.map_append,
    List.mem_append, List.mem_append] at hown
  rcases hown with hown | hown | hown
  · have hown := ((own_sublist_paragraphs front).map _).subset hown
    exact absurd rfl (hdisjoint k hown k (List.mem_cons_of_mem _ hk))
  · rw [List.map_singleton, List.mem_singleton] at hown
    exact absurd (hown ▸ hk) hbehind
  · rwa [ownParagraphs_eq]

/-- The first paragraphs of a forest make a row if they stand directly in it. -/
theorem exists_row_of_prefix (hn : f.listed.Nodup) (hp : range <+: f.listed)
    (hown : ∀ h ∈ range, h ∈ f.ownParagraphs) :
    ∃ (ps : List Paragraph) (between row behind : Forest),
      f = row ++ behind ∧ Row ps between row ∧ ps.map (·.handle) = range := by
  induction range generalizing f with
  | nil => exact ⟨[], .nil, .nil, f, rfl, .nil, rfl⟩
  | cons h rest ih =>
    obtain ⟨tail, hl⟩ := hp
    obtain ⟨hfirst, hrest⟩ := List.forall_mem_cons.1 hown
    have hsplit : f.listed = [] ++ h :: (rest ++ tail) := hl.symm
    obtain ⟨gap, p, f', rfl, rfl, hgap, hlisted, hbehind⟩ := exists_tree_of_listed hn hfirst hsplit
    rw [listed_append, listed_append] at hn
    have hn' := (List.nodup_append.1 (List.nodup_append.1 hn).2.1).2.1
    obtain ⟨ps, between, row, behind, rfl, hrow, rfl⟩ := ih hn' ⟨tail, hlisted.symm⟩ fun k hk =>
      hbehind k (List.mem_append_left _ hk) (hrest k hk)
    exact ⟨p :: ps, _, _, behind, by simp only [append_assoc],
      .cons (List.map_eq_nil_iff.1 hgap) hrow, rfl⟩

/-- Consecutive paragraphs that stand directly in a forest make a row behind the first of them. -/
theorem exists_row {others : List Handle} (hn : f.listed.Nodup) (hs : first :: others <:+: f.listed)
    (hown : ∀ h ∈ first :: others, h ∈ f.ownParagraphs) :
    ∃ (front : Forest) (p : Paragraph) (ps : List Paragraph) (between row behind : Forest),
      f = front ++ (p.tree ++ (row ++ behind)) ∧ Row ps between row ∧ p.handle = first ∧
        ps.map (·.handle) = others := by
  obtain ⟨left, tail, hl⟩ := hs
  rw [List.append_assoc, List.cons_append] at hl
  obtain ⟨hfirst, hothers⟩ := List.forall_mem_cons.1 hown
  obtain ⟨front, p, f', rfl, hp, -, hlisted, hbehind⟩ := exists_tree_of_listed hn hfirst hl.symm
  rw [listed_append, listed_append] at hn
  have hn' := (List.nodup_append.1 (List.nodup_append.1 hn).2.1).2.1
  obtain ⟨ps, between, row, behind, rfl, hrow, hps⟩ :=
    exists_row_of_prefix hn' ⟨tail, hlisted.symm⟩ fun k hk =>
      hbehind k (List.mem_append_left _ hk) (hothers k hk)
  exact ⟨front, p, ps, between, row, behind, rfl, hrow, hp, hps⟩

namespace Row

/-! ## What a row consists of -/

variable (hrow : Row ps between row)
include hrow

theorem paragraphs_eq : row.paragraphs = ps := by
  induction hrow with
  | nil => rfl
  | cons hgap _ ih => simp [hgap, ih]

theorem own_eq : row.own = ps := by
  induction hrow with
  | nil => rfl
  | @cons q rest gap between row hgap _ ih =>
    have hown : gap.own = [] := List.sublist_nil.1 (hgap ▸ own_sublist_paragraphs gap)
    simp [hown, ih]

theorem paragraphs_between : between.paragraphs = [] := by
  induction hrow with
  | nil => rfl
  | cons hgap _ ih => simp [hgap, ih]

theorem count_stops (id : String) :
    row.stops.count id =
      between.stops.count id + (join (ps.map Paragraph.tree)).stops.count id := by
  induction hrow with
  | nil => rfl
  | cons hgap _ ih =>
    simp only [stops_append, List.count_append, List.map_cons, join_cons, ih]
    omega

/-- A search backwards from behind a row finds its last paragraph. -/
theorem passed_eq (p : Paragraph) :
    row.passed (some p.handle) = (p :: ps).getLast?.map (·.handle) := by
  induction hrow generalizing p with
  | nil => rfl
  | cons hgap _ ih =>
    rw [passed_append, passed_of_everyParagraph_eq_nil _ (everyParagraph_eq_nil_iff.2 hgap),
      passed_append, passed_tree, ih, List.getLast?_cons_cons]

/-- What is left of a row when its paragraphs are taken out. -/
theorem rewrite_eq {r : Paragraph → Forest} (hr : ∀ q ∈ ps, r q = .nil) :
    row.rewrite r = between := by
  induction hrow with
  | nil => rfl
  | cons hgap _ ih =>
    obtain ⟨hfirst, hrest⟩ := List.forall_mem_cons.1 hr
    rw [rewrite_append, rewrite_append, rewrite_tree, rewrite_of_paragraphs_eq hgap, hfirst,
      nil_append, ih hrest]

/-- A row ends with a paragraph. -/
theorem exists_last (p : Paragraph) :
    ∃ init, ∃ q ∈ p :: ps, p.tree :: row.trees = init ++ [q.tree] := by
  induction hrow generalizing p with
  | nil => exact ⟨[], p, List.mem_cons_self, rfl⟩
  | @cons q rest gap between row _ _ ih =>
    obtain ⟨init, last, hlast, hinit⟩ := ih q
    refine ⟨p.tree :: (gap.trees ++ init), last, List.mem_cons_of_mem _ hlast, ?_⟩
    rw [trees_append, trees_append, List.cons_append, List.append_assoc, ← hinit]
    rfl

theorem filter_outside (hps : ∀ q ∈ ps, q.handle ∈ range) :
    row.trees.filter (outside range) = between.trees := by
  induction hrow with
  | nil => rfl
  | @cons q rest gap between row hgap _ ih =>
    obtain ⟨hfirst, hrest⟩ := List.forall_mem_cons.1 hps
    have hgaps : gap.trees.filter (outside range) = gap.trees :=
      List.filter_eq_self.2 (outside_of_mem_trees fun h hh => by simp [Forest.listed, hgap] at hh)
    have htree : q.tree.trees.filter (outside range) = [] := by
      simp [trees_tree, outside_tree, hfirst]
    rw [trees_append, trees_append, List.filter_append, List.filter_append, hgaps, htree, ih hrest,
      trees_append, List.nil_append]

/-! ## Marks of a row -/

/-- What opens in a row opens in one of its paragraphs, or its start stands between them. -/
theorem mem_bookmarksIn (hstart : b.start ∉ between.elements)
    (hb : b ∈ (row ++ behind).bookmarksIn none) :
    b ∈ (join (ps.map Paragraph.tree)).bookmarksIn none ∨
      b ∈ (between ++ behind).bookmarksIn none := by
  induction hrow with
  | nil => exact .inr hb
  | @cons q rest gap between row _ _ ih =>
    rw [elements_append, List.mem_append, not_or] at hstart
    rw [append_assoc, append_assoc] at hb
    rw [append_assoc, List.map_cons, join_cons]
    have hnext : b.start ∈ gap.elements → (q.tree ++ (row ++ behind)).everyParagraph.head? =
        (between ++ behind).everyParagraph.head? := fun he => absurd he hstart.1
    rcases mem_bookmarksIn_append_or hnext hb with hb | hb
    · exact .inr hb
    · rw [mem_bookmarksIn_tree_append] at hb ⊢
      rcases hb with hb | hb
      · exact .inl (.inl hb)
      · exact (ih hstart.2 hb).imp .inr mem_bookmarksIn_append

/-- Where no end stands between the paragraphs of a row, the ends are those in the paragraphs. -/
theorem closers_of_notMem_between (hid : id ∉ between.stops) :
    row.closers id before = (join (ps.map Paragraph.tree)).closers id before' := by
  induction hrow generalizing before before' with
  | nil => rfl
  | cons hgap _ ih =>
    rw [stops_append, List.mem_append, not_or] at hid
    rw [closers_append, closers_eq_nil_iff.2 hid.1, List.nil_append, closers_append, List.map_cons,
      join_cons, closers_append, ih hid.2]
    rfl

/-- Where no end stands in the paragraphs of a row, the ends are those between them. -/
theorem closers_of_notMem_paragraphs (hid : id ∉ (join (ps.map Paragraph.tree)).stops)
    (hstop : .bookmarkEnd id ∉ between.elements) :
    row.closers id before = between.closers id before' := by
  induction hrow generalizing before before' with
  | nil => rfl
  | @cons q rest gap between row hgap _ ih =>
    rw [List.map_cons, join_cons, stops_append, List.mem_append, not_or] at hid
    rw [elements_append, List.mem_append, not_or] at hstop
    rw [closers_append, closers_append, closers_eq_nil_iff.2 hid.1, List.nil_append, closers_append,
      closers_congr hstop.1, ih hid.2 hstop.2]

end Row

/-! ## Gathering a row -/

section
variable (hrow : Row ps between row) (hn : (front ++ (p.tree ++ (row ++ behind))).listed.Nodup)
  (hrange : (p :: ps).map (·.handle) = range)
include hrow hn hrange

/-- The range has no paragraphs but those of the row, and none of them twice. -/
theorem notMem_range : p.handle ∉ ps.map (·.handle) ∧ (∀ h ∈ front.listed, h ∉ range) ∧
    ∀ h ∈ behind.listed, h ∉ range := by
  have hlisted : row.listed = ps.map (·.handle) := congrArg (List.map _) hrow.paragraphs_eq
  rw [listed_append, listed_append, listed_append, listed_tree, hlisted, ← List.append_assoc [_],
    List.singleton_append, ← List.map_cons] at hn
  obtain ⟨-, hright, hfront⟩ := List.nodup_append.1 hn
  obtain ⟨hdistinct, -, hbehind⟩ := List.nodup_append.1 hright
  rw [← hrange]
  refine ⟨(List.nodup_cons.1 hdistinct).1, fun h hh hm => ?_, fun h hh hm => hbehind h hm h hh rfl⟩
  exact hfront h hh h (List.mem_append_left _ hm) rfl

omit hrow hn in
theorem mem_range (hq : q ∈ p :: ps) : q.handle ∈ range := hrange ▸ List.mem_map_of_mem hq

theorem amid_eq : (front ++ (p.tree ++ (row ++ behind))).amid range = between := by
  obtain ⟨-, hfront, hbehind⟩ := notMem_range hrow hn hrange
  have hin : ∀ q ∈ p :: ps, outside range q.tree = false := fun q hq =>
    outside_tree.trans (decide_eq_false (not_not.2 (mem_range hrange hq)))
  have hp := hin p List.mem_cons_self
  obtain ⟨init, last, hlast, hinit⟩ := hrow.exists_last p
  have hdrop : (front ++ (p.tree ++ (row ++ behind))).trees.dropWhile (outside range) =
      init ++ [last.tree] ++ behind.trees := by
    rw [trees_append, List.dropWhile_append_of_pos (outside_of_mem_trees hfront), trees_append,
      trees_append, trees_tree, ← hinit, List.singleton_append, List.cons_append,
      List.dropWhile_cons_of_neg (by simp [hp])]
  have hrdrop : (init ++ [last.tree] ++ behind.trees).rdropWhile (outside range) =
      init ++ [last.tree] := by
    rw [List.rdropWhile, List.reverse_append, List.dropWhile_append_of_pos, List.reverse_append,
      List.reverse_singleton, List.singleton_append, List.dropWhile_cons_of_neg]
    · simp
    · simp [hin last hlast]
    · exact fun tree ht => outside_of_mem_trees hbehind tree (List.mem_reverse.1 ht)
  rw [amid, hdrop, hrdrop, ← hinit, List.filter_cons_of_neg (by simp [hp]),
    hrow.filter_outside fun q hq => mem_range hrange (List.mem_cons_of_mem _ hq), join_trees]

/-- When a row is wrapped, what wraps it takes the place of its first paragraph. -/
theorem rewrite_wrapping (wrapped : Forest) :
    (front ++ (p.tree ++ (row ++ behind))).rewrite (wrapping p.handle range wrapped) =
      front ++ (wrapped ++ (between ++ behind)) := by
  obtain ⟨hfirst, hfront, hbehind⟩ := notMem_range hrow hn hrange
  have hp : p.handle ∈ range := mem_range hrange List.mem_cons_self
  have hout : ∀ f : Forest, (∀ h ∈ f.listed, h ∉ range) →
      f.rewrite (wrapping p.handle range wrapped) = f := fun f hf => by
    rw [rewrite_congr (s := Paragraph.tree), rewrite_self]
    intro q hq
    have hnot := hf q.handle (List.mem_map_of_mem hq)
    have hne : q.handle ≠ p.handle := fun he => hnot (he ▸ hp)
    rw [wrapping, if_neg hne, if_neg hnot, nil_append]
  have hrest : ∀ q ∈ ps, wrapping p.handle range wrapped q = .nil := by
    intro q hq
    have hne : q.handle ≠ p.handle := fun he => hfirst (he ▸ List.mem_map_of_mem hq)
    rw [wrapping, if_neg hne, if_pos (mem_range hrange (List.mem_cons_of_mem _ hq)), nil_append]
  have hwrapped : wrapping p.handle range wrapped p = wrapped := by
    rw [wrapping, if_pos rfl, if_pos hp, append_nil]
  rw [rewrite_append, rewrite_append, rewrite_append, rewrite_tree, hout _ hfront, hout _ hbehind,
    hwrapped, hrow.rewrite_eq hrest]

end

/-- Paragraphs gathered in a content control. -/
def gathered (control : Handle) (properties : Option ControlProperties) (ps : List Paragraph) :
    Forest :=
  single (.control control properties) (join (ps.map Paragraph.tree))

section
variable {control : Handle} {properties : Option ControlProperties}

theorem paragraphs_gathered : (gathered control properties ps).paragraphs = ps :=
  paragraphs_wrapped rfl

theorem bookmarksIn_gathered_append :
    (gathered control properties ps ++ f).bookmarksIn none =
      (join (ps.map Paragraph.tree)).bookmarksIn none ++ f.bookmarksIn none := rfl

theorem closers_gathered_append :
    (gathered control properties ps ++ f).closers id before =
      (join (ps.map Paragraph.tree)).closers id none ++
        f.closers id ((join (ps.map Paragraph.tree)).everyParagraph.getLast? <|> before) := by
  rw [gathered, single, cons_append, nil_append, closers_cons_other rfl, if_neg (by simp),
    List.nil_append]

theorem mem_stops_join (hq : q ∈ ps) (hid : id ∈ q.content.stops) :
    id ∈ (join (ps.map Paragraph.tree)).stops := by
  rw [stops, collect_join]
  refine List.mem_flatMap.2 ⟨q.tree, List.mem_map_of_mem hq, ?_⟩
  simpa [Paragraph.tree, single, stops] using hid

/-- The last of all paragraphs is the last one of a row, or in a text box of it. -/
theorem exists_getLast?_join (init : List Paragraph) (last : Paragraph) :
    ∃ z, (join ((init ++ [last]).map Paragraph.tree)).everyParagraph.getLast? = some z ∧
      (z = last.handle ∨ z ∈ last.content.everyParagraph) := by
  rw [everyParagraph_eq, paragraphs_join_tree, List.flatMap_append, List.flatMap_singleton,
    List.getLast?_append_of_ne_nil _ (List.cons_ne_nil _ _)]
  obtain ⟨z, hz⟩ := Option.ne_none_iff_exists'.1 fun h =>
    List.cons_ne_nil last.handle last.content.everyParagraph (List.getLast?_eq_none_iff.1 h)
  exact ⟨z, hz, List.mem_cons.1 (List.mem_of_getLast? hz)⟩

namespace Row

variable (hrow : Row ps between row)
include hrow

/-- A bookmark opens where it opened when the row is gathered, unless its start is left behind. -/
theorem mem_bookmarks_gathered (hstart : b.start ∉ between.elements)
    (hb : b ∈ (front ++ (p.tree ++ (row ++ behind))).bookmarks) :
    b ∈ (front ++ (gathered control properties (p :: ps) ++ (between ++ behind))).bookmarks := by
  -- In front of the row nothing changes, since the row still begins with the same paragraph.
  have hnext : (p.tree ++ (row ++ behind)).everyParagraph.head? =
      (gathered control properties (p :: ps) ++ (between ++ behind)).everyParagraph.head? := rfl
  refine (mem_bookmarksIn_append_or (fun _ => hnext) hb).elim id fun hb => mem_bookmarksIn_append ?_
  rw [bookmarksIn_gathered_append, List.mem_append, List.map_cons, join_cons,
    mem_bookmarksIn_tree_append]
  rcases mem_bookmarksIn_tree_append.1 hb with hb | hb
  · exact .inl (.inl hb)
  · exact (hrow.mem_bookmarksIn hstart hb).imp_left .inr

/-- The ends in a row are the same when it is gathered, and in the same order, if none of them
stands directly between the paragraphs. -/
theorem closers_eq (before before' : Option Handle) (hstop : .bookmarkEnd id ∉ between.elements)
    (hone : id ∈ between.stops → id ∉ (join ((p :: ps).map Paragraph.tree)).stops) :
    (p.tree ++ row).closers id before =
      (join ((p :: ps).map Paragraph.tree)).closers id none ++ between.closers id before' := by
  rw [closers_append, closers_tree]
  by_cases hid : id ∈ between.stops
  · have hnone := hone hid
    rw [closers_eq_nil_iff.2 hnone]
    rw [List.map_cons, join_cons, stops_append, List.mem_append, not_or] at hnone
    rw [closers_eq_nil_iff.2 hnone.1, hrow.closers_of_notMem_paragraphs hnone.2 hstop]
  · rw [closers_eq_nil_iff.2 hid, List.append_nil, List.map_cons, join_cons, closers_append,
      hrow.closers_of_notMem_between hid]

/-- A bookmark closes where it closed when the row is gathered, or it closed in the last paragraph
of the row from behind, and now it closes in a text box there. -/
theorem closing_gathered (hstop : .bookmarkEnd id ∉ between.elements)
    (hone : id ∈ between.stops → id ∉ (join ((p :: ps).map Paragraph.tree)).stops) :
    (front ++ (gathered control properties (p :: ps) ++ (between ++ behind))).closing id =
        (front ++ (p.tree ++ (row ++ behind))).closing id ∨
      ∃ last, (p :: ps).getLast? = some last ∧ id ∉ last.content.stops ∧
        (front ++ (p.tree ++ (row ++ behind))).closing id = some last.handle ∧
        ∃ z ∈ last.content.everyParagraph,
          (front ++ (gathered control properties (p :: ps) ++ (between ++ behind))).closing id =
            some z := by
  obtain ⟨init, last, hlast⟩ :=
    (List.eq_nil_or_concat' (p :: ps)).resolve_left (List.cons_ne_nil _ _)
  have hgetLast : (p :: ps).getLast? = some last := by rw [hlast, List.getLast?_concat]
  have hpassed : (p.tree ++ row).passed (front.passed none) = some last.handle := by
    rw [passed_append, passed_tree, hrow.passed_eq, hgetLast, Option.map_some]
  have hbetween : ∀ before, between.passed before = before := fun before =>
    passed_of_everyParagraph_eq_nil before (everyParagraph_eq_nil_iff.2 hrow.paragraphs_between)
  obtain ⟨z, hz, hlastz⟩ := exists_getLast?_join init last
  rw [← hlast] at hz
  have hmiddle := hrow.closers_eq (front.passed none) (some z) hstop hone
  have hwas : (front ++ (p.tree ++ (row ++ behind))).closing id =
      (front.closers id none ++ (p.tree ++ row).closers id (front.passed none) ++
        behind.closers id (some last.handle)).head?.bind (·.closesIn) := by
    rw [closing_eq_head?, closers_append, ← append_assoc p.tree, closers_append (p.tree ++ row), hpassed,
      List.append_assoc]
  have hnow : (front ++ (gathered control properties (p :: ps) ++ (between ++ behind))).closing id =
      (front.closers id none ++ (p.tree ++ row).closers id (front.passed none) ++
        behind.closers id (some z)).head?.bind (·.closesIn) := by
    have hinside : ((join ((p :: ps).map Paragraph.tree)).everyParagraph.getLast? <|>
        front.passed none) = some z := by rw [hz]; rfl
    rw [closing_eq_head?, closers_append, closers_gathered_append, hinside, closers_append between,
      hbetween, hmiddle, List.append_assoc, List.append_assoc]
  rw [hwas, hnow]
  cases hprior : front.closers id none ++ (p.tree ++ row).closers id (front.passed none) with
  | cons stop rest => exact .inl rfl
  | nil =>
    -- The first end stands behind the row, so it may be resolved through the row.
    rcases closers_front id behind with hfixed | hfront
    · exact .inl (congrArg (Option.bind · _) (hfixed _ _))
    · rcases hlastz with rfl | hboxed
      · exact .inl rfl
      · refine .inr ⟨last, hgetLast, ?_, ?_, z, hboxed, ?_⟩
        · rw [hmiddle, List.append_eq_nil_iff, List.append_eq_nil_iff] at hprior
          exact fun hid => closers_eq_nil_iff.1 hprior.2.1
            (mem_stops_join (List.mem_of_getLast? hgetLast) hid)
        · rw [List.nil_append, hfront]
          rfl
        · rw [List.nil_append, hfront]
          rfl

/-- Gathering a row changes no paragraph. -/
theorem paragraphs_gathered :
    (front ++ (gathered control properties (p :: ps) ++ (between ++ behind))).paragraphs =
      (front ++ (p.tree ++ (row ++ behind))).paragraphs := by
  simp [Forest.paragraphs_gathered, hrow.paragraphs_between, hrow.paragraphs_eq]

/-- A bookmark keeps its range when a row is gathered, unless one of its marks stood between the
paragraphs.  Where it closed in the last of them from behind, only the first paragraph of the range
may be left. -/
theorem bookmarkRange_gathered (hn : (front ++ (p.tree ++ (row ++ behind))).handles.Nodup)
    (hrange : (p :: ps).map (·.handle) = range)
    (hb : ¬ (front ++ (p.tree ++ (row ++ behind))).Disturbed range b) :
    (front ++ (gathered control properties (p :: ps) ++ (between ++ behind))).bookmarkRange b =
        (front ++ (p.tree ++ (row ++ behind))).bookmarkRange b ∨
      (front ++ (p.tree ++ (row ++ behind))).ClosesBehind range b ∧
        (front ++ (gathered control properties (p :: ps) ++ (between ++ behind))).bookmarkRange b =
          ((front ++ (p.tree ++ (row ++ behind))).bookmarkRange b).take 1 := by
  have hlisted : (front ++ (gathered control properties (p :: ps) ++ (between ++ behind))).listed =
      (front ++ (p.tree ++ (row ++ behind))).listed :=
    congrArg (List.map _) hrow.paragraphs_gathered
  rw [Disturbed, amid_eq hrow (hn.sublist (listed_sublist_handles _)) hrange, not_or, not_or] at hb
  obtain ⟨-, hstop, hseveral⟩ := hb
  have hone : b.id ∈ between.stops → b.id ∉ (join ((p :: ps).map Paragraph.tree)).stops := by
    refine fun hbetween hpart => hseveral ⟨hbetween, ?_⟩
    have h₁ := List.count_pos_iff.2 hbetween
    have h₂ := List.count_pos_iff.2 hpart
    rw [List.map_cons, join_cons, stops_append, List.count_append] at h₂
    simp only [stops_append, List.count_append, hrow.count_stops]
    omega
  rcases hrow.closing_gathered hstop hone with hsame | ⟨last, hlast, hstops, hclosing, z, hz, hnow⟩
  · exact .inl (bookmarkRange_of_closing hlisted hsame)
  · have hparagraphs : (front ++ (p.tree ++ (row ++ behind))).paragraphs =
        front.paragraphs ++ ((p :: ps) ++ behind.paragraphs) := by simp [hrow.paragraphs_eq]
    have hmem : last ∈ (front ++ (p.tree ++ (row ++ behind))).paragraphs := hparagraphs ▸
      List.mem_append_right _ (List.mem_append_left _ (List.mem_of_getLast? hlast))
    have hnot : z ∉ (front ++ (p.tree ++ (row ++ behind))).listed := fun hl =>
      notMem_content hn hl hmem ((everyParagraph_sublist_handles _).subset hz)
    refine .inr ⟨⟨last, hmem, ?_, hclosing, hstops, List.ne_nil_of_mem hz⟩,
      bookmarkRange_of_closing_notMem hlisted hnot hnow⟩
    rw [← hrange, List.getLast?_map, hlast, Option.map_some]

end Row

end

end Forest

end Redline
