import Redline.Proofs.Document.WellFormed
import Redline.Proofs.Forest.Enclosing
import Redline.Proofs.Forest.Order
import Redline.Proofs.Forest.TreeOrder

/-!
# What bookmarks cover

A bookmark covers the listed paragraphs that hold one of its marks or begin between them.  Its range
is found by looking for the first and the last of them, each from its own mark.  The search for the
last one fails in one place: behind a table or a content control that ends in a text box it finds
the paragraph of the text box, which is not listed, and the range has one paragraph only.

## Main definitions

* `Forest.covered` — the paragraphs that a bookmark covers.
* `Forest.closing` — the paragraph that a bookmark closes in.
* `Forest.Proper` — a bookmark with one start and one end, in this order, both in the open.
* `Forest.ClosesBehindBox` — the end mark stands behind a text box that ends an element.

## Main results

* `Forest.bookmarkRange_eq_covered` — the range of a bookmark is what it covers.
-/

namespace Redline

/-- The start mark of a bookmark. -/
def Bookmark.start (b : Bookmark) : Element := .bookmarkStart b.name b.id

/-- The end mark of a bookmark. -/
def Bookmark.stop (b : Bookmark) : Element := .bookmarkEnd b.id

namespace Forest

variable {f : Forest} {b : Bookmark}

/-- The paragraph holds one of the marks of the bookmark or begins between them. -/
def Covers (f : Forest) (b : Bookmark) (p : Paragraph) : Prop :=
  b.start ∈ p.content.everyElement ∨ b.stop ∈ p.content.everyElement ∨
    (f.Precedes b.start p.element ∧ f.Precedes p.element b.stop)

instance (f : Forest) (first second : Element) : Decidable (f.Precedes first second) :=
  inferInstanceAs (Decidable (_ < _))

instance (f : Forest) (b : Bookmark) (p : Paragraph) : Decidable (f.Covers b p) :=
  inferInstanceAs (Decidable (_ ∨ _))

/-- The listed paragraphs that the bookmark covers, in document order. -/
def covered (f : Forest) (b : Bookmark) : List Handle :=
  (f.paragraphs.filter fun p => f.Covers b p).map (·.handle)

/-- A bookmark of the document whose id stands on one start and one end, the start before the end;
each of the two is an inline of a listed paragraph or a child of the body. -/
structure Proper (f : Forest) (b : Bookmark) : Prop where
  given : b ∈ f.bookmarks
  oneStart : (f.starts.map (·.2)).count b.id = 1
  oneStop : f.stops.count b.id = 1
  ordered : f.Precedes b.start b.stop
  start : f.InTheOpen b.start
  stop : f.InTheOpen b.stop

/-- The last element that has paragraphs is none itself, and the last of its paragraphs is not the
last of those that are listed: it stands in a text box. -/
def endsInBox : Forest → Bool
  | .nil => false
  | .cons e inside rest =>
    if rest.everyParagraph = [] then
      !e.isParagraph && inside.everyParagraph.getLast? != inside.listed.getLast?
    else rest.endsInBox

/-- The end mark is a child of the body behind an element that ends in a text box. -/
def ClosesBehindBox (f : Forest) (b : Bookmark) : Prop :=
  ∃ front behind, f = front ++ .cons b.stop .nil behind ∧ front.endsInBox = true

theorem not_closesBehindBox (h : single b.stop .nil ∉ f.trees) : ¬ f.ClosesBehindBox b := by
  rintro ⟨front, behind, rfl, -⟩
  refine h ?_
  clear h
  induction front with
  | nil => exact List.mem_cons_self
  | cons e inside rest _ ih => exact List.mem_cons_of_mem _ ih

/-! ## Marks that occur once -/

/-- Where a key occurs once, it belongs to one item. -/
theorem eq_of_count_key {α β : Type} [BEq β] [LawfulBEq β] {key : α → β} {items : List α} {x y : α}
    (hone : (items.map key).count (key x) = 1) (hx : x ∈ items) (hy : y ∈ items)
    (hkey : key y = key x) : y = x := by
  obtain ⟨left, right, rfl⟩ := List.append_of_mem hx
  rw [List.map_append, List.map_cons, List.count_append, List.count_cons_self] at hone
  have hleft : key x ∉ left.map key := fun h => by
    have := List.count_pos_iff.2 h
    omega
  have hright : key x ∉ right.map key := fun h => by
    have := List.count_pos_iff.2 h
    omega
  rcases List.mem_append.1 hy with hy | hy
  · exact absurd (hkey ▸ List.mem_map_of_mem hy) hleft
  · rcases List.mem_cons.1 hy with rfl | hy
    · rfl
    · exact absurd (hkey ▸ List.mem_map_of_mem hy) hright

theorem count_le_collect {α : Type} [BEq α] [LawfulBEq α] (give : Element → List α)
    {mark : Element} {a : α} (hg : a ∈ give mark) (f : Forest) :
    f.everyElement.count mark ≤ (f.collect give).count a := by
  induction f with
  | nil => simp
  | cons e inside rest ihi ihr =>
    rw [everyElement_cons, collect_cons, List.count_cons, List.count_append, List.count_append,
      List.count_append]
    by_cases he : e = mark
    · subst he
      have := List.count_pos_iff.2 hg
      simp only [beq_self_eq_true, if_true]
      omega
    · have hother : (e == mark) = false := by simpa using he
      simp only [hother, Bool.false_eq_true, if_false]
      omega

theorem InTheOpen.mem_everyElement {mark : Element} (h : f.InTheOpen mark) :
    mark ∈ f.everyElement := by
  cases h with
  | inline hp hmark =>
    refine mem_everyElement_of_mem_tree hp ?_
    rw [everyElement_tree]
    exact List.mem_cons_of_mem _ (mem_everyElement_of_mem_flow hmark)
  | child hf => simp [hf]

namespace Proper

variable (hb : f.Proper b)
include hb

theorem count_start : f.everyElement.count b.start = 1 := by
  have hid : b.id ∈ b.start.opens.map (·.2) := by simp [Bookmark.start, Element.opens]
  have hle := count_le_collect (fun e => e.opens.map (·.2)) hid f
  have hids : f.collect (fun e => e.opens.map (·.2)) = f.starts.map (·.2) := by
    simp [starts, collect_eq_flatMap, List.map_flatMap]
  rw [hids, hb.oneStart] at hle
  have := List.count_pos_iff.2 hb.start.mem_everyElement
  omega

theorem count_stop : f.everyElement.count b.stop = 1 := by
  have hid : b.id ∈ b.stop.closes := by simp [Bookmark.stop, Element.closes]
  have hle : _ ≤ f.stops.count b.id := count_le_collect Element.closes hid f
  rw [hb.oneStop] at hle
  have := List.count_pos_iff.2 hb.stop.mem_everyElement
  omega

end Proper

/-! ## Where a bookmark opens -/

/-- A start among the inlines of a paragraph opens in it. -/
theorem mem_bookmarksIn_of_flow {content : Forest} {name id : String} (h : Handle)
    (hmark : Element.bookmarkStart name id ∈ content.flow) :
    ⟨name, id, some h⟩ ∈ content.bookmarksIn (some h) := by
  induction content using paragraphInduction with
  | nil => cases hmark
  | paragraph q rest _ ih => exact List.mem_append_right _ (ih hmark)
  | other e inside rest he ihi ihr =>
    rw [flow_cons_other he, List.mem_cons, List.mem_append] at hmark
    rcases hmark with rfl | hmark | hmark
    · exact List.mem_append_left _ List.mem_cons_self
    · have hholder : holderInside e (some h) = some h := by
        cases e <;> first | rfl | cases he
      refine List.mem_append_left _ (List.mem_append_right _ ?_)
      rw [hholder]
      exact ihi hmark
    · exact List.mem_append_right _ (ihr hmark)

/-- What opens inside a listed paragraph is a bookmark of the forest. -/
theorem mem_bookmarksIn_of_content {holder : Option Handle} {p : Paragraph} (hp : p ∈ f.paragraphs)
    (h : b ∈ p.content.bookmarksIn (some p.handle)) : b ∈ f.bookmarksIn holder := by
  induction f using paragraphInduction generalizing holder with
  | nil => simp [paragraphs] at hp
  | paragraph q rest _ ih =>
    rcases List.mem_cons.1 hp with rfl | hp
    · exact List.mem_append_left _ (List.mem_append_right _ h)
    · exact List.mem_append_right _ (ih hp)
  | other e inside rest he ihi ihr =>
    rw [paragraphs_cons_other _ _ he, List.mem_append] at hp
    rcases hp with hp | hp
    · exact List.mem_append_left _ (List.mem_append_right _ (ihi hp))
    · exact List.mem_append_right _ (ihr hp)

namespace Proper

variable (hb : f.Proper b)
include hb

/-- The bookmark is known by its id. -/
theorem opensIn_eq {opensIn : Option Handle} (h : ⟨b.name, b.id, opensIn⟩ ∈ f.bookmarks) :
    b.opensIn = opensIn := by
  have hids : f.bookmarks.map (·.id) = f.starts.map (·.2) := by
    rw [← map_bookmarksIn none f, List.map_map]
    rfl
  have hone : (f.bookmarks.map (·.id)).count b.id = 1 := by rw [hids, hb.oneStart]
  have hsame := eq_of_count_key hone hb.given h rfl
  rw [← hsame]

/-- The bookmark opens in the paragraph that holds its start, or in the first one behind it. -/
theorem exists_around_start : ∃ front holder behind, f.Around b.start front holder behind ∧
    b.opensIn = ((holder.toList ++ behind).head?).map (·.handle) := by
  cases hb.start with
  | @inline p hp hmark =>
    obtain ⟨front, behind, hsplit⟩ := List.append_of_mem hp
    refine ⟨front, some p, behind,
      .inline hb.count_start hsplit (mem_everyElement_of_mem_flow hmark), ?_⟩
    exact hb.opensIn_eq (mem_bookmarksIn_of_content hp (mem_bookmarksIn_of_flow p.handle hmark))
  | @child left right hf =>
    refine ⟨_, none, _, .child hb.count_start rfl hf, ?_⟩
    refine hb.opensIn_eq ?_
    -- A text box follows the paragraph that holds it, so the first one behind is a listed one.
    have hhead : right.paragraphs.head?.map (·.handle) = right.everyParagraph.head? := by
      rw [head?_everyParagraph, listed, List.head?_map]
    rw [Option.toList_none, List.nil_append, hhead, hf]
    exact mem_bookmarksIn_append (List.mem_append_left _ List.mem_cons_self)

end Proper

/-! ## Where a bookmark closes -/

/-- The paragraph that the bookmark with the given id closes in. -/
def closing (id : String) (f : Forest) : Option Handle :=
  (f.bookmarkEnds.find? fun stop => stop.id == id).bind (·.closesIn)

/-- The last paragraph in front, when a search backwards has passed a forest. -/
def passed (before : Option Handle) : Forest → Option Handle
  | .nil => before
  | .cons e inside rest => rest.passed (lastParagraph e inside <|> before)

theorem bookmarkEndsIn_append (holder before : Option Handle) (f g : Forest) :
    (f ++ g).bookmarkEndsIn holder before =
      f.bookmarkEndsIn holder before ++ g.bookmarkEndsIn holder (f.passed before) := by
  induction f generalizing before with
  | nil => rfl
  | cons e inside rest _ ih =>
    rw [cons_append, bookmarkEndsIn_cons, bookmarkEndsIn_cons, ih, passed]
    simp only [List.append_assoc]

/-- An end among the inlines of a paragraph closes in it. -/
theorem mem_bookmarkEndsIn_of_flow {content : Forest} {id : String} (h : Handle)
    (before : Option Handle) (hmark : Element.bookmarkEnd id ∈ content.flow) :
    ⟨id, some h⟩ ∈ content.bookmarkEndsIn (some h) before := by
  induction content using paragraphInduction generalizing before with
  | nil => cases hmark
  | paragraph q rest _ ih => exact List.mem_append_right _ (ih _ hmark)
  | other e inside rest he ihi ihr =>
    rw [flow_cons_other he, List.mem_cons, List.mem_append] at hmark
    rcases hmark with rfl | hmark | hmark
    · exact List.mem_append_left _ List.mem_cons_self
    · have hholder : holderInside e (some h) = some h := by
        cases e <;> first | rfl | cases he
      refine List.mem_append_left _ (List.mem_append_right _ ?_)
      rw [hholder]
      exact ihi _ hmark
    · exact List.mem_append_right _ (ihr _ hmark)

/-- What closes inside a listed paragraph is an end of the forest. -/
theorem mem_bookmarkEndsIn_of_content {holder before : Option Handle} {p : Paragraph}
    {stop : BookmarkEnd} (hp : p ∈ f.paragraphs)
    (h : stop ∈ p.content.bookmarkEndsIn (some p.handle) none) :
    stop ∈ f.bookmarkEndsIn holder before := by
  induction f using paragraphInduction generalizing holder before with
  | nil => simp [paragraphs] at hp
  | paragraph q rest _ ih =>
    rcases List.mem_cons.1 hp with rfl | hp
    · exact List.mem_append_left _ (List.mem_append_right _ h)
    · exact List.mem_append_right _ (ih hp)
  | other e inside rest he ihi ihr =>
    rw [paragraphs_cons_other _ _ he, List.mem_append] at hp
    rcases hp with hp | hp
    · exact List.mem_append_left _ (List.mem_append_right _ (ihi hp))
    · exact List.mem_append_right _ (ihr hp)

theorem lastParagraph_other {e : Element} (he : e.isParagraph = false) (inside : Forest) :
    lastParagraph e inside = inside.everyParagraph.getLast? := by
  cases e <;> first | rfl | cases he

theorem everyParagraph_cons_other {e : Element} (he : e.isParagraph = false)
    (inside rest : Forest) :
    (Forest.cons e inside rest).everyParagraph =
      inside.everyParagraph ++ rest.everyParagraph := by
  cases e <;> first | rfl | cases he

theorem everyParagraph_cons_paragraph (p : Paragraph) (rest : Forest) :
    (Forest.cons p.element p.content rest).everyParagraph =
      p.handle :: (p.content.everyParagraph ++ rest.everyParagraph) := rfl

theorem listed_sublist_everyParagraph (f : Forest) : f.listed.Sublist f.everyParagraph := by
  induction f using paragraphInduction with
  | nil => exact List.Sublist.refl _
  | paragraph p rest _ ih =>
    rw [listed_cons_paragraph, everyParagraph_cons_paragraph]
    exact (ih.trans (List.sublist_append_right _ _)).cons_cons _
  | other e inside rest he ihi ihr =>
    rw [listed_cons_other _ _ he, everyParagraph_cons_other he]
    exact ihi.append ihr

theorem everyParagraph_sublist_handles (f : Forest) : f.everyParagraph.Sublist f.handles := by
  induction f with
  | nil => exact List.Sublist.refl _
  | cons e inside rest ihi ihr =>
    rw [handles_cons]
    cases e with
    | paragraph h style alignment => exact (ihi.append ihr).cons_cons h
    | _ => exact (ihi.append ihr).trans (List.sublist_append_right _ _)

/-- A last item that is kept stays the last one. -/
theorem getLast?_of_sublist {α : Type} {l whole : List α} {z : α} (hn : whole.Nodup)
    (hl : l.Sublist whole) (hz : whole.getLast? = some z) (hmem : z ∈ l) :
    l.getLast? = some z := by
  obtain ⟨init, rfl⟩ := List.getLast?_eq_some_iff.1 hz
  obtain ⟨left, right, rfl, hleft, hright⟩ := List.sublist_append_iff.1 hl
  have hnot : z ∉ left := fun h =>
    (List.nodup_append.1 hn).2.2 z (hleft.subset h) z List.mem_cons_self rfl
  rcases List.sublist_singleton.1 hright with rfl | rfl
  · exact absurd hmem (by simpa using hnot)
  · simp

theorem passed_of_everyParagraph_eq_nil (before : Option Handle) (hf : f.everyParagraph = []) :
    f.passed before = before := by
  induction f using paragraphInduction generalizing before with
  | nil => rfl
  | paragraph p rest _ _ => cases hf
  | other e inside rest he _ ih =>
    rw [everyParagraph_cons_other he, List.append_eq_nil_iff] at hf
    rw [passed, lastParagraph_other he, hf.1, List.getLast?_nil, ih _ hf.2]
    rfl

theorem endsInBox_of_everyParagraph_eq_nil (hf : f.everyParagraph = []) : f.endsInBox = false := by
  cases f using paragraphInduction with
  | nil => rfl
  | paragraph p rest => cases hf
  | other e inside rest he =>
    rw [everyParagraph_cons_other he, List.append_eq_nil_iff] at hf
    have hlisted : inside.listed = [] :=
      List.sublist_nil.1 (hf.1 ▸ inside.listed_sublist_everyParagraph)
    simp [endsInBox, hf, hlisted]

/-- The search backwards finds the last listed paragraph, or one that is not listed. -/
theorem passed_eq (before : Option Handle) (hn : f.everyParagraph.Nodup)
    (hne : f.everyParagraph ≠ []) :
    (f.endsInBox = false → f.passed before = f.listed.getLast?) ∧
      (f.endsInBox = true → ∃ z ∈ f.everyParagraph, z ∉ f.listed ∧ f.passed before = some z) := by
  induction f using paragraphInduction generalizing before with
  | nil => exact absurd rfl hne
  | paragraph p rest _ ih =>
    rw [everyParagraph_cons_paragraph] at hn ⊢
    obtain ⟨hfirst, hn⟩ := List.nodup_cons.1 hn
    have hn := (List.nodup_append.1 hn).2.1
    rw [listed_cons_paragraph, endsInBox, passed]
    by_cases hrest : rest.everyParagraph = []
    · have hlisted : rest.listed = [] :=
        List.sublist_nil.1 (hrest ▸ rest.listed_sublist_everyParagraph)
      rw [if_pos hrest, passed_of_everyParagraph_eq_nil _ hrest, hlisted]
      exact ⟨fun _ => rfl, nofun⟩
    · rw [if_neg hrest]
      obtain ⟨hplain, hbox⟩ := ih (lastParagraph p.element p.content <|> before) hn hrest
      refine ⟨fun he => ?_, fun he => ?_⟩
      · rw [hplain he]
        cases hl : rest.listed with
        | nil =>
          have := head?_everyParagraph rest
          simp [hl, hrest] at this
        | cons h others => rfl
      · obtain ⟨z, hz, hnot, hpassed⟩ := hbox he
        refine ⟨z, List.mem_cons_of_mem _ (List.mem_append_right _ hz), fun h => ?_, hpassed⟩
        rcases List.mem_cons.1 h with rfl | h
        · exact hfirst (List.mem_append_right _ hz)
        · exact hnot h
  | other e inside rest he _ ih =>
    rw [everyParagraph_cons_other he] at hn hne ⊢
    obtain ⟨hni, hnr, hdisjoint⟩ := List.nodup_append.1 hn
    rw [listed_cons_other _ _ he, endsInBox, passed, lastParagraph_other he]
    by_cases hrest : rest.everyParagraph = []
    · have hlisted : rest.listed = [] :=
        List.sublist_nil.1 (hrest ▸ rest.listed_sublist_everyParagraph)
      rw [if_pos hrest, passed_of_everyParagraph_eq_nil _ hrest, hlisted, List.append_nil, hrest,
        List.append_nil]
      rw [hrest, List.append_nil] at hne
      obtain ⟨z, hz⟩ := Option.ne_none_iff_exists'.1 fun h => hne (List.getLast?_eq_none_iff.1 h)
      rw [hz, he]
      -- If the last of all paragraphs were listed, it would be the last of the listed ones too.
      refine ⟨fun hsame => ?_, fun hother => ⟨z, List.mem_of_getLast? hz, fun hmem => ?_, rfl⟩⟩
      · simpa using hsame
      · have hlast := getLast?_of_sublist hni inside.listed_sublist_everyParagraph hz hmem
        simp [hlast] at hother
    · rw [if_neg hrest]
      obtain ⟨hplain, hbox⟩ := ih (inside.everyParagraph.getLast? <|> before) hnr hrest
      refine ⟨fun hsame => ?_, fun hother => ?_⟩
      · rw [hplain hsame]
        cases hl : rest.listed using List.reverseRecOn with
        | nil =>
          have := head?_everyParagraph rest
          simp [hl, hrest] at this
        | append_singleton others h => simp
      · obtain ⟨z, hz, hnot, hpassed⟩ := hbox hother
        refine ⟨z, List.mem_append_right _ hz, fun h => ?_, hpassed⟩
        rcases List.mem_append.1 h with h | h
        · exact hdisjoint z (inside.listed_sublist_everyParagraph.subset h) z hz rfl
        · exact hnot h

namespace Proper

variable (hb : f.Proper b)
include hb

/-- The end of the bookmark is known by its id. -/
theorem closing_eq {closesIn : Option Handle} (h : ⟨b.id, closesIn⟩ ∈ f.bookmarkEnds) :
    f.closing b.id = closesIn := by
  have hids : f.bookmarkEnds.map (·.id) = f.stops := map_bookmarkEndsIn none none f
  have hone : (f.bookmarkEnds.map (·.id)).count b.id = 1 := by rw [hids, hb.oneStop]
  cases hfind : f.bookmarkEnds.find? fun stop => stop.id == b.id with
  | none => simpa using List.find?_eq_none.1 hfind _ h
  | some stop =>
    have hid : stop.id = b.id := by simpa using List.find?_some hfind
    have hsame := eq_of_count_key hone h (List.mem_of_find?_eq_some hfind) hid
    rw [closing, hfind, hsame]
    rfl

/-- What the search backwards from an end between blocks finds. -/
theorem closing_eq_passed {left right : Forest} (hf : f = left ++ .cons b.stop .nil right) :
    f.closing b.id = left.passed none := by
  refine hb.closing_eq ?_
  rw [hf, bookmarkEnds, bookmarkEndsIn_append]
  exact List.mem_append_right _ (List.mem_append_left _ List.mem_cons_self)

/-- The bookmark closes in the paragraph that holds its end, or in the last one in front of it. -/
theorem exists_around_stop (hn : f.everyParagraph.Nodup) (hbox : ¬ f.ClosesBehindBox b) :
    ∃ front holder behind, f.Around b.stop front holder behind ∧
      f.closing b.id = ((front ++ holder.toList).getLast?).map (·.handle) := by
  cases hb.stop with
  | @inline p hp hmark =>
    obtain ⟨front, behind, hsplit⟩ := List.append_of_mem hp
    refine ⟨front, some p, behind,
      .inline hb.count_stop hsplit (mem_everyElement_of_mem_flow hmark), ?_⟩
    rw [Option.toList_some, List.getLast?_append, List.getLast?_singleton]
    exact hb.closing_eq
      (mem_bookmarkEndsIn_of_content hp (mem_bookmarkEndsIn_of_flow p.handle none hmark))
  | @child left right hf =>
    refine ⟨_, none, _, .child hb.count_stop rfl hf, ?_⟩
    rw [hb.closing_eq_passed hf, Option.toList_none, List.append_nil, ← List.getLast?_map]
    change left.passed none = left.listed.getLast?
    have hends : left.endsInBox = false := by
      simpa using fun h => hbox ⟨left, right, hf, h⟩
    by_cases hne : left.everyParagraph = []
    · have hlisted : left.listed = [] :=
        List.sublist_nil.1 (hne ▸ left.listed_sublist_everyParagraph)
      rw [passed_of_everyParagraph_eq_nil _ hne, hlisted, List.getLast?_nil]
    · rw [hf, everyParagraph_append] at hn
      exact (passed_eq none (List.nodup_append.1 hn).1 hne).1 hends

/-- Behind a text box that ends an element the bookmark closes in a paragraph that is not listed. -/
theorem exists_around_stop_of_closesBehindBox (hn : f.everyParagraph.Nodup)
    (hbox : f.ClosesBehindBox b) :
    ∃ front holder behind, f.Around b.stop front holder behind ∧
      ∃ z ∉ f.listed, f.closing b.id = some z := by
  obtain ⟨left, right, hf, hends⟩ := hbox
  refine ⟨_, none, _, .child hb.count_stop rfl hf, ?_⟩
  rw [hb.closing_eq_passed hf]
  have hne : left.everyParagraph ≠ [] := fun h => by
    simp [endsInBox_of_everyParagraph_eq_nil h] at hends
  rw [hf, everyParagraph_append] at hn
  obtain ⟨hnl, hnr, hdisjoint⟩ := List.nodup_append.1 hn
  obtain ⟨z, hz, hnot, hpassed⟩ := (passed_eq none hnl hne).2 hends
  refine ⟨z, fun h => ?_, hpassed⟩
  rw [hf, listed_append, List.mem_append] at h
  refine h.elim hnot fun h => ?_
  exact hdisjoint z hz z ((listed_sublist_everyParagraph _).subset h) rfl

end Proper

/-! ## What lies between -/

section
variable {α : Type} {front behind prior rest : List α}

/-- What is left of a list when a part in front and a part behind go is what stands between them. -/
theorem exists_between [DecidableEq α] (h : front ++ behind = prior ++ rest)
    (hn : (front ++ behind).Nodup)
    (hne : (front ++ behind).filter (fun x => x ∉ front ∧ x ∉ rest) ≠ []) :
    ∃ between, prior = front ++ between ∧ behind = between ++ rest ∧
      (front ++ behind).filter (fun x => x ∉ front ∧ x ∉ rest) = between := by
  rcases List.append_eq_append_iff.1 h with ⟨between, rfl, rfl⟩ | ⟨more, rfl, rfl⟩
  · refine ⟨between, rfl, rfl, ?_⟩
    have hfront : front.filter (fun x => x ∉ front ∧ x ∉ rest) = [] :=
      List.filter_eq_nil_iff.2 fun x hx => by simp [hx]
    have hrest : rest.filter (fun x => x ∉ front ∧ x ∉ rest) = [] :=
      List.filter_eq_nil_iff.2 fun x hx => by simp [hx]
    have hbetween : between.filter (fun x => x ∉ front ∧ x ∉ rest) = between :=
      List.filter_eq_self.2 fun x hx => by
        obtain ⟨-, hright, hdisjoint⟩ := List.nodup_append.1 hn
        have hf : x ∉ front := fun hf => hdisjoint x hf x (List.mem_append_left _ hx) rfl
        have hr : x ∉ rest := fun hr => (List.nodup_append.1 hright).2.2 x hx x hr rfl
        simp [hf, hr]
    rw [List.filter_append, List.filter_append, hfront, hbetween, hrest, List.nil_append,
      List.append_nil]
  · refine absurd (List.filter_eq_nil_iff.2 fun x hx => ?_) hne
    rcases List.mem_append.1 hx with hx | hx
    · simp [List.mem_append.1 hx]
    · simp [hx]

/-- A part of a list is cut out by its bounds. -/
theorem slice_between {between : List α} (hne : between ≠ []) :
    slice (front ++ (between ++ rest)) front.length (front.length + between.length - 1) =
      between := by
  have hpos := List.length_pos_iff.2 hne
  rw [slice, List.drop_left, show front.length + between.length - 1 + 1 - front.length =
    between.length by omega, List.take_left]

end

namespace Proper

variable (hb : f.Proper b)
include hb

/-- The bookmark covers what is not over before its start and does not begin behind its end. -/
theorem covers_iff (hn : f.handles.Nodup) {prior front behind rest : List Paragraph}
    {first last : Option Paragraph} (hs : f.Around b.start prior first behind)
    (ht : f.Around b.stop front last rest) {p : Paragraph} (hp : p ∈ f.paragraphs) :
    f.Covers b p ↔ p ∉ prior ∧ p ∉ rest := by
  have hself : p.element ∈ p.tree.everyElement := by simp
  have hin {e} (he : e ∈ p.content.everyElement) : e ∈ p.tree.everyElement := by simp [he]
  have hordered : f.everyElement.idxOf b.start < f.everyElement.idxOf b.stop := hb.ordered
  constructor
  · intro hcovers
    refine ⟨fun ho => ?_, fun hr => ?_⟩
    · have hover := hs.ended p ho
      unfold Precedes at hover
      rcases hcovers with h | h | ⟨h, -⟩
      · exact absurd (hover _ (hin h)) (Nat.lt_irrefl _)
      · exact absurd (hover _ (hin h)) (by omega)
      · exact absurd (hover _ hself) (Nat.not_lt_of_gt h)
    · have hbegins := ht.begins p hr
      unfold Precedes at hbegins
      rcases hcovers with h | h | ⟨-, h⟩
      · exact absurd (hbegins _ (hin h) hb.count_start) (by omega)
      · exact absurd (hbegins _ (hin h) hb.count_stop) (Nat.lt_irrefl _)
      · exact absurd (hbegins _ hself (count_element hn hp)) (Nat.not_lt_of_gt h)
  · rintro ⟨ho, hr⟩
    rw [hs.paragraphs_eq, List.mem_append, List.mem_append, Option.mem_toList] at hp
    rcases hp with hp | hp | hp
    · exact absurd hp ho
    · exact .inl (hs.holds p hp).1
    · have hbegins := hs.begins p hp _ hself
        (count_element hn (by rw [hs.paragraphs_eq]; simp [hp]))
      have hp' : p ∈ f.paragraphs := by rw [hs.paragraphs_eq]; simp [hp]
      rw [ht.paragraphs_eq, List.mem_append, List.mem_append, Option.mem_toList] at hp'
      rcases hp' with hp' | hp' | hp'
      · exact .inr (.inr ⟨hbegins, ht.ended p hp' _ hself⟩)
      · exact .inr (.inl (ht.holds p hp').1)
      · exact absurd hp' hr

/-- The bookmark covers consecutive paragraphs: the first of them is the first that is not over
before its start, and the last of them is the last that does not begin behind its end. -/
theorem exists_covered (hn : f.handles.Nodup) {prior front behind rest : List Paragraph}
    {first last : Option Paragraph} (hs : f.Around b.start prior first behind)
    (ht : f.Around b.stop front last rest) (hne : f.covered b ≠ []) :
    ∃ before after, f.listed = before ++ (f.covered b ++ after) ∧
      ((first.toList ++ behind).head?).map (·.handle) = (f.covered b).head? ∧
      ((front ++ last.toList).getLast?).map (·.handle) = (f.covered b).getLast? := by
  have hnodup : f.paragraphs.Nodup :=
    List.Nodup.of_map _ ((f.everyParagraph_sublist_handles.nodup hn).sublist
      f.listed_sublist_everyParagraph)
  have hsame : prior ++ (first.toList ++ behind) = front ++ last.toList ++ rest := by
    rw [List.append_assoc, ← hs.paragraphs_eq, ← ht.paragraphs_eq]
  have hfilter : f.paragraphs.filter (fun p => f.Covers b p) =
      f.paragraphs.filter fun p => p ∉ prior ∧ p ∉ rest :=
    List.filter_congr fun p hp => decide_eq_decide.2 (hb.covers_iff hn hs ht hp)
  have hne' : f.paragraphs.filter (fun p => p ∉ prior ∧ p ∉ rest) ≠ [] := by
    rw [← hfilter]
    exact fun h => hne (by rw [covered, h, List.map_nil])
  rw [hs.paragraphs_eq] at hnodup hne'
  obtain ⟨between, hfront, hbehind, hbetween⟩ := exists_between hsame hnodup hne'
  have hcovered : f.covered b = between.map (·.handle) := by
    rw [covered, hfilter, hs.paragraphs_eq, hbetween]
  rw [hcovered] at hne ⊢
  have hbne : between ≠ [] := fun h => hne (by rw [h, List.map_nil])
  refine ⟨prior.map (·.handle), rest.map (·.handle), ?_, ?_, ?_⟩
  · rw [listed, hs.paragraphs_eq, hbehind, List.map_append, List.map_append]
  · rw [hbehind, List.head?_append_of_ne_nil _ hbne, List.head?_map]
  · rw [hfront, List.getLast?_append_of_ne_nil _ hbne, List.getLast?_map]

end Proper

/-! ## The range of a bookmark -/

/-- The listed paragraphs from the one that a bookmark opens in through the one it closes in. -/
def through (listed : List Handle) (opensIn closesIn : Option Handle) : List Handle :=
  match opensIn with
  | none => []
  | some first =>
    match listed.findIdx? (· == first) with
    | none => []
    | some i => slice listed i (max i ((listed.findIdx? (· == closesIn.getD first)).getD i))

theorem bookmarkRange_eq_through (f : Forest) (b : Bookmark) :
    f.bookmarkRange b = through f.listed b.opensIn (f.closing b.id) := rfl

/-- A bookmark that closes in a paragraph that is not listed goes through one paragraph at most. -/
theorem through_of_notMem {listed : List Handle} {z : Handle} (hz : z ∉ listed)
    (opensIn closesIn : Option Handle) :
    through listed opensIn (some z) = (through listed opensIn closesIn).take 1 := by
  cases opensIn with
  | none => rfl
  | some first =>
    simp only [through, Option.getD_some, findIdx?_beq_of_notMem hz]
    cases listed.findIdx? (· == first) with
    | none => rfl
    | some i =>
      simp only [Option.getD_none, max_self, slice, List.take_take]
      congr 1
      omega

section
variable {prior between rest : List Handle}

theorem findIdx?_head {first : Handle} (hn : (prior ++ (between ++ rest)).Nodup)
    (hfirst : between.head? = some first) :
    (prior ++ (between ++ rest)).findIdx? (· == first) = some prior.length := by
  obtain ⟨others, rfl⟩ := List.head?_eq_some_iff.1 hfirst
  have hnot : first ∉ prior := fun h =>
    (List.nodup_append.1 hn).2.2 first h first (by simp) rfl
  rw [findIdx?_beq (by simp), List.idxOf_append_of_notMem hnot, List.cons_append,
    List.idxOf_cons_self, Nat.add_zero]

theorem findIdx?_getLast {last : Handle} (hn : (prior ++ (between ++ rest)).Nodup)
    (hlast : between.getLast? = some last) :
    (prior ++ (between ++ rest)).findIdx? (· == last) =
      some (prior.length + between.length - 1) := by
  obtain ⟨others, rfl⟩ := List.getLast?_eq_some_iff.1 hlast
  obtain ⟨-, hright, hdisjoint⟩ := List.nodup_append.1 hn
  have hover : last ∉ prior := fun h => hdisjoint last h last (by simp) rfl
  have hothers : last ∉ others := fun h =>
    (List.nodup_append.1 (List.nodup_append.1 hright).1).2.2 last h last (by simp) rfl
  rw [findIdx?_beq (by simp), List.idxOf_append_of_notMem hover, List.append_assoc,
    List.idxOf_append_of_notMem hothers, List.singleton_append, List.idxOf_cons_self]
  simp only [List.length_append, List.length_singleton, Option.some.injEq]
  omega

/-- Consecutive paragraphs are those through which a bookmark goes that opens in the first of them
and closes in the last. -/
theorem through_eq_between (hn : (prior ++ (between ++ rest)).Nodup) (hne : between ≠ []) :
    through (prior ++ (between ++ rest)) between.head? between.getLast? = between := by
  obtain ⟨first, hfirst⟩ := Option.ne_none_iff_exists'.1 fun h => hne (List.head?_eq_none_iff.1 h)
  obtain ⟨last, hlast⟩ := Option.ne_none_iff_exists'.1 fun h => hne (List.getLast?_eq_none_iff.1 h)
  have hpos := List.length_pos_iff.2 hne
  simp only [through, hfirst, hlast, findIdx?_head hn hfirst, Option.getD_some,
    findIdx?_getLast hn hlast]
  have hmax : max prior.length (prior.length + between.length - 1) =
      prior.length + between.length - 1 := by omega
  rw [hmax, slice_between hne]

end

end Forest

namespace Document

open Forest

variable {d : Document} {b : Bookmark}

/-- The range of a bookmark is what it covers, unless its end stands between blocks behind one that
ends in a text box: then it is the first of these paragraphs alone. -/
theorem bookmarkRange_eq_covered (hd : d.WellFormed) (hb : d.body.Proper b)
    (hne : d.body.covered b ≠ []) :
    (¬ d.body.ClosesBehindBox b → d.body.bookmarkRange b = d.body.covered b) ∧
      (d.body.ClosesBehindBox b → d.body.bookmarkRange b = (d.body.covered b).take 1) := by
  have hn := hd.nodup_body
  have hevery := d.body.everyParagraph_sublist_handles.nodup hn
  have hlisted := hevery.sublist d.body.listed_sublist_everyParagraph
  obtain ⟨prior, first, behind, hs, hopens⟩ := hb.exists_around_start
  refine ⟨fun hbox => ?_, fun hbox => ?_⟩
  · obtain ⟨front, last, rest, ht, hcloses⟩ := hb.exists_around_stop hevery hbox
    obtain ⟨before, after, hsplit, hhead, hlast⟩ := hb.exists_covered hn hs ht hne
    rw [bookmarkRange_eq_through, hopens, hhead, hcloses, hlast]
    exact hsplit ▸ through_eq_between (hsplit ▸ hlisted) hne
  · obtain ⟨front, last, rest, ht, z, hz, hcloses⟩ :=
      hb.exists_around_stop_of_closesBehindBox hevery hbox
    obtain ⟨before, after, hsplit, hhead, -⟩ := hb.exists_covered hn hs ht hne
    rw [bookmarkRange_eq_through, hopens, hhead, hcloses,
      through_of_notMem hz _ (d.body.covered b).getLast?]
    exact congrArg (List.take 1) (hsplit ▸ through_eq_between (hsplit ▸ hlisted) hne)

/-- A bookmark that starts in front of a table and ends in a paragraph of a content control. -/
def straddledDocument : Document where
  body :=
    .cons (.bookmarkStart "bm" "0") .nil
      (.cons .table (.single .row (.single .cell (.single (.paragraph ⟨0⟩ "Normal" none)
        (.single (.run "cell" {}) .nil))))
      (.cons (.control ⟨1⟩ none) (.single (.paragraph ⟨2⟩ "Normal" none)
        (.cons (.run "inside" {}) .nil (.single (.bookmarkEnd "0") .nil)))
      (.single (.paragraph ⟨3⟩ "Normal" none) .nil)))
  nextHandle := 4

/-- The bookmark covers the paragraph of the cell and that of the content control. -/
theorem bookmarkRange_eq_covered_straddled :
    straddledDocument.body.covered ⟨"bm", "0", some ⟨0⟩⟩ = [⟨0⟩, ⟨2⟩] ∧
      straddledDocument.body.bookmarkRange ⟨"bm", "0", some ⟨0⟩⟩ = [⟨0⟩, ⟨2⟩] := by
  have hcovered : straddledDocument.body.covered ⟨"bm", "0", some ⟨0⟩⟩ = [⟨0⟩, ⟨2⟩] := by decide
  have hproper : straddledDocument.body.Proper ⟨"bm", "0", some ⟨0⟩⟩ := by
    refine ⟨by decide, by decide, by decide, by decide, @InTheOpen.child _ _ .nil _ rfl, ?_⟩
    let content : Forest := .cons (.run "inside" {}) .nil (.single (.bookmarkEnd "0") .nil)
    exact .inline (p := ⟨⟨2⟩, "Normal", none, content⟩) (by decide) (by decide)
  have hrange := (bookmarkRange_eq_covered (by decide) hproper (by rw [hcovered]; nofun)).1
    (not_closesBehindBox (by decide))
  exact ⟨hcovered, hrange.trans hcovered⟩

/-- A bookmark that ends behind a table whose last paragraph holds a text box. -/
def boxedDocument : Document where
  body :=
    .cons (.bookmarkStart "bm" "0") .nil
      (.cons (.paragraph ⟨0⟩ "Normal" none) (.single (.run "first" {}) .nil)
      (.cons .table (.single .row (.single .cell (.single (.paragraph ⟨1⟩ "Normal" none)
        (.single (.run "last" {}) (.single .box (.single (.paragraph ⟨2⟩ "Normal" none)
          (.single (.run "boxed" {}) .nil)))))))
      (.cons (.bookmarkEnd "0") .nil
      (.single (.paragraph ⟨3⟩ "Normal" none) (.single (.run "behind" {}) .nil)))))
  nextHandle := 4

/-- The last paragraph that the bookmark covers is missing from its range. -/
theorem bookmarkRange_misses_last :
    boxedDocument.WellFormed ∧ boxedDocument.body.Proper ⟨"bm", "0", some ⟨0⟩⟩ ∧
      boxedDocument.body.covered ⟨"bm", "0", some ⟨0⟩⟩ = [⟨0⟩, ⟨1⟩] ∧
      boxedDocument.body.bookmarkRange ⟨"bm", "0", some ⟨0⟩⟩ = [⟨0⟩] := by
  refine ⟨by decide, ?_, by decide, by decide⟩
  let front : Forest := .cons (.bookmarkStart "bm" "0") .nil
    (.cons (.paragraph ⟨0⟩ "Normal" none) (.single (.run "first" {}) .nil)
    (.single .table (.single .row (.single .cell (.single (.paragraph ⟨1⟩ "Normal" none)
      (.single (.run "last" {}) (.single .box (.single (.paragraph ⟨2⟩ "Normal" none)
        (.single (.run "boxed" {}) .nil)))))))))
  exact ⟨by decide, by decide, by decide, by decide, @InTheOpen.child _ _ .nil _ rfl,
    @InTheOpen.child _ _ front _ rfl⟩

end Document

end Redline
