import Redline.Proofs.Anchor.Range
import Redline.Proofs.Document.Bookmarks
import Redline.Proofs.Forest.Controls
import Redline.Proofs.Forest.Enclosing

/-!
# Anchors that are found again

When the range of a content control or of a bookmark gives way to new paragraphs, these stand where
the anchor finds them: in the content control, or between the marks that have been gathered around
them.  Replacing them in turn is the same as replacing the range once.

## Main definitions

* `Document.Names` — an anchor that is the tag of a content control or the name of a bookmark.
* `Document.resolution?` — what an anchor stands for.
* `Document.Supplants` — new paragraphs that have taken the place of a range.
-/

namespace Redline

open Forest

namespace Document

variable {d d' : Document} {rules : Rules} {anchor : String} {strategy : Strategy}
  {first n : Handle} {others ns range : List Handle} {news next : List Paragraph} {p : Paragraph}

/-- What an anchor is the name of: a content control with that tag or, where there is none, the one
bookmark of that name.  Its marks stand directly in paragraphs of the document, the end not in front
of the start, and no other end has its id. -/
inductive Names (d : Document) (anchor : String) : Strategy → Prop
  | marker {m : Marker} : m ∈ d.body.markers → m.tag = anchor → Names d anchor .marker
  | bookmark {p q : Paragraph} {id : String} : (∀ m ∈ d.body.markers, m.tag ≠ anchor) →
      p ∈ d.paragraphs → .bookmarkStart anchor id ∈ p.content.elements →
      q ∈ d.paragraphs → .bookmarkEnd id ∈ q.content.elements →
      d.body.listed.idxOf p.handle ≤ d.body.listed.idxOf q.handle →
      (d.body.starts.map Prod.fst).count anchor = 1 → d.body.stops.count id = 1 →
      Names d anchor .bookmark

/-- New paragraphs, without marks and with handles of their own, that have taken the place of a
range of a well-formed document. -/
structure Supplants (d d' : Document) (first : Handle) (others : List Handle)
    (news : List Paragraph) : Prop where
  wellFormed : d.WellFormed
  wellFormed' : d'.WellFormed
  sublist : (first :: others).Sublist d.body.listed
  unmarked : ∀ q ∈ news, q.content.Unmarked
  fresh : ∀ q ∈ news, q.handle ∉ d.body.listed
  body : d'.body = d.body.rewrite (d.replacing first others news)

/-- What an anchor that is not the default one stands for. -/
def resolution? (rules : Rules) (anchor : String) (d : Document) : Option Resolution :=
  Strategy.all.findSome? (d.attempt? rules anchor)

theorem find?_markers {m : Marker} (hm : m ∈ d.body.markers) (ht : m.tag = anchor) :
    ∃ m, d.body.markers.find? (fun m => m.tag == anchor) = some m :=
  Option.isSome_iff_exists.1 (List.find?_isSome.2 ⟨m, hm, beq_iff_eq.2 ht⟩)

theorem resolution?_of_marker {m : Marker}
    (hm : d.body.markers.find? (fun m => m.tag == anchor) = some m) :
    d.resolution? rules anchor = some ⟨.marker, (d.inside m.handle).ownParagraphs, none⟩ := by
  simp [resolution?, Strategy.all, attempt?, hm]

theorem resolution?_of_bookmark {b : Bookmark} (hm : ∀ m ∈ d.body.markers, m.tag ≠ anchor)
    (hb : d.body.bookmarks.find? (fun b => b.name == anchor) = some b) :
    d.resolution? rules anchor = some ⟨.bookmark, d.body.bookmarkRange b, none⟩ := by
  have hnone : (d.body.markers.find? fun m => m.tag == anchor) = none := by simpa using hm
  simp [resolution?, Strategy.all, attempt?, hnone, hb]

/-- What an anchor names is found by the strategy for it. -/
theorem Names.resolution? (rules : Rules) (h : d.Names anchor strategy) :
    ∃ range, d.resolution? rules anchor = some ⟨strategy, range, none⟩ := by
  cases h with
  | marker hm ht =>
    obtain ⟨m, hfound⟩ := find?_markers hm ht
    exact ⟨_, resolution?_of_marker hfound⟩
  | bookmark hm hp hstart _ _ _ hname _ =>
    exact ⟨_, resolution?_of_bookmark hm
      (find?_bookmarks_of_count (mem_bookmarks_of_elements hp hstart) hname)⟩

/-! ## Content controls -/

section
variable {m : Marker} {inside : Forest} (hd : d.WellFormed) (hc : (m, inside) ∈ d.body.controls)
include hd hc

theorem inside_of_mem_controls : d.inside m.handle = inside := by
  obtain ⟨e, htree⟩ := tree?_of_mem_controls hd.nodup_body hc
  simp [Document.inside, tree?, htree, single]

theorem notMem_cell_of_control (hp : p ∈ inside.own) {own : List Paragraph}
    (ho : own ∈ d.body.cells) : p ∉ own :=
  disjoint_control_cells (List.Nodup.of_map _ hd.nodup_listed) hc hp ho

theorem givesWay_of_control (hr : inside.ownParagraphs = first :: others)
    (hs : (first :: others).Sublist d.body.listed) (news : List Paragraph) :
    d.GivesWay first others news := by
  intro _ hremains
  rw [ownParagraphs_eq] at hr
  obtain ⟨p, rest, hown, hp, _⟩ := List.map_eq_cons_iff.1 hr
  have hpo : p ∈ inside.own := hown ▸ List.mem_cons_self
  have hpd : p ∈ d.paragraphs :=
    (sublist_of_mem_controls hc).subset ((own_sublist_paragraphs _).subset hpo)
  have hfirst : first ∉ others := (List.nodup_cons.1 (hd.nodup_listed.sublist hs)).1
  obtain ⟨own, ho, hpown, _⟩ := (remains_first_iff hd hfirst hpd hp).1 hremains
  exact notMem_cell_of_control hd hc hpo ho hpown

end

theorem flat_replacing (d : Document) (first : Handle) (others : List Handle)
    (news : List Paragraph) (p : Paragraph) : (d.replacing first others news p).Flat := by
  refine flat_cleared (fun p => (flat_join_tree news).append ?_) d first others p
  split
  · exact flat_tree _
  · exact flat_nil

theorem controls_replacing (d : Document) (first : Handle) (others : List Handle)
    (news : List Paragraph) (p : Paragraph) : (d.replacing first others news p).controls = [] := by
  refine controls_cleared (fun p => ?_) d first others p
  rw [controls_append, controls_join_tree]
  split <;> rfl

theorem markers_replacing (d : Document) (first : Handle) (others : List Handle)
    (news : List Paragraph) :
    (d.body.rewrite (d.replacing first others news)).markers = d.body.markers :=
  markers_rewrite fun p _ => controls_replacing d first others news p

/-- A content control whose paragraphs have given way to new ones holds these. -/
theorem ownParagraphs_replacing {m : Marker} {inside : Forest} (hd : d.WellFormed)
    (hc : (m, inside) ∈ d.body.controls) (hr : inside.ownParagraphs = first :: others)
    (hs : (first :: others).Sublist d.body.listed) :
    (inside.rewrite (d.replacing first others news)).ownParagraphs = news.map (·.handle) := by
  have hown := hr
  rw [ownParagraphs_eq] at hown
  obtain ⟨p, rest, hinside, hp, hrest⟩ := List.map_eq_cons_iff.1 hown
  have hmem : ∀ q ∈ p :: rest, q ∈ d.paragraphs := fun q hq =>
    (sublist_of_mem_controls hc).subset ((own_sublist_paragraphs _).subset (hinside ▸ hq))
  have hfirst : first ∉ others := (List.nodup_cons.1 (hd.nodup_listed.sublist hs)).1
  have hgone : rest.flatMap (fun q => (d.replacing first others news q).paragraphs) = [] := by
    rw [List.flatMap_eq_nil_iff]
    intro q hq
    have hqo : q.handle ∈ others := hrest ▸ List.mem_map_of_mem hq
    have hqf : q.handle ≠ first := fun he => hfirst (he ▸ hqo)
    have hcell : ¬ d.LastOfCell others q := fun ⟨own, ho, hlast, _⟩ =>
      notMem_cell_of_control hd hc (hinside ▸ List.mem_cons_of_mem _ hq) ho
        (List.mem_of_getLast? hlast)
    rw [paragraphs_replacing hd hs news (hmem q (List.mem_cons_of_mem _ hq)), replaced,
      if_neg hqf, if_pos hqo, if_neg hcell]
  rw [ownParagraphs_eq, own_rewrite (flat_replacing d first others news), hinside,
    List.flatMap_cons, hgone, List.append_nil,
    replacing_of_givesWay (givesWay_of_control hd hc hr hs news) hp]
  simp [(allMarks_startsOf _ d).paragraphs_eq, (allMarks_endsOf _ d).paragraphs_eq,
    paragraphs_join_tree]

/-- An anchor that is the tag of a content control stands for the new paragraphs. -/
theorem Supplants.resolution?_of_marker {m : Marker} (hs : d.Supplants d' first others news)
    (hm : d.body.markers.find? (fun m => m.tag == anchor) = some m)
    (hr : (d.inside m.handle).ownParagraphs = first :: others) :
    d'.resolution? rules anchor = some ⟨.marker, news.map (·.handle), none⟩ := by
  obtain ⟨inside, hc⟩ := exists_control (List.mem_of_find?_eq_some hm)
  rw [inside_of_mem_controls hs.wellFormed hc] at hr
  have hc' : (m, inside.rewrite (d.replacing first others news)) ∈ d'.body.controls := by
    rw [hs.body, controls_rewrite fun p _ => controls_replacing d first others news p]
    exact List.mem_map_of_mem hc
  rw [← markers_replacing d first others news, ← hs.body] at hm
  rw [Document.resolution?_of_marker hm, inside_of_mem_controls hs.wellFormed' hc',
    ownParagraphs_replacing hs.wellFormed hc hr hs.sublist]

/-! ## Bookmarks -/

theorem infix_listed_replacing (hl : first ∈ d.body.listed) (hne : news ≠ []) :
    news.map (·.handle) <:+: (d.body.rewrite (d.replacing first others news)).listed := by
  obtain ⟨front, tail, hsplit⟩ := List.append_of_mem hl
  rw [listed_rewrite_eq fun p _ => listed_replacing hne p, hsplit, List.flatMap_append,
    List.flatMap_cons, image, if_pos rfl]
  exact ⟨_, _, List.append_assoc _ _ _⟩

section
variable {id : String} (hd : d.WellFormed) (hp : p ∈ d.paragraphs) (hr : p.handle ∈ range)
include hd hp hr

/-- A start mark in a paragraph of the range is among those of the range. -/
theorem mem_startsOf (hm : .bookmarkStart anchor id ∈ p.content.elements) :
    (anchor, id) ∈ (d.startsOf range).starts := by
  rw [starts_startsOf, List.mem_flatMap]
  refine ⟨p.handle, hr, ?_⟩
  rw [hd.inside_eq_content hp]
  exact mem_starts_of_elements hm

/-- An end mark in a paragraph of the range is among those of the range. -/
theorem mem_endsOf (hm : .bookmarkEnd id ∈ p.content.elements) : id ∈ (d.endsOf range).stops := by
  rw [stops_endsOf, List.mem_flatMap]
  refine ⟨p.handle, hr, ?_⟩
  rw [hd.inside_eq_content hp]
  exact mem_stops_of_elements hm

end

section
variable {id : String} (hl : first ∈ d.body.listed)
include hl

/-- A start mark of the range opens in the first of the new paragraphs. -/
theorem mem_bookmarks_replacing {q : Paragraph} {qs : List Paragraph}
    (hm : (anchor, id) ∈ (d.startsOf (first :: others)).starts) :
    ⟨anchor, id, some q.handle⟩ ∈
      (d.body.rewrite (d.replacing first others (q :: qs))).bookmarks := by
  obtain ⟨p, hp, hpf⟩ := mem_listed_iff.1 hl
  refine mem_bookmarksIn_rewrite hp fun g => ?_
  have hway : d.GivesWay first others (q :: qs) := givesWay_of_ne_nil (List.cons_ne_nil _ _)
  have hhead : ∀ g : Forest,
      (Forest.join ((q :: qs).map Paragraph.tree) ++ g).everyParagraph.head? = some q.handle := by
    simp [Forest.join, Paragraph.tree, single, Paragraph.element, everyParagraph]
  rw [replacing_of_givesWay hway hpf, append_assoc, append_assoc,
    ← hhead (d.endsOf (first :: others) ++ g)]
  exact (allMarks_startsOf _ d).mem_bookmarksIn hm _

/-- An end mark of the range closes in the last of the new paragraphs. -/
theorem mem_bookmarkEnds_replacing {q : Paragraph} (hq : news.getLast? = some q)
    (hm : id ∈ (d.endsOf (first :: others)).stops) :
    ⟨id, some q.handle⟩ ∈ (d.body.rewrite (d.replacing first others news)).bookmarkEnds := by
  obtain ⟨p, hp, hpf⟩ := mem_listed_iff.1 hl
  refine mem_bookmarkEndsIn_rewrite hp (fun g before => ?_) none
  have hway : d.GivesWay first others news := by
    rintro rfl
    cases hq
  rw [replacing_of_givesWay hway hpf, append_assoc, append_assoc]
  exact mem_bookmarkEndsIn_append
    (mem_bookmarkEndsIn_join hq ((allMarks_endsOf _ d).mem_bookmarkEndsIn hm g _)) before

end

/-- A bookmark whose paragraphs have given way to new ones covers these. -/
theorem Supplants.bookmarkRange {id : String} (hs : d.Supplants d' first others news)
    (hstart : (anchor, id) ∈ (d.startsOf (first :: others)).starts)
    (hstop : id ∈ (d.endsOf (first :: others)).stops)
    (hname : (d.body.starts.map Prod.fst).count anchor = 1) (hid : d.body.stops.count id = 1)
    (hne : news ≠ []) :
    ∃ b, d'.body.bookmarks.find? (fun b => b.name == anchor) = some b ∧
      d'.body.bookmarkRange b = news.map (·.handle) := by
  obtain ⟨q, qs, rfl⟩ := List.exists_cons_of_ne_nil hne
  have hl : first ∈ d.body.listed := hs.sublist.subset List.mem_cons_self
  obtain ⟨z, hlast⟩ : ∃ z, (q :: qs).getLast? = some z :=
    ⟨_, List.getLast?_eq_some_getLast (List.cons_ne_nil _ _)⟩
  have hopens : ⟨anchor, id, some q.handle⟩ ∈ d'.body.bookmarks :=
    hs.body ▸ mem_bookmarks_replacing hl hstart
  have hcloses : ⟨id, some z.handle⟩ ∈ d'.body.bookmarkEnds :=
    hs.body ▸ mem_bookmarkEnds_replacing hl hlast hstop
  have hname' : (d'.body.starts.map Prod.fst).count anchor = 1 := by
    have hperm := perm_starts_replacing hs.wellFormed hs.sublist hs.unmarked
    rw [hs.body, (hperm.map _).count_eq, hname]
  have hid' : d'.body.stops.count id = 1 := by
    rw [hs.body, (perm_stops_replacing hs.wellFormed hs.sublist hs.unmarked).count_eq, hid]
  have hstretch : (q :: qs).map (·.handle) <:+: d'.body.listed :=
    hs.body ▸ infix_listed_replacing hl hne
  have hn := hs.wellFormed'.nodup_listed
  have hqm : q.handle ∈ (q :: qs).map (·.handle) := List.mem_cons_self
  have hzlast : ((q :: qs).map (·.handle)).getLast? = some z.handle := by
    rw [List.getLast?_map, hlast]
    rfl
  refine ⟨_, find?_bookmarks_of_count hopens hname', ?_⟩
  rw [bookmarkRange_eq_slice (hstretch.subset hqm) (hstretch.subset (List.mem_of_getLast? hzlast))
    (idxOf_le_getLast hn hstretch hzlast hqm) hcloses hid']
  exact slice_of_isInfix hn hstretch rfl hzlast

/-! ## Anchors -/

/-- What is resolved without a heading is a content control or a bookmark. -/
theorem resolution?_cases (h : d.resolution? rules anchor = some ⟨strategy, range, none⟩) :
    (∃ m, d.body.markers.find? (fun m => m.tag == anchor) = some m ∧ strategy = .marker ∧
      (d.inside m.handle).ownParagraphs = range) ∨
    ∃ b, (∀ m ∈ d.body.markers, m.tag ≠ anchor) ∧
      d.body.bookmarks.find? (fun b => b.name == anchor) = some b ∧ strategy = .bookmark ∧
        d.body.bookmarkRange b = range := by
  cases hm : d.body.markers.find? fun m => m.tag == anchor with
  | some m =>
    rw [resolution?_of_marker hm, Option.some.injEq, Resolution.mk.injEq] at h
    exact .inl ⟨m, rfl, h.1.symm, h.2.1⟩
  | none =>
    have huntagged : ∀ m ∈ d.body.markers, m.tag ≠ anchor := by simpa using hm
    cases hb : d.body.bookmarks.find? fun b => b.name == anchor with
    | some b =>
      rw [resolution?_of_bookmark huntagged hb, Option.some.injEq, Resolution.mk.injEq] at h
      exact .inr ⟨b, huntagged, rfl, h.1.symm, h.2.1⟩
    | none =>
      cases hf : (Heading.headings rules d.passages).find? fun p =>
        Heading.answersTo p.text anchor <;>
      simp [resolution?, Strategy.all, attempt?, hm, hb, hf] at h

/-- It is what a replacement takes. -/
theorem range?_of_resolution? (hs : anchor ≠ rules.selectionAnchor)
    (h : d.resolution? rules anchor = some ⟨strategy, range, none⟩) :
    d.range? rules anchor = some range := by
  rw [range?, if_neg hs]
  rcases resolution?_cases h with ⟨m, hm, _, hr⟩ | ⟨b, huntagged, hb, _, hr⟩
  · simp [hm, hr]
  · have hm : (d.body.markers.find? fun m => m.tag == anchor) = none := by simpa using huntagged
    simp [hm, hb, hr]

/-- Only of a bookmark something has to remain, if nothing is put in its place. -/
theorem givesWay_of_resolution? (hd : d.WellFormed)
    (h : d.resolution? rules anchor = some ⟨strategy, first :: others, none⟩)
    (hs : (first :: others).Sublist d.body.listed) (hne : strategy = .bookmark → news ≠ []) :
    d.GivesWay first others news := by
  rcases resolution?_cases h with ⟨m, hm, _, hr⟩ | ⟨_, _, _, hbookmark, _⟩
  · obtain ⟨inside, hc⟩ := exists_control (List.mem_of_find?_eq_some hm)
    rw [inside_of_mem_controls hd hc] at hr
    exact givesWay_of_control hd hc hr hs news
  · exact fun hnil => absurd hnil (hne hbookmark)

/-- When the range of an anchor has given way to new paragraphs, the anchor stands for these, by the
same strategy. -/
theorem Names.resolution?_of_supplants (h : d.Names anchor strategy)
    (hr : d.resolution? rules anchor = some ⟨strategy, first :: others, none⟩)
    (hs : d.Supplants d' first others news) (hne : strategy = .bookmark → news ≠ []) :
    d'.resolution? rules anchor = some ⟨strategy, news.map (·.handle), none⟩ := by
  cases h with
  | marker hm ht =>
    obtain ⟨m, hfound⟩ := find?_markers hm ht
    rw [resolution?_of_marker hfound] at hr
    have hrange : (d.inside m.handle).ownParagraphs = first :: others := by simpa using hr
    exact hs.resolution?_of_marker hfound hrange
  | @bookmark p q id hm hp hstart hq hstop hle hname hid =>
    have hopens := mem_bookmarks_of_elements hp hstart
    have hcloses := mem_bookmarkEnds_of_elements hq hstop
    have hpl : p.handle ∈ d.body.listed := mem_listed_iff.2 ⟨p, hp, rfl⟩
    have hql : q.handle ∈ d.body.listed := mem_listed_iff.2 ⟨q, hq, rfl⟩
    rw [resolution?_of_bookmark hm (find?_bookmarks_of_count hopens hname),
      bookmarkRange_eq_slice hpl hql hle hcloses hid] at hr
    have hrange : slice d.body.listed (d.body.listed.idxOf p.handle)
        (d.body.listed.idxOf q.handle) = first :: others := by simpa using hr
    have hpr : p.handle ∈ first :: others :=
      hrange ▸ (mem_slice hs.wellFormed.nodup_listed).2 ⟨hpl, le_rfl, hle⟩
    have hqr : q.handle ∈ first :: others :=
      hrange ▸ (mem_slice hs.wellFormed.nodup_listed).2 ⟨hql, hle, le_rfl⟩
    obtain ⟨b, hb, hcovers⟩ := hs.bookmarkRange (mem_startsOf hs.wellFormed hp hpr hstart)
      (mem_endsOf hs.wellFormed hq hqr hstop) hname hid (hne rfl)
    have hmarkers : d'.body.markers = d.body.markers := by
      rw [hs.body]
      exact markers_replacing d first others news
    rw [resolution?_of_bookmark (hmarkers ▸ hm) hb, hcovers]

/-! ## Replacing what has been put in -/

theorem join_nils {α : Type} (items : List α) : Forest.join (items.map fun _ => .nil) = .nil := by
  induction items with
  | nil => rfl
  | cons i rest ih => simpa [Forest.join] using ih

theorem replacing_of_notMem (hp : p.handle ∉ first :: others) :
    d.replacing first others news p = p.tree := by
  rw [List.mem_cons, not_or] at hp
  rw [replacing_others hp.1, leave, if_neg hp.2]

theorem startsOf_eq_nil (h : ∀ h ∈ range, (d.inside h).starts = []) : d.startsOf range = .nil :=
  (allMarks_startsOf range d).eq_nil
    (by rw [starts_startsOf, List.flatMap_eq_nil_iff]; exact h) (stops_startsOf range d)

theorem endsOf_eq_nil (h : ∀ h ∈ range, (d.inside h).stops = []) : d.endsOf range = .nil :=
  (allMarks_endsOf range d).eq_nil (starts_endsOf range d)
    (by rw [stops_endsOf, List.flatMap_eq_nil_iff]; exact h)

/-- Of paragraphs with handles of their own, one has the handle. -/
theorem flatMap_ite_handle {α : Type} {ps : List Paragraph} {items : List α}
    (hn : (ps.map (·.handle)).Nodup) (hf : first ∈ ps.map (·.handle)) :
    (ps.flatMap fun p => if p.handle = first then items else []) = items := by
  induction ps with
  | nil => cases hf
  | cons p rest ih =>
    rw [List.map_cons, List.nodup_cons] at hn
    rw [List.flatMap_cons]
    by_cases he : p.handle = first
    · have hrest : ∀ q ∈ rest, (if q.handle = first then items else []) = [] := by
        intro q hq
        refine if_neg fun hqf => hn.1 ?_
        rw [he, ← hqf]
        exact List.mem_map_of_mem hq
      rw [if_pos he, List.flatMap_eq_nil_iff.2 hrest, List.append_nil]
    · rw [if_neg he, List.nil_append]
      exact ih hn.2 ((List.mem_cons.1 hf).resolve_left fun h => he h.symm)

namespace Supplants

variable (hs : d.Supplants d' first others news)
include hs

theorem mem_paragraphs {q : Paragraph} (hq : q ∈ news) : q ∈ d'.paragraphs := by
  obtain ⟨p, hp, hpf⟩ := mem_listed_iff.1 (hs.sublist.subset List.mem_cons_self)
  rw [paragraphs, hs.body, paragraphs_rewrite, List.mem_flatMap]
  refine ⟨p, hp, ?_⟩
  rw [paragraphs_replacing hs.wellFormed hs.sublist _ hp, replaced, if_pos hpf]
  exact List.mem_append_left _ hq

/-- The new paragraphs can be told by their numbers. -/
theorem filter_paragraphs {k : Nat} (hk : d.nextHandle ≤ k)
    (hnews : ∀ q ∈ news, k ≤ q.handle.number) :
    d'.paragraphs.filter (fun q => decide (k ≤ q.handle.number)) = news := by
  have hold : ∀ p ∈ d.paragraphs, ¬ k ≤ p.handle.number := fun p hp => by
    have := hs.wellFormed.given _ (mem_handles_of_mem_body (mem_handles_of_mem_paragraphs hp))
    omega
  have hone : ∀ p ∈ d.paragraphs, (d.replacing first others news p).paragraphs.filter
      (fun q => decide (k ≤ q.handle.number)) = if p.handle = first then news else [] := by
    intro p hp
    rw [paragraphs_replacing hs.wellFormed hs.sublist news hp, replaced]
    have hp := hold p hp
    have hnews : news.filter (fun q => decide (k ≤ q.handle.number)) = news :=
      List.filter_eq_self.2 fun q hq => decide_eq_true (hnews q hq)
    split
    · rw [List.filter_append, hnews]
      split <;> simp [hp]
    · split
      · split <;> simp [hp]
      · simp [hp]
  rw [paragraphs, hs.body, paragraphs_rewrite, List.filter_flatMap]
  refine (List.flatMap_congr hone).trans ?_
  exact flatMap_ite_handle hs.wellFormed.nodup_listed (hs.sublist.subset List.mem_cons_self)

variable (hn : news.map (·.handle) = n :: ns)
include hn

omit hs in
theorem nonempty : news ≠ [] := by
  rintro rfl
  cases hn

theorem unmarked_inside {h : Handle} (hh : h ∈ n :: ns) : (d'.inside h).Unmarked := by
  obtain ⟨q, hq, rfl⟩ := List.mem_map.1 (hn ▸ hh)
  rw [hs.wellFormed'.inside_eq_content (hs.mem_paragraphs hq)]
  exact hs.unmarked q hq

theorem nodup : (n :: ns).Nodup := by
  have hstretch : _ <:+: (d.body.rewrite (d.replacing first others news)).listed :=
    infix_listed_replacing (hs.sublist.subset List.mem_cons_self) (nonempty hn)
  rw [hn, ← hs.body] at hstretch
  exact hs.wellFormed'.nodup_listed.sublist hstretch.sublist

/-- The new paragraphs stand beside each other, so none of them has to remain when the others go. -/
theorem not_remains {h : Handle} (hh : h ∈ ns) : ¬ d'.body.Remains ns h := by
  intro hremains
  obtain ⟨own', ho', hall, hmem⟩ := hremains.exists_cell
  rw [hs.body, cells_rewrite (flat_replacing d first others news), List.mem_map] at ho'
  obtain ⟨own, ho, rfl⟩ := ho'
  obtain ⟨q, hq, rfl⟩ := List.mem_map.1 hmem
  obtain ⟨p, hp, hqp⟩ := List.mem_flatMap.1 hq
  have hpd : p ∈ d.paragraphs := (sublist_of_mem_cells ho).subset hp
  obtain ⟨x, hx, hxq⟩ := List.mem_map.1 (hn ▸ List.mem_cons_of_mem n hh)
  -- It has come from the first one of the range, and so has the one that none of the others is.
  have hpf : p.handle = first := by
    by_contra hne
    rw [paragraphs_replacing hs.wellFormed hs.sublist news hpd, replaced, if_neg hne] at hqp
    have hqh : q.handle = p.handle := by
      split at hqp
      · split at hqp
        · rw [List.mem_singleton.1 hqp, Paragraph.handle_emptied]
        · cases hqp
      · rw [List.mem_singleton.1 hqp]
    exact hs.fresh x hx (hxq.trans hqh ▸ mem_listed_iff.2 ⟨p, hpd, rfl⟩)
  obtain ⟨y, rest, rfl, rfl, hrest⟩ := List.map_eq_cons_iff.1 hn
  have hy : y ∈ (d.replacing first others (y :: rest) p).paragraphs := by
    rw [paragraphs_replacing hs.wellFormed hs.sublist _ hpd, replaced, if_pos hpf]
    exact List.mem_append_left _ List.mem_cons_self
  have hyn := hall y (List.mem_flatMap.2 ⟨p, hp, hy⟩)
  exact (List.nodup_cons.1 (hs.nodup hn)).1 hyn

/-- The new paragraphs give way to others as the range has given way to them. -/
theorem rewrite_join (hw : d'.GivesWay n ns next) :
    (Forest.join (news.map Paragraph.tree)).rewrite (d'.replacing n ns next) =
      Forest.join (next.map Paragraph.tree) := by
  have hstarts := startsOf_eq_nil fun h hh => (hs.unmarked_inside hn hh).starts
  have hends := endsOf_eq_nil fun h hh => (hs.unmarked_inside hn hh).stops
  have hgone : ∀ q ∈ news, q.handle ≠ n → d'.replacing n ns next q = .nil := by
    intro q hq hne
    have hqs : q.handle ∈ ns :=
      (List.mem_cons.1 (hn ▸ List.mem_map_of_mem hq : q.handle ∈ n :: ns)).resolve_left hne
    rw [replacing_others hne, leave, if_pos hqs, if_neg (hs.not_remains hn hqs)]
  obtain ⟨y, rest, rfl, rfl, hrest⟩ := List.map_eq_cons_iff.1 hn
  have hnodup := List.nodup_cons.1 (hs.nodup hn)
  have hnone : rest.map (d'.replacing y.handle ns next) = rest.map fun _ => .nil :=
    List.map_congr_left fun q hq => hgone q (List.mem_cons_of_mem _ hq) fun he =>
      hnodup.1 (hrest ▸ he ▸ List.mem_map_of_mem hq)
  rw [rewrite_join_tree, List.map_cons, hnone, join_cons, join_nils,
    replacing_of_givesWay hw rfl, hstarts, hends]
  simp

theorem replacing_replacing (hw : d.GivesWay first others next) (hw' : d'.GivesWay n ns next)
    (hp : p ∈ d.paragraphs) :
    (d.replacing first others news p).rewrite (d'.replacing n ns next) =
      d.replacing first others next p := by
  have hout : ∀ p : Paragraph, p.handle ∈ d.body.listed →
      d'.replacing n ns next p = p.tree := by
    intro p hp
    refine replacing_of_notMem fun hm => ?_
    obtain ⟨q, hq, hqp⟩ := List.mem_map.1 (hn ▸ hm)
    exact hs.fresh q hq (hqp ▸ hp)
  have hpl : p.handle ∈ d.body.listed := mem_listed_iff.2 ⟨p, hp, rfl⟩
  by_cases hpf : p.handle = first
  · rw [replacing_of_givesWay (givesWay_of_ne_nil (nonempty hn)) hpf,
      replacing_of_givesWay hw hpf, rewrite_append, rewrite_append,
      (allMarks_startsOf _ d).rewrite_eq, (allMarks_endsOf _ d).rewrite_eq, hs.rewrite_join hn hw']
  · rw [replacing_others hpf, replacing_others hpf, leave]
    split
    · split
      · rw [rewrite_tree, hout p.emptied (by simpa using hpl)]
      · rfl
    · rw [rewrite_tree, hout p hpl]

/-- Replacing the new paragraphs is replacing the range. -/
theorem body_replacing (hw : d.GivesWay first others next) (hw' : d'.GivesWay n ns next) :
    d'.body.rewrite (d'.replacing n ns next) = d.body.rewrite (d.replacing first others next) := by
  rw [hs.body, rewrite_rewrite]
  exact rewrite_congr fun p hp => hs.replacing_replacing hn hw hw' hp

end Supplants

end Document

end Redline
