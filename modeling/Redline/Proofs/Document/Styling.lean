import Redline.Proofs.Document.Carrying
import Redline.Proofs.Document.Regaining
import Redline.Proofs.Forest.Correcting

/-!
# Styling paragraphs

A style changes the looks of a paragraph's own runs and the alignment of the paragraph.  What is read
off a document otherwise, the list of its paragraphs, its bookmarks and its content controls, stays
what it was, whichever paragraphs are styled.

## Main definitions

* `Finish` — what a style gives to a paragraph.
* `Paragraph.finished`, `Document.finished` — a paragraph with a finish, and a document some of whose
  paragraphs have got one.
* `Paragraph.HasFinish`, `Document.HasFinish` — what this changes, and what it leaves alone.

## Main results

* `Document.becomes_finished` — the effects that finish paragraphs one by one.
-/

namespace Redline

/-- What a style gives to a paragraph; what it leaves out stays as it is. -/
structure Finish where
  color : Option String
  bold : Option Bool
  alignment : Option Alignment
deriving DecidableEq, Repr

/-- A look with a finish. -/
def RunFormat.finished (finish : Finish) (format : RunFormat) : RunFormat :=
  { format with bold := finish.bold.or format.bold, color := finish.color.or format.color }

namespace Paragraph

/-- A paragraph with a finish. -/
def finished (finish : Finish) (p : Paragraph) : Paragraph :=
  { p with
    alignment := finish.alignment.or p.alignment
    content := p.content.formatRuns (·.finished finish) }

/-- The second paragraph is the first one with a finish. -/
structure HasFinish (finish : Finish) (p q : Paragraph) : Prop where
  handle : q.handle = p.handle
  style : q.style = p.style
  text : q.content.shownText = p.content.shownText
  alignment : q.alignment = finish.alignment.or p.alignment
  /-- There are as many elements as before. -/
  none_iff : ∀ k, q.content.child? k = none ↔ p.content.child? k = none
  /-- Links and marks stay, with what is inside them. -/
  other : ∀ k e inside, p.content.child? k = some (e, inside) →
    (∀ text format, e ≠ .run text format) → q.content.child? k = some (e, inside)
  /-- Runs keep their text and what is inside them; they get the color and the weight. -/
  run : ∀ k text format inside, p.content.child? k = some (.run text format, inside) →
    ∃ format', q.content.child? k = some (.run text format', inside) ∧
      format'.color = finish.color.or format.color ∧ format'.bold = finish.bold.or format.bold

end Paragraph

namespace Document

/-- A document in which the paragraphs of some styles have got a finish. -/
def finished (meant : String → Bool) (finish : Finish) (d : Document) : Document :=
  d.rewrite fun p => (if meant p.style then p.finished finish else p).tree

/-- The second document is the first one with a finish on the paragraphs of some styles. -/
structure HasFinish (meant : String → Bool) (finish : Finish) (d d' : Document) : Prop where
  /-- Every paragraph stays where it is; those that are meant get the finish, and the others stay as
  they are. -/
  rewritten : ∃ r : Paragraph → Paragraph, d' = d.rewrite (fun p => (r p).tree) ∧
    ∀ p ∈ d.paragraphs, (meant p.style = true → p.HasFinish finish (r p)) ∧
      (meant p.style = false → r p = p)
  /-- No paragraph has got another text, style or position. -/
  passages : d'.passages = d.passages
  bookmarks : d'.body.bookmarks = d.body.bookmarks
  bookmarkRange : ∀ b, d'.body.bookmarkRange b = d.body.bookmarkRange b
  markers : d'.body.markers = d.body.markers
  markerRange : ∀ m ∈ d.body.markers,
    (d'.inside m.handle).ownParagraphs = (d.inside m.handle).ownParagraphs

end Document

/-! ## One paragraph -/

namespace Forest

variable {change : RunFormat → RunFormat} {f : Forest}

@[simp] theorem shownText_formatRuns (f : Forest) :
    (f.formatRuns change).shownText = f.shownText := by
  induction f with
  | nil => rfl
  | cons e inside rest _ ih => cases e <;> simp [formatRuns, shownText, ih]

@[simp] theorem bookmarksIn_formatRuns (holder : Option Handle) (f : Forest) :
    (f.formatRuns change).bookmarksIn holder = f.bookmarksIn holder := by
  induction f with
  | nil => rfl
  | cons e inside rest _ ih => cases e <;> simp [formatRuns, bookmarksIn, holderInside, ih]

@[simp] theorem bookmarkEndsIn_formatRuns (holder before : Option Handle) (f : Forest) :
    (f.formatRuns change).bookmarkEndsIn holder before = f.bookmarkEndsIn holder before := by
  induction f generalizing before with
  | nil => rfl
  | cons e inside rest _ ih => cases e <;>
    simp [formatRuns, bookmarkEndsIn, holderInside, lastParagraph, ih]

theorem formatRuns_formatRuns (first second : RunFormat → RunFormat) (f : Forest) :
    (f.formatRuns first).formatRuns second = f.formatRuns fun format => second (first format) := by
  induction f with
  | nil => rfl
  | cons e inside rest _ ih => cases e <;> simp [formatRuns, ih]

theorem formatRuns_self (f : Forest) : f.formatRuns (fun format => format) = f := by
  induction f with
  | nil => rfl
  | cons e inside rest _ ih => cases e <;> simp [formatRuns, ih]

/-- The elements of a forest whose runs have got other looks. -/
theorem child?_formatRuns (k : Nat) (f : Forest) :
    (f.formatRuns change).child? k = (f.child? k).map fun child =>
      match child with
      | (.run text format, inside) => (.run text (change format), inside)
      | child => child := by
  induction f generalizing k with
  | nil => simp [formatRuns]
  | cons e inside rest _ ih => cases e <;> cases k <;> simp [formatRuns, child?, ih]

end Forest

namespace Paragraph

theorem hasFinish_finished (finish : Finish) (p : Paragraph) :
    p.HasFinish finish (p.finished finish) where
  handle := rfl
  style := rfl
  text := Forest.shownText_formatRuns _
  alignment := rfl
  none_iff k := by simp [finished, Forest.child?_formatRuns]
  other k e inside hk he := by
    rw [finished, Forest.child?_formatRuns, hk]
    cases e with
    | run text format => exact absurd rfl (he text format)
    | _ => rfl
  run k text format inside hk := by
    refine ⟨format.finished finish, ?_, rfl, rfl⟩
    rw [finished, Forest.child?_formatRuns, hk]
    rfl

theorem isEdit_finished (finish : Finish) (p : Paragraph) : p.IsEdit (p.finished finish) :=
  ⟨rfl, by simp [finished, Forest.OfKind], by simp [finished]⟩

/-- A paragraph and another one in its place that has its marks. -/
structure SameMarks (p q : Paragraph) : Prop where
  handle : q.handle = p.handle
  everyParagraph : q.content.everyParagraph = p.content.everyParagraph
  bookmarksIn : ∀ holder, q.content.bookmarksIn holder = p.content.bookmarksIn holder
  bookmarkEndsIn : ∀ holder before,
    q.content.bookmarkEndsIn holder before = p.content.bookmarkEndsIn holder before

theorem sameMarks_refl (p : Paragraph) : p.SameMarks p := ⟨rfl, rfl, fun _ => rfl, fun _ _ => rfl⟩

theorem sameMarks_finished (finish : Finish) (p : Paragraph) : p.SameMarks (p.finished finish) :=
  ⟨rfl, by simp [finished], by simp [finished], by simp [finished]⟩

end Paragraph

/-! ## The marks of a document -/

namespace Forest

section
variable {r : Paragraph → Paragraph} (hr : ∀ p : Paragraph, p.SameMarks (r p))
include hr

theorem everyParagraph_rewrite (f : Forest) :
    (f.rewrite fun p => (r p).tree).everyParagraph = f.everyParagraph := by
  induction f using paragraphInduction with
  | nil => rfl
  | paragraph p rest _ ih =>
    have hp := hr p
    rw [rewrite_cons_paragraph, tree_append]
    simp [everyParagraph, Paragraph.element, hp.handle, hp.everyParagraph, ih]
  | other e inside rest he ihi ihr =>
    rw [rewrite_cons_other _ _ he]
    cases e <;> simp_all [everyParagraph, Element.isParagraph]

theorem bookmarksIn_rewrite (holder : Option Handle) (f : Forest) :
    (f.rewrite fun p => (r p).tree).bookmarksIn holder = f.bookmarksIn holder := by
  induction f using paragraphInduction generalizing holder with
  | nil => rfl
  | paragraph p rest _ ih =>
    have hp := hr p
    rw [rewrite_cons_paragraph, tree_append]
    simp [bookmarksIn, Paragraph.element, holderInside, hp.handle, hp.bookmarksIn, ih]
  | other e inside rest he ihi ihr =>
    rw [rewrite_cons_other _ _ he]
    cases e <;> simp_all [bookmarksIn, everyParagraph_rewrite hr]

theorem bookmarkEndsIn_rewrite (holder before : Option Handle)
    (f : Forest) :
    (f.rewrite fun p => (r p).tree).bookmarkEndsIn holder before =
      f.bookmarkEndsIn holder before := by
  induction f using paragraphInduction generalizing holder before with
  | nil => rfl
  | paragraph p rest _ ih =>
    have hp := hr p
    rw [rewrite_cons_paragraph, tree_append]
    simp [bookmarkEndsIn, Paragraph.element, holderInside, lastParagraph, hp.handle,
      hp.bookmarkEndsIn, ih]
  | other e inside rest he ihi ihr =>
    rw [rewrite_cons_other _ _ he]
    cases e <;> simp_all [bookmarkEndsIn, lastParagraph, everyParagraph_rewrite hr]

theorem listed_rewrite_tree (f : Forest) :
    (f.rewrite fun p => (r p).tree).listed = f.listed :=
  listed_rewrite_of_listed fun p => by rw [listed_tree, (hr p).handle]

theorem bookmarkRange_rewrite (f : Forest) (b : Bookmark) :
    (f.rewrite fun p => (r p).tree).bookmarkRange b = f.bookmarkRange b := by
  have hlisted : (f.rewrite fun p => (r p).tree).paragraphs.map (·.handle) =
      f.paragraphs.map (·.handle) := listed_rewrite_tree hr f
  rw [bookmarkRange, bookmarkRange, hlisted, bookmarkEnds, bookmarkEnds, bookmarkEndsIn_rewrite hr]

theorem ownParagraphs_rewrite (f : Forest) :
    (f.rewrite fun p => (r p).tree).ownParagraphs = f.ownParagraphs := by
  rw [ownParagraphs_eq, ownParagraphs_eq, own_rewrite fun p => flat_tree (r p), List.map_flatMap,
    List.map_eq_flatMap]
  exact List.flatMap_congr fun p _ => by simp [(hr p).handle]

end

end Forest

namespace Document

variable {d : Document} {r : Paragraph → Paragraph} {m : Marker}

/-- What a content control holds directly stays in it. -/
theorem markerRange_rewrite (hd : d.WellFormed) (hr : ∀ p : Paragraph, p.SameMarks (r p))
    (he : ∀ p ∈ d.paragraphs, p.IsEdit (r p)) (hm : m ∈ d.body.markers) :
    ((d.rewrite fun p => (r p).tree).inside m.handle).ownParagraphs =
      (d.inside m.handle).ownParagraphs := by
  obtain ⟨inside, hinside⟩ := Forest.exists_control hm
  have hthere : (m, inside.rewrite fun p => (r p).tree) ∈
      (d.rewrite fun p => (r p).tree).body.controls := by
    rw [Document.rewrite, Forest.controls_rewrite fun p _ => Forest.controls_tree (r p)]
    exact List.mem_map.2 ⟨_, hinside, rfl⟩
  rw [inside_of_mem_controls hd hinside, inside_of_mem_controls (hd.edited he) hthere,
    Forest.ownParagraphs_rewrite hr]

/-! ## Finishing paragraphs -/

variable {meant : String → Bool} {finish : Finish}

theorem isEdit_finished_if (meant : String → Bool) (finish : Finish) (p : Paragraph) :
    p.IsEdit (if meant p.style then p.finished finish else p) := by
  split
  · exact p.isEdit_finished finish
  · exact .refl p

theorem WellFormed.finished (hd : d.WellFormed) (meant : String → Bool) (finish : Finish) :
    (d.finished meant finish).WellFormed :=
  hd.edited fun p _ => isEdit_finished_if meant finish p

/-- A finish leaves alone what is not part of it. -/
theorem hasFinish_finished (hd : d.WellFormed) (meant : String → Bool) (finish : Finish) :
    d.HasFinish meant finish (d.finished meant finish) := by
  have hmarks : ∀ p : Paragraph, p.SameMarks (if meant p.style then p.finished finish else p) := by
    intro p
    split
    · exact p.sameMarks_finished finish
    · exact p.sameMarks_refl
  constructor
  case rewritten =>
    refine ⟨_, rfl, fun p _ => ⟨fun hp => ?_, fun hp => by simp [hp]⟩⟩
    rw [if_pos hp]
    exact p.hasFinish_finished finish
  case passages =>
    rw [passages, passages, finished, paragraphs_rewrite_tree, List.zipIdx_map, List.map_map]
    refine List.map_congr_left fun e _ => ?_
    simp only [Function.comp_apply, Prod.map_fst]
    split <;> simp [Paragraph.passage, Paragraph.text, Paragraph.finished]
  case bookmarks => exact Forest.bookmarksIn_rewrite hmarks none d.body
  case bookmarkRange => exact Forest.bookmarkRange_rewrite hmarks d.body
  case markers => exact Forest.markers_rewrite fun p _ => Forest.controls_tree _
  case markerRange =>
    exact fun m => markerRange_rewrite hd hmarks fun p _ => isEdit_finished_if meant finish p

/-- Two kinds of paragraphs get a finish at once or one kind after the other. -/
theorem finished_finished {other : String → Bool}
    (hapart : ∀ name, meant name = true → other name = false) (finish : Finish) (d : Document) :
    (d.finished meant finish).finished other finish =
      d.finished (fun name => meant name || other name) finish := by
  rw [finished, finished, finished, Document.rewrite, Document.rewrite, Document.rewrite,
    Forest.rewrite_rewrite]
  congr 1
  refine Forest.rewrite_congr fun p _ => ?_
  rw [Forest.rewrite_tree]
  cases hp : meant p.style with
  | true => simp [Paragraph.finished, hapart _ hp]
  | false => simp

/-- Paragraphs that get all the looks of a finish, one paragraph after the other, get the finish. -/
theorem becomes_finished (hd : d.WellFormed) {looks : List Look}
    (hl : ∀ (sheet : Stylesheet) (p : Paragraph),
      Look.giveAll sheet p looks = some (p.finished finish)) {handles : List Handle}
    (hn : handles.Nodup) (hs : handles ⊆ d.body.listed) :
    d.Becomes (handles.flatMap fun h => looks.map (·.effect h))
      (d.rewrite fun p => (if p.handle ∈ handles then p.finished finish else p).tree) := by
  induction handles generalizing d with
  | nil => simp [Document.rewrite, Forest.rewrite_self]
  | cons h rest ih =>
    obtain ⟨hfresh, hapart⟩ := List.nodup_cons.1 hn
    obtain ⟨hfirst, hrest⟩ := List.cons_subset.1 hs
    obtain ⟨p, hp, rfl⟩ := mem_listed_iff.1 hfirst
    rw [List.flatMap_cons, becomes_append]
    refine ⟨d.put (p.finished finish), (becomes_looks hd hp looks).2 ⟨_, hl _ p, rfl⟩, ?_⟩
    have hafter := ih (hd.put hp (p.isEdit_finished finish)) hapart (by rwa [listed_put])
    -- The paragraph that has got its looks is none of those that follow.
    have hboth : (d.put (p.finished finish)).rewrite
          (fun q => (if q.handle ∈ rest then q.finished finish else q).tree) =
        d.rewrite fun q => (if q.handle ∈ p.handle :: rest then q.finished finish else q).tree := by
      rw [put_eq_rewrite, Document.rewrite, Document.rewrite, Document.rewrite,
        Forest.rewrite_rewrite]
      congr 1
      refine Forest.rewrite_congr fun q hq => ?_
      rw [Forest.rewrite_tree]
      by_cases hqp : q.handle = p.handle
      · obtain rfl := hd.eq_of_handle_eq hq hp hqp
        simp [Paragraph.finished, hfresh]
      · have hother : q.handle ≠ (p.finished finish).handle := hqp
        simp [hother, hqp]
    rwa [hboth] at hafter

end Document

end Redline
