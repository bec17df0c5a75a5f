import Mathlib.Data.List.Infix
import Redline.Execution
import Redline.Proofs.Editing
import Redline.Proofs.Forest.Controls
import Redline.Proofs.Forest.Order

/-!
# The range of an anchor

What an anchor stands for can be told from the document alone: the paragraphs of a content control,
of a bookmark, or of the section of a heading.  All of these are paragraphs of the document, in its
order.

## Main definitions

* `Anchor.headingSection` — the paragraphs of a heading's section.
* `Document.range?` — the range of an anchor.
* `Document.InText` — an anchor that stands for a bookmark or a heading.
-/

namespace Redline

variable {rules : Rules} {host after : Host} {d : Document} {anchor : String}

/-- The heading and what follows it, up to the next heading of its level or a higher one. -/
def Anchor.headingSection (rules : Rules) (passages : List Passage) (p : Passage) : List Handle :=
  match rules.headingLevel? p.style with
  | none => [p.handle]
  | some level =>
    p.handle :: (sectionBody rules level (passages.drop (p.index + 1))).map (·.handle)

theorem Anchor.sectionBody_isPrefix (rules : Rules) (level : Int) (passages : List Passage) :
    sectionBody rules level passages <+: passages :=
  List.takeWhile_prefix _

namespace Document

/-- The range of an anchor that is not the default one.  The anchor of the selection stands for the
selection that was marked last; any other one for the first content control with that tag, else the
first bookmark of that name, else the section of the first heading that answers to it. -/
def range? (rules : Rules) (anchor : String) (d : Document) : Option (List Handle) :=
  if anchor = rules.selectionAnchor then
    match Anchor.numbered rules.selectionPrefix d.body.markers with
    | .ok marked => (Anchor.latest? marked).map fun m => (d.inside m.handle).ownParagraphs
    | .error _ => none
  else match d.body.markers.find? fun m => m.tag == anchor with
  | some m => some (d.inside m.handle).ownParagraphs
  | none => match d.body.bookmarks.find? fun b => b.name == anchor with
    | some b => some (d.body.bookmarkRange b)
    | none => ((Heading.headings rules d.passages).find? fun p =>
        Heading.answersTo p.text anchor).map (Anchor.headingSection rules d.passages)

/-! ## Passages -/

theorem map_handle_passages (d : Document) : d.passages.map (·.handle) = d.body.listed := by
  have hfst : (fun x : Paragraph × Nat => (x.1.passage x.2).handle) =
      (·.handle) ∘ (Prod.fst : Paragraph × Nat → Paragraph) := rfl
  rw [passages, List.map_map, Forest.listed, paragraphs]
  change List.map (fun x : Paragraph × Nat => (x.1.passage x.2).handle) _ = _
  rw [hfst, ← List.map_map, List.zipIdx_map_fst]

theorem getElem?_passages (d : Document) (n : Nat) :
    d.passages[n]? = d.paragraphs[n]?.map (·.passage n) := by
  simp only [passages, List.getElem?_map, List.getElem?_zipIdx, Option.map_map, Nat.zero_add]
  rfl

theorem index_of_getElem? {n : Nat} {p : Passage} (h : d.passages[n]? = some p) : p.index = n := by
  rw [getElem?_passages] at h
  obtain ⟨q, _, rfl⟩ := Option.map_eq_some_iff.1 h
  rfl

theorem getElem?_index {p : Passage} (hp : p ∈ d.passages) : d.passages[p.index]? = some p := by
  obtain ⟨n, hn⟩ := List.mem_iff_getElem?.1 hp
  rwa [index_of_getElem? hn]

theorem getElem?_listed {n : Nat} {p : Passage} (hp : d.passages[n]? = some p) :
    d.body.listed[n]? = some p.handle := by
  rw [← map_handle_passages, List.getElem?_map, hp, Option.map_some]

theorem find?_passages (hn : d.body.listed.Nodup) {p : Passage} (hp : p ∈ d.passages) :
    d.passages.find? (fun q => q.handle == p.handle) = some p :=
  find?_key (by rwa [map_handle_passages]) hp

section
variable {p : Passage} {body : List Passage} (hp : p ∈ d.passages)
  (hb : body <+: d.passages.drop (p.index + 1))
include hp hb

theorem cons_prefix_passages : p :: body <+: d.passages.drop p.index := by
  have hcons : d.passages.drop p.index = p :: d.passages.drop (p.index + 1) := by
    obtain ⟨hlt, hget⟩ := List.getElem?_eq_some_iff.1 (getElem?_index hp)
    rw [List.drop_eq_getElem_cons hlt, hget]
  rw [hcons]
  exact List.prefix_cons_inj p |>.2 hb

/-- The last passage of a section. -/
theorem exists_last_of_isPrefix : ∃ q ∈ d.passages,
    (body.getLast?.map (·.handle)).getD p.handle = q.handle ∧ q.index = p.index + body.length := by
  have hlt : body.length < (p :: body).length := by simp
  refine ⟨(p :: body)[body.length], ?_, ?_, index_of_getElem? (d := d) ?_⟩
  · exact List.mem_of_mem_drop ((cons_prefix_passages hp hb).subset (List.getElem_mem hlt))
  · cases body using List.reverseRecOn with
    | nil => rfl
    | append_singleton body q => simp
  · rw [← List.getElem?_drop, ← List.getElem?_eq_getElem hlt]
    exact (List.prefix_iff_getElem?.1 (cons_prefix_passages hp hb) _ hlt).trans
      (List.getElem?_eq_getElem hlt).symm

theorem slice_listed : Forest.slice d.body.listed p.index (p.index + body.length) =
    p.handle :: body.map (·.handle) := by
  have htake := List.prefix_iff_eq_take.1 (cons_prefix_passages hp hb)
  rw [← map_handle_passages, Forest.slice, ← List.map_drop, ← List.map_take,
    show p.index + body.length + 1 - p.index = (p :: body).length by simp; omega, ← htake]
  rfl

end

end Document

/-! ## Sections -/

namespace Host.Answers

open Editing

variable (ha : host.Answers) (hn : host.document.body.listed.Nodup)
include ha hn

theorem indexOf {p : Passage} (hp : p ∈ host.document.passages) :
    (Host.indexOf p.handle).runOn host = (.ok p.index, host) := by
  simp [Host.indexOf, runOn_bind, ha.paragraphs, Document.find?_passages hn hp]

theorem expandRange {p q : Passage} (hp : p ∈ host.document.passages)
    (hq : q ∈ host.document.passages) (hle : p.index ≤ q.index) :
    (Host.expandRange [p.handle] [q.handle]).runOn host =
      (.ok (Forest.slice host.document.body.listed p.index q.index), host) := by
  simp [Host.expandRange, Host.bodyRange, runOn_bind, runOn_map, ha.paragraphs, ha.indexOf hn hp,
    ha.indexOf hn hq, hle, Document.map_handle_passages]

theorem sectionRange {p : Passage} (hp : p ∈ host.document.passages) :
    (Anchor.sectionRange rules p.handle).runOn host =
      (.ok (Anchor.headingSection rules host.document.passages p), host) := by
  simp only [Anchor.sectionRange, runOn_bind, ha.paragraphs, ha.indexOf hn hp,
    Document.getElem?_index hp, Option.bind_some, Anchor.headingSection]
  cases rules.headingLevel? p.style with
  | none => rfl
  | some level =>
    have hbody := Anchor.sectionBody_isPrefix rules level (host.document.passages.drop (p.index + 1))
    obtain ⟨q, hq, hlast, hindex⟩ := Document.exists_last_of_isPrefix hp hbody
    simp only [hlast]
    rw [ha.expandRange hn hp hq (by omega), hindex, Document.slice_listed hp hbody]

end Host.Answers

/-! ## Resolution -/

/-- What a strategy finds for an anchor that is not the default one. -/
def Document.attempt? (rules : Rules) (anchor : String) (d : Document) :
    Strategy → Option Resolution
  | .marker => (d.body.markers.find? fun m => m.tag == anchor).map fun m =>
    ⟨.marker, (d.inside m.handle).ownParagraphs, none⟩
  | .bookmark => (d.body.bookmarks.find? fun b => b.name == anchor).map fun b =>
    ⟨.bookmark, d.body.bookmarkRange b, none⟩
  | .heading => ((Heading.headings rules d.passages).find? fun p =>
    Heading.answersTo p.text anchor).map fun p => ⟨.heading, [p.handle], some p⟩
  | .default => none

theorem Editing.catchRefusal_of_ok {α : Type} {work : Editing α} {a : α}
    (h : work.runOn host = (.ok a, after)) :
    (catchRefusal work).runOn host = (.ok (.ok a), after) := by
  simp [catchRefusal, runOn_tryCatch, runOn_map, h]

section
variable {strategy : Strategy} {rest : List Strategy} {refusals : List (String × String)}

theorem Anchor.resolveFrom_found {found : Resolution}
    (h : (attempt rules anchor strategy).runOn host = (.ok (some found), host)) :
    (resolveFrom rules anchor refusals (strategy :: rest)).runOn host = (.ok found, host) := by
  rw [resolveFrom, Editing.runOn_bind, Editing.catchRefusal_of_ok h]
  rfl

/-- A strategy that finds nothing leaves it to the others. -/
theorem Anchor.resolveFrom_none
    (h : (attempt rules anchor strategy).runOn host = (.ok none, host)) :
    (resolveFrom rules anchor refusals (strategy :: rest)).runOn host =
      (resolveFrom rules anchor refusals rest).runOn host := by
  rw [resolveFrom, Editing.runOn_bind, Editing.catchRefusal_of_ok h]

end

theorem Anchor.runOn_ensureHost (h : host.isOpen = true) :
    ensureHost.runOn host = (.ok (), host) := by
  simp [ensureHost, Editing.runOn_bind, h]

theorem Anchor.resolve_of_isOpen (h : host.isOpen = true) :
    (resolve rules anchor).runOn host = (resolveFrom rules anchor [] Strategy.all).runOn host := by
  rw [resolve, Editing.runOn_bind, runOn_ensureHost h]

namespace Host.Answers

open Editing

section
variable (ha : host.Answers) (hne : anchor ≠ rules.defaultAnchor)
include ha hne

theorem attempt (strategy : Strategy) :
    (Anchor.attempt rules anchor strategy).runOn host =
      (.ok (host.document.attempt? rules anchor strategy), host) := by
  cases strategy with
  | marker =>
    simp only [Anchor.attempt, Anchor.byMarker, runOn_bind, ha.markers, Document.attempt?]
    cases host.document.body.markers.find? fun m => m.tag == anchor <;>
      simp [runOn_map, ha.markerRange]
  | bookmark =>
    simp only [Anchor.attempt, Anchor.byBookmark, runOn_bind, ha.bookmarks, Document.attempt?]
    cases host.document.body.bookmarks.find? fun b => b.name == anchor <;>
      simp [runOn_map, ha.bookmarkRange]
  | heading =>
    simp only [Anchor.attempt, Anchor.byHeading, runOn_bind, ha.paragraphs, Document.attempt?]
    cases (Heading.headings rules host.document.passages).find? fun p =>
      Heading.answersTo p.text anchor <;> rfl
  | default => simp [Anchor.attempt, Anchor.byDefault, hne, Document.attempt?]

theorem resolveFrom {refusals : List (String × String)} {strategies : List Strategy}
    {found : Resolution} :
    (Anchor.resolveFrom rules anchor refusals strategies).runOn host = (.ok found, after) ↔
      strategies.findSome? (host.document.attempt? rules anchor) = some found ∧ after = host := by
  induction strategies with
  | nil => simp [Anchor.resolveFrom]
  | cons strategy rest ih =>
    have hattempt := ha.attempt hne strategy
    rw [List.findSome?_cons]
    cases hf : host.document.attempt? rules anchor strategy with
    | none =>
      rw [Anchor.resolveFrom_none (hf ▸ hattempt)]
      exact ih
    | some f =>
      rw [Anchor.resolveFrom_found (hf ▸ hattempt)]
      simp [eq_comm]

theorem resolve {found : Resolution} :
    (Anchor.resolve rules anchor).runOn host = (.ok found, after) ↔
      Strategy.all.findSome? (host.document.attempt? rules anchor) = some found ∧
        after = host := by
  rw [Anchor.resolve_of_isOpen ha.isOpen, ha.resolveFrom hne]

end

theorem replacedRange (ha : host.Answers) (hn : host.document.body.listed.Nodup)
    {setting : Execution.Setting} (hne : anchor ≠ setting.rules.defaultAnchor)
    {range : List Handle} :
    (Execution.replacedRange setting anchor).runOn host = (.ok range, after) ↔
      host.document.range? setting.rules anchor = some range ∧ after = host := by
  by_cases hs : anchor = setting.rules.selectionAnchor
  · simp only [Execution.replacedRange, if_pos hs, Anchor.latestSelection, runOn_bind, ha.markers,
      Document.range?]
    cases Anchor.numbered setting.rules.selectionPrefix host.document.body.markers with
    | error fault => simp [lift]
    | ok marked =>
      cases hl : Anchor.latest? marked with
      | none => simp [hl]
      | some m => simp [hl, runOn_map, ha.markerRange, eq_comm]
  · have hheading : ∀ p ∈ Heading.headings setting.rules host.document.passages,
        p ∈ host.document.passages := fun p hp => List.mem_of_mem_filter hp
    simp only [Execution.replacedRange, if_neg hs, bind_eq_ok, ha.resolve hne, Document.range?,
      Strategy.all, List.findSome?_cons, List.findSome?_nil, Document.attempt?]
    cases host.document.body.markers.find? fun m => m.tag == anchor with
    | some m => simp [eq_comm]
    | none =>
      cases host.document.body.bookmarks.find? fun b => b.name == anchor with
      | some b => simp [eq_comm]
      | none =>
        cases hf : (Heading.headings setting.rules host.document.passages).find? fun p =>
          Heading.answersTo p.text anchor with
        | some p =>
          have hp := hheading p (List.mem_of_find?_eq_some hf)
          simp [ha.sectionRange hn hp, eq_comm]
        | none => simp

end Host.Answers

/-! ## Ranges and the document -/

namespace Forest

variable {f : Forest}

theorem slice_isInfix {α : Type} (l : List α) (i j : Nat) : slice l i j <:+: l :=
  (List.take_prefix _ _).isInfix.trans (List.drop_suffix _ _).isInfix

/-- A content control is found by its handle, and what it holds is part of the forest. -/
theorem tree?_of_mem_markers (hn : f.handles.Nodup) {m : Marker} (hm : m ∈ f.markers) :
    ∃ e inside, f.tree? m.handle = some (single e inside) ∧ inside.listed.Sublist f.listed := by
  obtain ⟨inside, hc⟩ := exists_control hm
  obtain ⟨e, htree⟩ := tree?_of_mem_controls hn hc
  exact ⟨e, inside, htree, (sublist_of_mem_controls hc).map _⟩

theorem bookmarkRange_isInfix (f : Forest) (b : Bookmark) : f.bookmarkRange b <:+: f.listed := by
  unfold bookmarkRange
  cases b.opensIn with
  | none => exact List.nil_infix
  | some first =>
    simp only
    cases (f.paragraphs.map (·.handle)).findIdx? (· == first) with
    | none => exact List.nil_infix
    | some i => exact slice_isInfix _ _ _

end Forest

namespace Anchor

theorem mem_of_latest? {marked : List (Int × Marker)} {m : Marker}
    (h : latest? marked = some m) : m ∈ marked.map Prod.snd := by
  have hfold : ∀ (best : Int × Option Marker), (marked.foldl
      (fun (best : Int × Option Marker) (x : Int × Marker) =>
        if best.1 < x.1 then (x.1, some x.2) else best) best).2 = some m →
      best.2 = some m ∨ m ∈ marked.map Prod.snd := by
    clear h
    induction marked with
    | nil => exact fun best h => .inl h
    | cons x rest ih =>
      intro best h
      rcases ih _ h with hm | hm
      · simp only at hm
        split at hm
        · obtain rfl := Option.some.inj hm
          exact .inr (by simp)
        · exact .inl hm
      · exact .inr (List.mem_cons_of_mem _ hm)
  exact (hfold (0, none) h).resolve_left (by simp)

theorem subset_of_numbered {start : String} {markers : List Marker} {marked : List (Int × Marker)}
    (h : numbered start markers = .ok marked) : marked.map Prod.snd ⊆ markers := by
  induction markers generalizing marked with
  | nil => simp_all [numbered]
  | cons m rest ih =>
    obtain ⟨number, _, h⟩ := Editing.except_bind_eq_ok.1 h
    obtain ⟨others, hothers, h⟩ := Editing.except_bind_eq_ok.1 h
    obtain rfl := Except.ok.inj h
    have := ih hothers
    cases number with
    | none => exact fun x hx => List.mem_cons_of_mem _ (this hx)
    | some n => exact List.cons_subset_cons _ this

end Anchor

namespace Document

theorem ownParagraphs_inside_sublist (hd : d.WellFormed) {m : Marker} (hm : m ∈ d.body.markers) :
    (d.inside m.handle).ownParagraphs.Sublist d.body.listed := by
  obtain ⟨e, inside, htree, hsub⟩ := Forest.tree?_of_mem_markers hd.nodup_body hm
  have : d.inside m.handle = inside := by simp [Document.inside, tree?, htree, Forest.single]
  rw [this, Forest.ownParagraphs_eq]
  exact ((Forest.own_sublist_paragraphs inside).map _).trans hsub

theorem headingSection_isInfix {p : Passage} (hp : p ∈ d.passages) :
    Anchor.headingSection rules d.passages p <:+: d.body.listed := by
  rw [← map_handle_passages, Anchor.headingSection]
  split
  · exact (List.singleton_infix_iff _ _).2 (List.mem_map_of_mem hp)
  · next level _ =>
    have hlead := cons_prefix_passages hp (Anchor.sectionBody_isPrefix rules level _)
    exact (hlead.isInfix.trans (List.drop_suffix _ _).isInfix).map _

/-- The range of an anchor consists of paragraphs of the document, in its order. -/
theorem range?_sublist (hd : d.WellFormed) {range : List Handle}
    (h : d.range? rules anchor = some range) : range.Sublist d.body.listed := by
  unfold range? at h
  split at h
  · split at h
    · obtain ⟨m, hm, rfl⟩ := Option.map_eq_some_iff.1 h
      next marked hmarked =>
      exact ownParagraphs_inside_sublist hd
        (Anchor.subset_of_numbered hmarked (Anchor.mem_of_latest? hm))
    · exact absurd h (by simp)
  · split at h
    · next m hm =>
      obtain rfl := Option.some.inj h
      exact ownParagraphs_inside_sublist hd (List.mem_of_find?_eq_some hm)
    · split at h
      · next b _ =>
        obtain rfl := Option.some.inj h
        exact (d.body.bookmarkRange_isInfix b).sublist
      · obtain ⟨p, hp, rfl⟩ := Option.map_eq_some_iff.1 h
        exact (headingSection_isInfix
          (List.mem_of_mem_filter (List.mem_of_find?_eq_some hp))).sublist

/-- An anchor without a meaning of its own that is not the tag of a content control.  It stands for a
bookmark or a heading, if for anything. -/
structure InText (rules : Rules) (anchor : String) (d : Document) : Prop where
  ne_default : anchor ≠ rules.defaultAnchor
  ne_selection : anchor ≠ rules.selectionAnchor
  untagged : ∀ m ∈ d.body.markers, m.tag ≠ anchor

/-- The range of a bookmark or of a heading consists of consecutive paragraphs. -/
theorem InText.range?_isInfix (ht : d.InText rules anchor) {range : List Handle}
    (h : d.range? rules anchor = some range) : range <:+: d.body.listed := by
  have hmarker : (d.body.markers.find? fun m => m.tag == anchor) = none := by
    simpa using ht.untagged
  rw [range?, if_neg ht.ne_selection, hmarker] at h
  simp only at h
  split at h
  · next b _ =>
    obtain rfl := Option.some.inj h
    exact d.body.bookmarkRange_isInfix b
  · obtain ⟨p, hp, rfl⟩ := Option.map_eq_some_iff.1 h
    exact headingSection_isInfix (List.mem_of_mem_filter (List.mem_of_find?_eq_some hp))

end Document

end Redline
