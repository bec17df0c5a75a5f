import Redline.Proofs.Document.Accepting
import Redline.Proofs.Document.Replacing

/-!
# Paragraphs in their place

An effect that works at the place of a paragraph needs that paragraph to be in its place when its
turn comes: beside a paragraph that stands nowhere nothing can be put, and one that stands nowhere
cannot be taken out.  What is queued for new paragraphs or for a range never takes a place away that
a later effect of the same queue works at.

## Main definitions

* `Document.Live` — a range of paragraphs that are all in their place.
* `Effect.place?` — the paragraph whose place an effect works at.
* `Document.FindsPlaces` — effects that each find their paragraph in its place.

## Main results

* `Document.WellFormed.live` — paragraphs of the document, in its order, are in their place.
* `Document.findsPlaces_chain`, `Document.findsPlaces_replacement`,
  `Document.findsPlaces_bodyChain`, `Document.findsPlaces_clearBody` — the queues of insertions and
  replacements.
-/

namespace Redline

/-- The paragraph whose place in the document an effect works at. -/
def Effect.place? : Effect → Option Handle
  | .insertBeside _ _ _ anchor => some anchor
  | .clearRange keep _ => some keep
  | .delete paragraph => some paragraph
  | _ => none

namespace Document

variable {d mid : Document} {h anchor first : Handle} {others range : List Handle} {e : Effect}
  {effects front rest : List Effect} {insertions : List Insertion}

/-! ## Live ranges -/

/-- The paragraphs of a range are paragraphs of the document, in its order and each of them once;
they stand in the body, none of them inside another paragraph, and each stands inside something. -/
structure Live (d : Document) (range : List Handle) : Prop where
  ordered : range.Sublist d.body.listed
  distinct : range.Nodup
  attached : ∀ h ∈ range, d.attached h = true
  outermost : ∀ h ∈ range, ∀ p ∈ d.paragraphs, h ∉ p.content.handles
  placed : ∀ h ∈ range, d.standing h = .placed

/-- A paragraph of a document stands in its body, and so inside something. -/
theorem WellFormed.inPlace (hd : d.WellFormed) (hl : h ∈ d.body.listed) :
    d.attached h = true ∧ d.standing h = .placed := by
  have hbody : h ∈ d.body.handles := (Forest.listed_sublist_handles _).subset hl
  exact ⟨Forest.holds_iff.2 hbody, hd.standing_eq_placed hbody⟩

/-- Paragraphs of a document, in its order, are in their place. -/
theorem WellFormed.live (hd : d.WellFormed) (hs : range.Sublist d.body.listed) : d.Live range where
  ordered := hs
  distinct := hd.nodup_listed.sublist hs
  attached _ hh := (hd.inPlace (hs.subset hh)).1
  outermost _ hh _ hp := Forest.notMem_content hd.nodup_body (hs.subset hh) hp
  placed _ hh := (hd.inPlace (hs.subset hh)).2

/-! ## Effects and the places they work at -/

/-- Each effect finds the paragraph at whose place it works in its place, in the document that the
effects before it have made. -/
def FindsPlaces (d : Document) : List Effect → Prop
  | [] => True
  | e :: rest => (∀ h, e.place? = some h → d.attached h = true ∧ d.standing h = .placed) ∧
    ∀ mid, e.apply d = (mid, none) → mid.FindsPlaces rest

namespace FindsPlaces

theorem append (hf : d.FindsPlaces front)
    (hr : ∀ mid, d.Becomes front mid → mid.FindsPlaces rest) : d.FindsPlaces (front ++ rest) := by
  induction front generalizing d with
  | nil => exact hr d rfl
  | cons e front ih =>
    refine ⟨hf.1, fun next happly => ih (hf.2 next happly) fun mid hmid => ?_⟩
    exact hr mid (becomes_cons.2 ⟨next, happly, hmid⟩)

/-- The first effect works at no place. -/
theorem cons_placeless (he : e.place? = none)
    (hr : ∀ mid, e.apply d = (mid, none) → mid.FindsPlaces rest) : d.FindsPlaces (e :: rest) :=
  ⟨fun h hh => by simp [he] at hh, hr⟩

/-- Effects that work at no place find all there is to find. -/
theorem of_placeless (he : ∀ e ∈ effects, e.place? = none) : d.FindsPlaces effects := by
  induction effects generalizing d with
  | nil => trivial
  | cons e rest ih =>
    obtain ⟨hfirst, hrest⟩ := List.forall_mem_cons.1 he
    exact cons_placeless hfirst fun mid _ => ih hrest

/-- The first effect works at the place of a paragraph of the document. -/
theorem cons_listed (hd : d.WellFormed) (he : e.place? = some h) (hl : h ∈ d.body.listed)
    (hr : ∀ mid, e.apply d = (mid, none) → mid.FindsPlaces rest) : d.FindsPlaces (e :: rest) := by
  refine ⟨fun k hk => ?_, hr⟩
  obtain rfl : h = k := Option.some.inj (he.symm.trans hk)
  exact hd.inPlace hl

/-- Whatever effects have been applied by then, the next one finds its paragraph in its place. -/
theorem inPlace (hf : d.FindsPlaces (front ++ e :: rest)) (hb : d.Becomes front mid)
    (he : e.place? = some h) : mid.attached h = true ∧ mid.standing h = .placed := by
  induction front generalizing d with
  | nil =>
    obtain rfl := becomes_nil.1 hb
    exact hf.1 h he
  | cons first front ih =>
    obtain ⟨next, happly, hrest⟩ := becomes_cons.1 hb
    exact ih (hf.2 next happly) hrest

end FindsPlaces

/-! ## The queues of insertions and replacements -/

theorem findsPlaces_looks (h : Handle) (looks : List Look) :
    d.FindsPlaces (looks.map (·.effect h)) :=
  .of_placeless fun e he => by
    obtain ⟨look, _, rfl⟩ := List.mem_map.1 he
    cases look <;> rfl

/-- Each new paragraph goes beside one that is in its place. -/
theorem findsPlaces_chain {side : Side} (hd : d.WellFormed) (hl : anchor ∈ d.body.listed)
    (ha : d.Awaits insertions) : d.FindsPlaces (chain side anchor insertions) := by
  induction insertions generalizing d anchor side with
  | nil => trivial
  | cons i rest ih =>
    have hwait := ha.waiting i List.mem_cons_self
    rw [chain, ← List.cons_append]
    refine .append (.cons_listed hd rfl hl fun mid _ => findsPlaces_looks _ _) fun mid hmid => ?_
    -- The new paragraph has got its looks, and the next one goes behind it.
    obtain ⟨q, hq, rfl⟩ := (becomes_first hd hl hwait side _ _).1 hmid
    have hedit := Look.isEdit_giveAll hq
    exact ih (hd.inserted hl hwait side hedit)
      (mem_listed_iff.2 ⟨q, mem_inserted hl side _, hedit.handle⟩) ha.tail

/-- A range is cleared, filled and rid of its remnant at a place that stays. -/
theorem findsPlaces_replacement (hd : d.WellFormed) (hn : (first :: others).Nodup)
    (hl : (first :: others) ⊆ d.body.listed) (ha : d.Awaits insertions) :
    d.FindsPlaces (replacementEffects first others insertions) := by
  obtain ⟨hwell, hfirst, hawaits⟩ := ready_clear hd hn hl ha
  refine .cons_listed hd rfl (hl List.mem_cons_self) fun mid hmid => ?_
  rw [apply_clearRange hd hn (hl List.mem_cons_self)] at hmid
  obtain rfl := (Prod.mk.inj hmid).1
  refine .append (findsPlaces_chain hwell hfirst hawaits) fun mid hmid => ?_
  have hmidWell := hwell.becomes hmid fun _ he => keeps_chain he
  obtain ⟨news, _, rfl⟩ := (becomes_chain hwell hfirst hawaits).1 hmid
  have hstays : first ∈ (((d.clear first others).dropAll
      (insertions.map (·.paragraph.handle))).rewriteAt first (·.beside .before news)).body.listed :=
    mem_listed_rewriteAt (by simpa using hfirst) fun p _ hp _ => by simp [Paragraph.beside, hp]
  exact .cons_listed hmidWell rfl hstays fun _ _ => trivial

/-- The first new paragraph goes to an end of the body, each other one behind the one before it. -/
theorem findsPlaces_bodyChain {edge : Edge} (hd : d.WellFormed) (ha : d.Awaits insertions) :
    d.FindsPlaces (bodyChain edge insertions) := by
  cases insertions with
  | nil => trivial
  | cons i rest =>
    have hwait := ha.waiting i List.mem_cons_self
    rw [bodyChain, ← List.cons_append]
    refine .append (.cons_placeless rfl fun mid _ => findsPlaces_looks _ _) fun mid hmid => ?_
    obtain ⟨next, hnext, hlooks⟩ := becomes_cons.1 hmid
    have hwell : next.WellFormed := by
      have := keeps_insertInBody i.paragraph.handle i.text edge d hd
      rwa [hnext] at this
    have hdropped : ((d.dropLoose i.paragraph.handle).rewriteAt i.paragraph.handle
        Paragraph.tree).Awaits rest := ha.tail
    obtain ⟨hloose, hmem⟩ : next.loose = (d.dropLoose i.paragraph.handle).loose ∧
        i.paragraph ∈ next.paragraphs := by
      simp only [Effect.apply, Effect.applyInsertInBody, hwait.newTree_eq hd, Effect.done] at hnext
      cases edge <;> obtain rfl := (Prod.mk.inj hnext).1 <;> simp [paragraphs]
    obtain ⟨q, hq, rfl⟩ := (becomes_looks hwell hmem i.looks).1 hlooks
    have hedit := Look.isEdit_giveAll hq
    refine findsPlaces_chain (hwell.put hmem hedit)
      (mem_listed_iff.2 ⟨q, mem_put hmem hedit.handle, hedit.handle⟩)
      ⟨fun j hj => ?_, hdropped.distinct⟩
    have hwaits := hdropped.waiting j hj
    rw [IsWaiting] at hwaits ⊢
    exact (congrArg (_ ∈ ·) hloose).mpr hwaits

/-- New paragraphs are put into an emptied body. -/
theorem findsPlaces_clearBody {edge : Edge} (hd : d.WellFormed) (ha : d.Awaits insertions) :
    d.FindsPlaces (.clearBody :: bodyChain edge insertions) := by
  refine .cons_placeless rfl fun mid hmid => ?_
  obtain rfl : (Effect.clearBody.apply d).1 = mid := by rw [hmid]
  exact findsPlaces_bodyChain (keeps_clearBody d hd)
    ⟨fun i hi => List.mem_append_left _ (ha.waiting i hi), ha.distinct⟩

end Document

end Redline
