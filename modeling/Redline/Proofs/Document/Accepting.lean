import Redline.Proofs.Document.Clearing

/-!
# Effects that succeed

An effect can fail for want of a style, a color or an alignment, or because its paragraph has lost
its place.  Looks that a document knows can be given to any of its paragraphs, and what is queued for
new paragraphs or for a range never takes the place of a later effect away.

## Main definitions

* `Look.Known` — a look that the documents with a given stylesheet know.
* `Document.Accepts` — effects that all succeed on a document.
* `Document.bodyChain` — the effects that put paragraphs in at an end of the body.
-/

namespace Redline

namespace Forest

theorem flatMap_handles_trees (f : Forest) : f.trees.flatMap handles = f.handles := by
  induction f with
  | nil => rfl
  | cons e inside rest _ ih => simp [trees, ih]

theorem ofKind_of_mem_trees {kind : Char → Bool} {f tree : Forest} (hf : f.OfKind kind)
    (ht : tree ∈ f.trees) : tree.OfKind kind := by
  induction f with
  | nil => simp [trees] at ht
  | cons e inside rest _ ih =>
    rw [ofKind_cons] at hf
    rcases List.mem_cons.1 ht with rfl | ht
    · exact ofKind_single.2 ⟨hf.1, hf.2.1⟩
    · exact ih hf.2.2 ht

end Forest

/-! ## Looks that a document knows -/

namespace Look

/-- Documents with the stylesheet know such a look. -/
def Known (sheet : Stylesheet) : Look → Prop
  | .style name => sheet.Knows name
  | .color digits => ∃ color, Effect.runColor digits.toList = .ok color
  | .bold _ => True
  | .alignment name => ∃ alignment, Alignment.ofName? name = some alignment

variable {sheet : Stylesheet} {look : Look} {looks : List Look}

theorem give_of_known (h : look.Known sheet) (p : Paragraph) :
    ∃ q, look.give sheet p = some q := by
  cases look with
  | style name =>
    obtain ⟨style, hstyle⟩ := h
    exact ⟨{ p with style }, by rw [give, hstyle]; rfl⟩
  | color digits =>
    obtain ⟨color, hcolor⟩ := h
    exact ⟨_, by rw [give, hcolor]; rfl⟩
  | bold value => exact ⟨_, rfl⟩
  | alignment name =>
    obtain ⟨alignment, halignment⟩ := h
    exact ⟨{ p with alignment := some alignment }, by rw [give, halignment]; rfl⟩

theorem giveAll_of_known (h : ∀ look ∈ looks, look.Known sheet) (p : Paragraph) :
    ∃ q, giveAll sheet p looks = some q := by
  induction looks generalizing p with
  | nil => exact ⟨p, rfl⟩
  | cons look rest ih =>
    obtain ⟨hlook, hrest⟩ := List.forall_mem_cons.1 h
    obtain ⟨mid, hmid⟩ := give_of_known hlook p
    obtain ⟨q, hq⟩ := ih hrest mid
    exact ⟨q, Option.bind_eq_some_iff.2 ⟨mid, hmid, hq⟩⟩

theorem known_of_give {p q : Paragraph} (h : look.give sheet p = some q) : look.Known sheet := by
  cases look with
  | style name =>
    cases hs : sheet.resolve name with
    | ok style => exact ⟨style, hs⟩
    | error fault => simp [give, hs, Except.toOption] at h
  | color digits =>
    cases hc : Effect.runColor digits.toList with
    | ok color => exact ⟨color, hc⟩
    | error fault => simp [give, hc, Except.toOption] at h
  | bold value => trivial
  | alignment name =>
    cases ha : Alignment.ofName? name with
    | some alignment => exact ⟨alignment, ha⟩
    | none => simp [give, ha] at h

/-- Looks that have been given are there. -/
theorem known_of_giveAll {p q : Paragraph} (h : giveAll sheet p looks = some q) :
    ∀ look ∈ looks, look.Known sheet := by
  induction looks generalizing p with
  | nil => simp
  | cons look rest ih =>
    obtain ⟨mid, hmid, hq⟩ := Option.bind_eq_some_iff.1 h
    exact List.forall_mem_cons.2 ⟨known_of_give hmid, ih hq⟩

end Look

namespace Document

variable {d mid : Document} {first second effects : List Effect} {insertions : List Insertion}
  {anchor h : Handle} {looks : List Look} {sheet : Stylesheet}

/-- All effects succeed, and the document stays well formed. -/
def Accepts (d : Document) (effects : List Effect) : Prop :=
  ∃ d', d.Becomes effects d' ∧ d'.WellFormed

theorem Accepts.append (hf : d.Becomes first mid) (hs : mid.Accepts second) :
    d.Accepts (first ++ second) := by
  obtain ⟨d', hbecomes, hwell⟩ := hs
  exact ⟨d', becomes_append.2 ⟨mid, hf, hbecomes⟩, hwell⟩

theorem dressed_of_known (h : ∀ i ∈ insertions, ∀ look ∈ i.looks, look.Known sheet) :
    ∃ news, Dressed sheet insertions news := by
  induction insertions with
  | nil => exact ⟨[], .nil⟩
  | cons i rest ih =>
    obtain ⟨hi, hrest⟩ := List.forall_mem_cons.1 h
    obtain ⟨q, hq⟩ := Look.giveAll_of_known hi i.paragraph
    obtain ⟨news, hnews⟩ := ih hrest
    exact ⟨q :: news, .cons hq hnews⟩

/-- A paragraph of the document is given its looks; no paragraph loses its place, and what waits goes
on waiting. -/
theorem becomes_looks_of_known (hd : d.WellFormed) (hl : h ∈ d.body.listed)
    (hk : ∀ look ∈ looks, look.Known d.styles) :
    ∃ d', d.Becomes (looks.map (·.effect h)) d' ∧ d'.WellFormed ∧ d'.loose = d.loose ∧
      d.body.listed ⊆ d'.body.listed := by
  obtain ⟨p, hp, rfl⟩ := mem_listed_iff.1 hl
  obtain ⟨q, hq⟩ := Look.giveAll_of_known hk p
  have hedit := Look.isEdit_giveAll hq
  refine ⟨d.put q, (becomes_looks hd hp looks).2 ⟨q, hq, rfl⟩, hd.put hp hedit, rfl,
    fun x hx => ?_⟩
  exact mem_listed_rewriteAt hx fun _ _ _ hxq => by simp [hxq]

/-- Any paragraphs of the document are given looks. -/
theorem accepts_looks (hd : d.WellFormed) (hk : ∀ look ∈ looks, look.Known d.styles)
    {handles : List Handle} (hl : handles ⊆ d.body.listed) :
    d.Accepts (handles.flatMap fun h => looks.map (·.effect h)) := by
  induction handles generalizing d with
  | nil => exact ⟨d, rfl, hd⟩
  | cons h rest ih =>
    obtain ⟨hh, hrest⟩ := List.cons_subset.1 hl
    obtain ⟨mid, hmid, hwell, _, hstay⟩ := becomes_looks_of_known hd hh hk
    exact .append hmid (ih hwell (hmid.styles ▸ hk) fun x hx => hstay (hrest hx))

/-! ## New paragraphs -/

section
variable (hd : d.WellFormed) (hk : ∀ i ∈ insertions, ∀ look ∈ i.looks, look.Known d.styles)
include hd hk

/-- New paragraphs are put in beside a paragraph, which keeps its place. -/
theorem becomes_chain_of_known (side : Side) (hl : anchor ∈ d.body.listed)
    (ha : d.Awaits insertions) :
    ∃ d', d.Becomes (chain side anchor insertions) d' ∧ d'.WellFormed ∧
      anchor ∈ d'.body.listed := by
  obtain ⟨news, hnews⟩ := dressed_of_known hk
  have hbecomes : d.Becomes (chain side anchor insertions) _ :=
    (becomes_chain hd hl ha).2 ⟨news, hnews, rfl⟩
  refine ⟨_, hbecomes, hd.becomes hbecomes fun _ he => keeps_chain he, ?_⟩
  refine mem_listed_rewriteAt (by simpa using hl) fun p _ hp _ => ?_
  cases side <;> simp [Paragraph.beside, hp]

theorem accepts_chain (side : Side) (hl : anchor ∈ d.body.listed) (ha : d.Awaits insertions) :
    d.Accepts (chain side anchor insertions) := by
  obtain ⟨d', hbecomes, hwell, _⟩ := becomes_chain_of_known hd hk side hl ha
  exact ⟨d', hbecomes, hwell⟩

/-- A range gives way to new paragraphs. -/
theorem accepts_replacement {keep : Handle} {others : List Handle} (hn : (keep :: others).Nodup)
    (hl : (keep :: others) ⊆ d.body.listed) (ha : d.Awaits insertions) :
    d.Accepts (replacementEffects keep others insertions) := by
  obtain ⟨hwell, hkeep, hawaits⟩ := ready_clear hd hn hl ha
  rw [← styles_clear hd hn (hl List.mem_cons_self)] at hk
  obtain ⟨mid, hmid, hmidWell, hstays⟩ := becomes_chain_of_known hwell hk .before hkeep hawaits
  have hplaced := hmidWell.standing_eq_placed ((Forest.listed_sublist_handles _).subset hstays)
  have hdelete : (Effect.delete keep).apply mid = (mid.removeParagraph keep, none) := by
    simp [Effect.apply, Effect.applyDelete, hplaced, Effect.done]
  refine ⟨mid.removeParagraph keep, ?_, hmidWell.removeParagraph keep⟩
  refine becomes_cons.2 ⟨_, apply_clearRange hd hn (hl List.mem_cons_self), ?_⟩
  exact becomes_append.2 ⟨mid, hmid, becomes_cons.2 ⟨_, hdelete, rfl⟩⟩

end

/-! ## The ends of the body -/

/-- The effects that put waiting paragraphs in, the first one at an end of the body and each other
one behind the one before it. -/
def bodyChain (edge : Edge) : List Insertion → List Effect
  | [] => []
  | i :: rest =>
    .insertInBody i.paragraph.handle i.text edge ::
      (i.looks.map (·.effect i.paragraph.handle) ++ chain .after i.paragraph.handle rest)

theorem keeps_insertInBody (new : Handle) (text : String) (edge : Edge) :
    Keeps (.insertInBody new text edge) := by
  intro d hd
  -- The new body holds the handles of the old one and of the part that was put in.
  have hbody : ∀ body : Forest, (∀ x, body.handles.count x =
      (Effect.newTree d new).handles.count x + d.body.handles.count x) → body.OfKind Text.isAllowed →
      ({ d.dropLoose new with body } : Document).WellFormed := by
    intro body hcount hread
    refine hd.of_count_le (fun x => ?_) le_rfl fun tree ht => ?_
    · have := count_handles_dropLoose_add_le d new x
      have := hcount x
      simp only [handles, trees, List.flatMap_cons, List.count_append, dropLoose] at *
      omega
    · rcases List.mem_cons.1 ht with rfl | ht
      · exact hread
      · exact hd.writable _ (trees_dropLoose_subset d new (List.mem_cons_of_mem _ ht))
  have hnew := ofKind_newTree hd new
  have hold := hd.writable d.body List.mem_cons_self
  cases edge
  · exact hbody _ (fun x => by simp [dropLoose]) (Forest.ofKind_append.2 ⟨hnew, hold⟩)
  · exact hbody _ (fun x => by simp [dropLoose, Nat.add_comm])
      (Forest.ofKind_append.2 ⟨hold, hnew⟩)

/-- New paragraphs are put in at an end of the body. -/
theorem accepts_bodyChain (edge : Edge) (hd : d.WellFormed)
    (hk : ∀ i ∈ insertions, ∀ look ∈ i.looks, look.Known d.styles) (ha : d.Awaits insertions) :
    d.Accepts (bodyChain edge insertions) := by
  cases insertions with
  | nil => exact ⟨d, rfl, hd⟩
  | cons i rest =>
    obtain ⟨hi, hrest⟩ := List.forall_mem_cons.1 hk
    have hwait := ha.waiting i List.mem_cons_self
    obtain ⟨next, hnext, hloose, hl⟩ : ∃ next,
        (Effect.insertInBody i.paragraph.handle i.text edge).apply d = (next, none) ∧
          next.loose = (d.dropLoose i.paragraph.handle).loose ∧
          i.paragraph.handle ∈ next.body.listed := by
      simp only [Effect.apply, Effect.applyInsertInBody, hwait.newTree_eq hd]
      cases edge
      · exact ⟨_, rfl, rfl, by simp⟩
      · exact ⟨_, rfl, rfl, by simp⟩
    have hwell : next.WellFormed := by
      have := keeps_insertInBody i.paragraph.handle i.text edge d hd
      rwa [hnext] at this
    have hstyles : next.styles = d.styles := by
      have hkept := Effect.styles_apply (.insertInBody i.paragraph.handle i.text edge) d
      rwa [hnext] at hkept
    obtain ⟨mid, hmid, hmidWell, hmidLoose, hstay⟩ :=
      becomes_looks_of_known hwell hl (hstyles.symm ▸ hi)
    have hdropped : ((d.dropLoose i.paragraph.handle).rewriteAt i.paragraph.handle
        Paragraph.tree).Awaits rest := ha.tail
    have hawaits : mid.Awaits rest := by
      refine ⟨fun j hj => ?_, hdropped.distinct⟩
      rw [IsWaiting, hmidLoose, hloose]
      exact hdropped.waiting j hj
    have hfirst : d.Becomes (.insertInBody i.paragraph.handle i.text edge ::
        i.looks.map (·.effect i.paragraph.handle)) mid := becomes_cons.2 ⟨next, hnext, hmid⟩
    have hchain := accepts_chain hmidWell (hfirst.styles ▸ hrest) .after (hstay hl) hawaits
    rw [bodyChain, ← List.cons_append]
    exact .append hfirst hchain

theorem keeps_clearBody : Keeps .clearBody := by
  intro d hd
  refine hd.of_count_le (fun x => ?_) le_rfl fun tree ht => ?_
  · simp [Effect.apply, Effect.applyClearBody, Effect.done, handles, trees, List.flatMap_map,
      Function.comp_def, Forest.flatMap_handles_trees, Nat.add_comm]
  · simp only [Effect.apply, Effect.applyClearBody, Effect.done, trees, List.map_append,
      List.map_map, List.mem_cons, List.mem_append, Function.comp_def, List.map_id'] at ht
    rcases ht with rfl | ht | ht
    · exact Forest.ofKind_nil
    · exact hd.writable _ (List.mem_cons_of_mem _ ht)
    · exact Forest.ofKind_of_mem_trees (hd.writable _ List.mem_cons_self) ht

/-- New paragraphs are put into an emptied body. -/
theorem accepts_clearBody (edge : Edge) (hd : d.WellFormed)
    (hk : ∀ i ∈ insertions, ∀ look ∈ i.looks, look.Known d.styles) (ha : d.Awaits insertions) :
    d.Accepts (.clearBody :: bodyChain edge insertions) := by
  have hwell := keeps_clearBody d hd
  have hawaits : (Effect.clearBody.apply d).1.Awaits insertions :=
    ⟨fun i hi => List.mem_append_left _ (ha.waiting i hi), ha.distinct⟩
  have hclear : d.Becomes [.clearBody] (Effect.clearBody.apply d).1 := ⟨_, rfl, rfl⟩
  exact .append hclear (accepts_bodyChain edge hwell hk hawaits)

end Document

end Redline
