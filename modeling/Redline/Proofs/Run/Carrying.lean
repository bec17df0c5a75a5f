import Redline.Proofs.Document.Carrying
import Redline.Proofs.Execution.Bookmarks
import Redline.Proofs.Run.Landing

/-!
# Runs lose no mark

Whatever a run does to the paragraphs of a document, it carries all marks and all content controls
on, also when it fails or a flush breaks off.  Only two things take marks out of a document:
emptying the whole body, and setting a text that cannot be written.

## Main definitions

* `Sparing` — what has been queued loses no mark, however far the flush gets.
* `TypedAction.section?` — the anchor whose section an action replaces.
-/

namespace Redline

open Editing Forest Redline.Text

variable {host mid after left : Host}

/-- The queue of a host has got effects that lose no mark, however far the flush gets. -/
def Sparing (host mid : Host) : Prop :=
  ∃ d effects, mid = host.queueing d effects ∧ d.body = host.document.body ∧ d.SparesMarks effects

/-! ## Work and its flush -/

/-- A flush of sparing effects carries the marks on, whether it succeeds or not. -/
theorem Sparing.flush (hh : host.Ready) (h : Sparing host mid) :
    host.document.body.Carries (Host.flush.runOn mid).2.document.body ∧
      (Host.flush.runOn mid).2.Ready ∧ (Host.flush.runOn mid).2.document.Sealed := by
  obtain ⟨d, effects, rfl, hbody, hcarries, hstays⟩ := h
  have hstep : Host.step (host.queueing d effects).isOpen = Effect.apply := by
    rw [Host.isOpen_queueing, hh.isOpen]
    rfl
  have hpending : (host.queueing d effects).pending = effects := by
    rw [Host.queueing, hh.pending, List.nil_append]
  rw [Host.flush_leaves, hstep, hpending]
  exact ⟨hbody ▸ hcarries, ⟨⟨hh.isOpen, hh.outages⟩, rfl, hstays.wellFormed⟩, hstays⟩

/-- Work that queues sparing effects, with its flush, carries the marks on, however it ends. -/
theorem carries_thenFlush {work : Editing Unit} (hh : host.Ready) (hw : Prepares work)
    (hq : ∀ mid, work.runOn host = (.ok (), mid) → Sparing host mid) :
    host.document.body.Carries (work.thenFlush.runOn host).2.document.body ∧
      ∀ after, Flushed work host after → after.Ready ∧ after.document.Sealed := by
  rcases hrun : work.runOn host with ⟨mishap | _, ready⟩
  · have hprepared := hw host
    have hleft := thenFlush_of_error hrun
    rw [hrun] at hprepared
    refine ⟨?_, fun after h => ?_⟩
    · rw [hleft, hprepared.body]
      exact .refl _
    · simp [Flushed, hleft] at h
  · obtain ⟨hcarries, hready, hstays⟩ := (hq ready hrun).flush hh
    have hleft := thenFlush_leaves hrun
    refine ⟨hleft ▸ hcarries, fun after h => ?_⟩
    obtain rfl : (work.thenFlush.runOn host).2 = after := congrArg Prod.snd h
    exact hleft ▸ ⟨hready, hstays⟩

/-! ## Insertions -/

namespace Document

variable {d : Document}

theorem Sealed.makeAll (hd : d.Sealed) (texts : List String) : (d.makeAll texts).Sealed :=
  ⟨hd.wellFormed.makeAll texts, by simpa [paragraphs] using hd.boxes⟩

theorem unmarked_insertions (sheet : Stylesheet) (n : Nat) (items : List (String × List Look)) :
    ∀ i ∈ insertions sheet n items, i.paragraph.content.Unmarked := by
  induction items generalizing n with
  | nil => simp [insertions]
  | cons item rest ih => exact List.forall_mem_cons.2 ⟨unmarked_made n item.1, ih (n + 1)⟩

end Document

namespace Execution

variable {setting : Setting} {blocks : List Block} {anchor : String} {α : Type}

theorem sparing_insertEach {text : α → String} {dress : Handle → α → Editing Unit}
    {looks : α → Option (List Look)} {insert : String → Editing Handle}
    (hdress : ∀ h a host after, (dress h a).runOn host = (.ok (), after) ↔
      ∃ l, looks a = some l ∧ after = host.queueing host.document (l.map (·.effect h)))
    (hh : host.Ready) (hs : host.document.Sealed) (hp : Places host.document insert) {as : List α}
    (h : (insertEach text dress insert as).runOn host = (.ok (), mid)) : Sparing host mid := by
  cases hp with
  | beside side hl =>
    obtain ⟨items, _, rfl⟩ := (insertEach_eq_ok hdress hh.isOpen).1 h
    exact ⟨_, _, rfl, by simp, Document.sparesMarks_chain (hs.makeAll _) (by simpa using hl)
      (Document.awaits_makeAll _ items) (Document.unmarked_insertions _ _ items)⟩
  | inBody edge =>
    obtain ⟨items, _, rfl⟩ := insertEach_inBody_eq_ok hdress hh.isOpen h
    exact ⟨_, _, rfl, by simp, Document.sparesMarks_bodyChain edge (hs.makeAll _)
      (Document.awaits_makeAll _ items) (Document.unmarked_insertions _ _ items)⟩

theorem sparing_queueStyles (hs : host.document.Sealed) {targets : List Passage}
    (ht : targets ⊆ host.document.passages) {style : Style}
    (h : (targets.forM fun p => queueStyle setting p.handle style).runOn host = (.ok (), mid)) :
    Sparing host mid := by
  cases hdigits : colorDigits setting style with
  | ok digits =>
    simp only [queueStyle_eq, hdigits] at h
    have hrun := (queueAllLooks_run (styleLooks digits style) targets host).symm.trans h
    obtain rfl := (Prod.mk.inj hrun).2
    refine ⟨_, _, rfl, rfl, Document.sparesMarks_looks hs fun e he => ?_⟩
    obtain ⟨k, hk, he⟩ := List.mem_flatMap.1 he
    obtain ⟨look, _, rfl⟩ := List.mem_map.1 he
    obtain ⟨p, hp, rfl⟩ := List.mem_map.1 hk
    exact ⟨look, _, mem_listed_of_mem_passages (ht hp), rfl⟩
  | error fault =>
    by_cases hne : targets = []
    · subst hne
      obtain rfl := (Prod.mk.inj h).2
      exact ⟨host.document, [], by simp [Host.queueing], rfl, Document.sparesMarks_nil hs⟩
    · have hstopped := (queueStyles_error hne hdigits).symm.trans h
      simp at hstopped

section
variable (hh : host.Ready)
include hh

/-- What an insertion point is found to be is a place of the document. -/
theorem places_of_insertionPoint {location : InsertLocation} {heading position : Json}
    {insert : String → Editing Handle}
    (h : (insertionPoint setting anchor location heading position).runOn host =
      (.ok insert, after)) : after = host ∧ Places host.document insert := by
  have hedge : ∀ edge, (insertAtEdge setting anchor edge).runOn host = (.ok insert, after) →
      after = host ∧ Places host.document insert := by
    intro edge hedge
    have hcases : (∃ insert, (insertAtEdge setting anchor edge).runOn host = (.ok insert, host) ∧
        Places host.document insert) ∨ _ :=
      insertAtEdge_cases hh anchor edge .start .null .null []
    rcases hcases with ⟨_, hfound, hp⟩ | ⟨_, _, _, hmissing⟩
    · obtain ⟨rfl, rfl⟩ : _ = insert ∧ host = after := by simpa [hfound] using hedge
      exact ⟨rfl, hp⟩
    · simp [hmissing] at hedge
  have hinside : (failOutside position).runOn host ≠ (.ok insert, after) := by
    obtain ⟨mishap, hfail⟩ := @failOutside_error (String → Editing Handle) position host
    simp [hfail]
  have hbehind : ∀ p ∈ host.document.passages,
      Places host.document fun text => Host.insertParagraph text p.handle .after :=
    fun p hp => .beside .after (mem_listed_of_mem_passages hp)
  cases location with
  | start => exact hedge .start h
  | stop => exact hedge .stop h
  | other name => simp [insertionPoint] at h
  | afterHeading =>
    simp only [insertionPoint, runOn_bind] at h
    cases htext : headingText heading with
    | error fault => simp [htext, lift] at h
    | ok text =>
      simp only [htext, runOn_lift_ok] at h
      rcases requireHeading_cases hh setting text with ⟨p, hp, hfound⟩ | ⟨_, hmissing⟩
      · simp only [hfound, runOn_pure, Prod.mk.injEq, Except.ok.injEq] at h
        exact ⟨h.2.symm, h.1 ▸ hbehind p hp⟩
      · simp [hmissing] at h
  | atPosition =>
    simp only [insertionPoint, runOn_bind] at h
    cases hgiven : givenPosition position with
    | error fault => simp [hgiven, lift] at h
    | ok given =>
      simp only [hgiven, runOn_lift_ok] at h
      cases given with
      | none => exact absurd h hinside
      | some n =>
        by_cases hn : 0 ≤ n
        · simp only [if_pos hn, runOn_bind, hh.paragraphs, runOn_pure] at h
          cases hat : passageAt n 0 host.document.passages with
          | none => exact absurd (by simpa [hat] using h) hinside
          | some p =>
            simp only [hat, runOn_pure, Prod.mk.injEq, Except.ok.injEq] at h
            exact ⟨h.2.symm, h.1 ▸ hbehind p (mem_of_passageAt hat)⟩
        · exact absurd (by simpa [hn] using h) hinside

section
variable (hs : host.document.Sealed)
include hs

theorem sparing_insertText {location : InsertLocation} {heading position : Json}
    (h : (insertText setting anchor location heading position blocks).runOn host =
      (.ok (), mid)) : Sparing host mid := by
  rw [insertText, bind_eq_ok] at h
  obtain ⟨insert, ready, hinsert, hblocks⟩ := h
  obtain ⟨hready, hp⟩ := places_of_insertionPoint hh hinsert
  rw [hready, insertBlocks_eq_insertEach] at hblocks
  exact sparing_insertEach queueBlockStyle_eq_ok hh hs hp hblocks

theorem sparing_replaceSection (hne : anchor ≠ setting.rules.defaultAnchor)
    (h : (replaceSection setting anchor blocks).runOn host = (.ok (), mid)) :
    Sparing host mid := by
  obtain ⟨first, others, hrange, items, _, rfl⟩ := (replaceSection_eq_ok hh hne).1 h
  have hsub := Document.range?_sublist hh.wellFormed hrange
  exact ⟨_, _, rfl, by simp, Document.sparesMarks_replacement (hs.makeAll _) (by simpa using hsub)
    (Document.awaits_makeAll _ items) (Document.unmarked_insertions _ _ items)⟩

theorem sparing_correctText {search replacement : String} {matchCase : Bool}
    (h : (correctText search replacement matchCase).runOn host = (.ok (), mid)) :
    Sparing host mid := by
  rw [correctText, runOn_bind, hh.search] at h
  set found := host.document.search (.literal search.toList matchCase false) with hfound
  simp only at h
  split at h
  · simp at h
  · rw [Host.runOn_forM_queue] at h
    obtain rfl := (Prod.mk.inj h).2
    refine ⟨host.document, _, rfl, rfl, Document.sparesMarks_of_retouches hs ?_⟩
    intro d hd hlisted e he
    obtain ⟨m, hm, rfl⟩ := List.mem_map.1 he
    rw [List.mem_reverse, hfound, Document.search, List.mem_flatMap] at hm
    obtain ⟨p, hp, hm⟩ := hm
    obtain ⟨_, _, rfl⟩ := List.mem_map.1 hm
    exact Document.retouches_replace hd (hlisted ▸ List.mem_map_of_mem hp) replacement

theorem sparing_updateHeadingStyle {target : HeadingTarget} {heading : Json} {style : Style}
    (h : (updateHeadingStyle setting target heading style).runOn host = (.ok (), mid)) :
    Sparing host mid := by
  by_cases ht : target = .specific
  · subst ht
    simp only [updateHeadingStyle, runOn_bind] at h
    cases htext : headingText heading with
    | error fault => simp [htext, lift] at h
    | ok text =>
      simp only [htext, runOn_lift_ok] at h
      rcases requireHeading_cases hh setting text with ⟨p, hp, hfound⟩ | ⟨_, hmissing⟩
      · simp only [hfound, runOn_pure] at h
        exact sparing_queueStyles hs (List.cons_subset.2 ⟨hp, List.nil_subset _⟩) h
      · simp [hmissing] at h
  · have hqueue : ((Heading.headings setting.rules host.document.passages).forM fun p =>
        queueStyle setting p.handle style).runOn host = (.ok (), mid) := by
      cases target with
      | specific => exact absurd rfl ht
      | _ => simpa only [updateHeadingStyle, runOn_bind, hh.paragraphs, runOn_pure] using h
    exact sparing_queueStyles hs (List.filter_subset_self _) hqueue

theorem sparing_updateTextFormat {target : FormatTarget} {style : Style}
    (h : (updateTextFormat setting target style).runOn host = (.ok (), mid)) :
    Sparing host mid := by
  simp only [updateTextFormat, runOn_bind, hh.paragraphs] at h
  exact sparing_queueStyles hs (List.filter_subset_self _) h

end

end

end Execution

/-- The anchor whose section an action replaces. -/
def TypedAction.section? (typed : TypedAction) : Option String :=
  match typed.type.str?.bind ActionKind.ofName?, typed.action with
  | some .replaceSection, .replaceSection anchor _ => some anchor
  | some .replaceSection, .insertText anchor _ _ _ _ => some anchor
  | _, _ => none

namespace Execution

variable {setting : Setting} {typed : TypedAction} {actions : List TypedAction}

/-- Whatever an action queues is sparing, unless it is to replace the whole body. -/
theorem sparing_preparation (hh : host.Ready) (hs : host.document.Sealed)
    (hne : typed.section? ≠ some setting.rules.defaultAnchor)
    (h : (preparation setting typed).runOn host = (.ok (), mid)) : Sparing host mid := by
  obtain ⟨type, action⟩ := typed
  unfold preparation at h
  split at h
  · simp at h
  · simp at h
  · split at h
    · obtain ⟨mishap, hfail⟩ := failUnknown_error type host
      simp [hfail] at h
    · next kind hkind =>
      simp only [TypedAction.section?, hkind] at hne
      simp only at h
      revert h hne
      fun_cases perform setting kind action <;> intro h hne
      case case1 | case2 => exact sparing_replaceSection hh hs (by simpa using hne) h
      case case4 => exact sparing_insertText hh hs h
      case case6 => exact sparing_correctText hh hs h
      case case8 | case10 => exact sparing_updateHeadingStyle hh hs h
      case case12 | case13 => exact sparing_updateTextFormat hh hs h
      case case14 => simp [runOn_bind, hh.paragraphs] at h
      all_goals simp at h

/-- Actions carry the marks on, also when one of them fails. -/
theorem carries_runActions (hh : host.Ready) (hs : host.document.Sealed)
    (hne : ∀ typed ∈ actions, typed.section? ≠ some setting.rules.defaultAnchor) (index : Nat) :
    host.document.body.Carries
      ((runActions setting index actions).runOn host).2.document.body := by
  induction actions generalizing index host with
  | nil => exact .refl _
  | cons typed rest ih =>
    obtain ⟨hfirst, hrest⟩ := List.forall_mem_cons.1 hne
    obtain ⟨hcarries, hnext⟩ := carries_thenFlush hh (prepares_preparation setting typed)
      fun mid h => sparing_preparation hh hs hfirst h
    obtain ⟨word, hword⟩ := runOn_runAction setting typed
    rw [← congrArg Prod.snd (hword host)] at hcarries
    rcases hran : (runAction setting typed).runOn host with ⟨(f | f) | _, mid⟩
    · rw [runActions_cons_of_failure hran]
      rwa [hran] at hcarries
    · rw [runActions, runOn_bind, runOn_tryCatch, runOn_bind, hran]
      rwa [hran] at hcarries
    · have hflushed := runAction_eq_ok.1 hran
      obtain ⟨hready, hsealed⟩ := hnext mid hflushed
      rw [runActions_cons_of_ok hflushed]
      rw [hran] at hcarries
      exact hcarries.trans (ih hready hsealed hrest (index + 1))

end Execution

/-! ## Operations -/

/-- A paragraph whose text is set keeps its marks if the text can be written. -/
theorem Document.retouches_setText {d : Document} (hd : d.Sealed) {h : Handle}
    (hl : h ∈ d.body.listed) {text : String} (hw : isWritable text.toList = true) :
    d.Retouches (.setText h text) := by
  obtain ⟨p, hp, rfl⟩ := mem_listed_iff.1 hl
  have hcontent : Effect.textContent text.toList p.content =
      p.content.startMarks ++ (runOf text.toList ++ p.content.endMarks) := by
    rw [Effect.textContent, if_pos hw]
  have hrun : (runOf text.toList).Unmarked := ⟨rfl, rfl, rfl⟩
  refine ⟨p, hp, _, Effect.isEdit_textContent p text.toList, ?_, by
    rw [apply_setText hd.wellFormed hp]⟩
  refine handsOn_of_content ?_ ?_ ?_
  · simp [hcontent, hrun.starts]
  · simp [hcontent, hrun.stops]
  · have hbare : ∀ {marks : Forest}, marks.AllMarks → marks.BoxesUnmarked := fun hm => by
      simp [BoxesUnmarked, hm.boxes_eq]
    rw [hcontent]
    exact (hbare (.startMarks _)).append
      ((boxesUnmarked_of_unmarked hrun.starts hrun.stops).append (hbare (.endMarks _)))

namespace Snapshot

variable {rules : Rules} {snapshot : Snapshot} {m : Mapping} {op : Operation}
  {ops : List Operation} {sheet : Stylesheet} {known : Nat}

/-- Whatever an operation queues is sparing, if a text that it sets can be written. -/
theorem sparing_preparation (hb : Between sheet m known host) (hs : host.document.Sealed)
    (hw : op.kind = .replace → isWritable op.content.toList = true)
    (h : (preparation rules snapshot m op).runOn host = (.ok (), mid)) : Sparing host mid := by
  rw [preparation, bind_eq_ok] at h
  obtain ⟨p, ready, htarget, hwork⟩ := h
  obtain ⟨_, hfound, rfl⟩ := target_eq_ok.1 htarget
  have hl : p.handle ∈ ready.document.body.listed :=
    (hb.sound op p.handle (by simp [Mapping.handle?, hfound])).1
  have hinsert : ∀ side, (insertLines rules (fun text => Host.insertParagraph text p.handle side)
      (lines op.content.toList)).runOn ready = (.ok (), mid) → Sparing ready mid := fun side h =>
    Execution.sparing_insertEach (dress_line rules) hb.ready hs (.beside side hl)
      (Execution.insertLines_eq_insertEach rules _ _ ▸ h)
  unfold performOperation at hwork
  split at hwork
  · next hkind =>
    rw [Host.runOn_queue] at hwork
    obtain rfl := (Prod.mk.inj hwork).2
    refine ⟨ready.document, [.setText p.handle op.content], rfl, rfl,
      Document.sparesMarks_of_retouches hs fun d hd hlisted e he => ?_⟩
    obtain rfl := List.mem_singleton.1 he
    exact Document.retouches_setText hd (hlisted ▸ hl) (hw hkind)
  · exact hinsert .after hwork
  · exact hinsert .before hwork

/-- An operation leaves the document that its work and the flush lead to. -/
theorem document_runOperation (rules : Rules) (snapshot : Snapshot) (m : Mapping) (index : Nat)
    (op : Operation) (host : Host) :
    ((runOperation rules snapshot m index op).runOn host).2.document =
      ((preparation rules snapshot m op).thenFlush.runOn host).2.document := by
  rw [runOperation_eq, asOperation, runOn_tryCatch]
  rcases (preparation rules snapshot m op).thenFlush.runOn host with ⟨(f | f) | _, left⟩
  · simp [runOn_bind, Host.discard]
  · by_cases hf : f.family = .host <;> simp [hf, runOn_bind, Host.discard]
  · rfl

/-- Operations carry the marks on, also when one of them fails. -/
theorem carries_runOperations (hb : Between sheet m known host) (hs : host.document.Sealed)
    (hw : ∀ op ∈ ops, op.kind = .replace → isWritable op.content.toList = true) (index : Nat) :
    host.document.body.Carries
      ((runOperations rules snapshot m index ops).runOn host).2.document.body := by
  induction ops generalizing index host with
  | nil => exact .refl _
  | cons op rest ih =>
    obtain ⟨hfirst, hrest⟩ := List.forall_mem_cons.1 hw
    obtain ⟨hcarries, hnext⟩ := carries_thenFlush hb.ready
      (prepares_preparation rules snapshot m op) fun mid h => sparing_preparation hb hs hfirst h
    rw [← document_runOperation rules snapshot m index op host] at hcarries
    rcases hran : (runOperation rules snapshot m index op).runOn host with ⟨mishap | _, mid⟩
    · rw [runOperations_cons_of_error hran]
      exact hran ▸ hcarries
    · have hflushed := runOperation_eq_ok_iff.1 hran
      rw [runOperations_cons_of_ok hflushed]
      rw [hran] at hcarries
      exact hcarries.trans (ih (hb.flushed hflushed) (hnext mid hflushed).2 hrest (index + 1))

/-- What the blocks are found to be at the start stays where it is. -/
theorem between_of_rematch (hh : host.Ready)
    (hm : (snapshot.rematch rules).runOn host = (.ok m, host)) :
    Between host.document.styles m host.document.nextHandle host := by
  simp only [rematch, runOn_bind, hh.paragraphs, lift_eq_ok] at hm
  exact ⟨hh, rfl, le_rfl, sound_mapping hh.wellFormed hm.1⟩

end Snapshot

/-! ## Runs -/

/-- No run loses a mark or a content control, whether it succeeds or fails, under whatever rules:
what starts and ends bookmarks is the same as before, and so is what the content controls say, in
order.  A run of an edit plan must not replace the whole body, and one of a block plan must not set
a text that cannot be written.  Texts that an edit plan writes need no such care: a new paragraph is
refused before anything happens, and a correction leaves the marks where they are. -/
theorem runs_carry_marks (rules : Rules) (scorer : Heading.Scorer) (snapshot : Snapshot)
    (hh : host.Ready) (hb : ∀ p ∈ host.document.paragraphs, p.content.BoxesUnmarked) :
    (∀ actions : List TypedAction,
      (∀ typed ∈ actions, typed.section? ≠ some rules.defaultAnchor) → ∀ result after,
        (Execution.run ⟨rules, scorer⟩ actions).runOn host = (result, after) →
          host.document.body.Carries after.document.body) ∧
    ∀ plan : BlockPlan,
      (∀ op ∈ plan.operations, op.kind = .replace → isWritable op.content.toList = true) →
        ∀ result after, (Snapshot.run rules snapshot plan).runOn host = (result, after) →
          host.document.body.Carries after.document.body := by
  have hs : host.document.Sealed := ⟨hh.wellFormed, hb⟩
  refine ⟨fun actions hne result after hrun => ?_, fun plan hw result after hrun => ?_⟩
  · have hcarries : host.document.body.Carries
        ((Execution.runActions ⟨rules, scorer⟩ 0 actions).runOn host).2.document.body :=
      Execution.carries_runActions hh hs hne 0
    rw [Execution.run_of_open hh.isOpen] at hrun
    rcases hran : (Execution.runActions ⟨rules, scorer⟩ 0 actions).runOn host with
      ⟨mishap | ⟨_ | outcome⟩, last⟩
    all_goals
      rw [hran] at hrun hcarries
      obtain rfl := (Prod.mk.inj hrun).2
      exact hcarries
  · rcases Snapshot.run_cases rules snapshot plan host with
      hclosed | ⟨fault, hfault⟩ | ⟨m, hopen, hm⟩
    · obtain rfl := (Prod.mk.inj (hclosed.symm.trans hrun)).2
      exact .refl _
    · obtain rfl := (Prod.mk.inj (hfault.symm.trans hrun)).2
      exact .refl _
    · have hcarries : host.document.body.Carries
          ((Snapshot.runOperations rules snapshot m 0
            plan.operations).runOn host).2.document.body :=
        Snapshot.carries_runOperations (Snapshot.between_of_rematch hh hm) hs hw 0
      rw [Snapshot.run_of_rematch hopen hm] at hrun
      rwa [hrun] at hcarries

/-- A bookmark runs from a content control to the paragraph behind it; another one stands in a cell,
beside a text box. -/
def markedDocument : Document where
  body := .cons (.control ⟨0⟩ (some ⟨some "sec", some "hidden"⟩))
      (.single (.paragraph ⟨1⟩ "Normal" none)
        (.cons (.bookmarkStart "bm" "0") .nil (.single (.run "first" {}) .nil)))
    (.cons (.paragraph ⟨2⟩ "Normal" none)
        (.cons (.run "second" {}) .nil (.single (.bookmarkEnd "0") .nil))
      (.single .table (.single .row (.single .cell
        (.single (.paragraph ⟨3⟩ "Normal" none)
          (.cons (.bookmarkStart "cell" "1") .nil
            (.cons (.run "third" {}) (.single (.paragraph ⟨4⟩ "Normal" none) .nil)
              (.single (.bookmarkEnd "1") .nil))))))))
  nextHandle := 5

/-- Rules under which no paragraph can be styled. -/
def styleless : Rules := { normalStyle := "No Such" }

/-- Both kinds of plan break off in the middle: the bookmark is cleared, and then nothing can be
styled. -/
theorem runs_carry_marks_breaking_off :
    ∃ f added after mishap last,
      (Execution.run ⟨styleless, fun _ _ => .zero⟩
          [⟨.str "replace_section", .replaceSection "bm" [.paragraph "new" none]⟩]).runOn
        { document := markedDocument } = (.ok (.failed f added), after) ∧
      (Snapshot.run styleless ⟨[⟨.str "s1", .str "", 1, [.str "b1"]⟩],
          [("b1", ⟨.str "b1", .str "paragraph", .str "third", .null⟩)], "e"⟩
          ⟨[⟨.replace, "b1", "set", ""⟩, ⟨.insertAfter, "b1", "new", ""⟩]⟩).runOn
        { document := markedDocument } = (.error mishap, last) ∧
      after.document.body.listed = [⟨5⟩, ⟨1⟩, ⟨3⟩] ∧
      last.document.body.listed = [⟨1⟩, ⟨2⟩, ⟨3⟩, ⟨5⟩] ∧
      markedDocument.body.Carries after.document.body ∧
      markedDocument.body.Carries last.document.body := by
  have hready : Host.Ready { document := markedDocument } := ⟨⟨rfl, rfl⟩, rfl, by decide⟩
  obtain ⟨f, added, after, hrun, hlisted⟩ : ∃ f added after,
      (Execution.run ⟨styleless, fun _ _ => .zero⟩
          [⟨.str "replace_section", .replaceSection "bm" [.paragraph "new" none]⟩]).runOn
        { document := markedDocument } = (.ok (.failed f added), after) ∧
      after.document.body.listed = [⟨5⟩, ⟨1⟩, ⟨3⟩] := ⟨_, _, _, rfl, by decide⟩
  obtain ⟨mishap, last, hsnapshot, hlast⟩ : ∃ mishap last,
      (Snapshot.run styleless ⟨[⟨.str "s1", .str "", 1, [.str "b1"]⟩],
          [("b1", ⟨.str "b1", .str "paragraph", .str "third", .null⟩)], "e"⟩
          ⟨[⟨.replace, "b1", "set", ""⟩, ⟨.insertAfter, "b1", "new", ""⟩]⟩).runOn
        { document := markedDocument } = (.error mishap, last) ∧
      last.document.body.listed = [⟨1⟩, ⟨2⟩, ⟨3⟩, ⟨5⟩] := ⟨_, _, rfl, by decide⟩
  obtain ⟨hedit, hblock⟩ := runs_carry_marks styleless (fun _ _ => .zero)
    ⟨[⟨.str "s1", .str "", 1, [.str "b1"]⟩],
      [("b1", ⟨.str "b1", .str "paragraph", .str "third", .null⟩)], "e"⟩ hready (by decide)
  exact ⟨f, added, after, mishap, last, hrun, hsnapshot, hlisted, hlast,
    hedit _ (by decide) _ _ hrun, hblock _ (by decide) _ _ hsnapshot⟩

end Redline
