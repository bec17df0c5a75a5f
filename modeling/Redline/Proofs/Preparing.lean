import Redline.Proofs.Execution.Blocks
import Redline.Snapshot.Apply

/-!
# Work before a flush

Everything that an action or an operation does before it flushes the host leaves the body of the
document alone, whether it succeeds or not: it looks at the document, makes parts that stand nowhere
yet, and queues effects.

## Main definitions

* `Host.Prepared` — a host before and after such work.
* `Editing.Prepares` — work of this kind.
* `Editing.Returns` — a property of whatever a piece of work returns.
-/

namespace Redline

variable {α β : Type} {host mid after : Host}

/-- The second host has come from the first one without a flush. -/
structure Host.Prepared (host after : Host) : Prop where
  body : after.document.body = host.document.body
  /-- Parts have been made, none of which has stood in the document; their texts hold no returns. -/
  loose : ∃ made, after.document.loose = host.document.loose ++ made ∧
    ∀ part ∈ made, part.fresh ∧ part.tree.OfKind Text.isReadable
  styles : after.document.styles = host.document.styles
  pending : host.pending <+: after.pending
  isOpen : after.isOpen = host.isOpen
  flushCount : after.flushCount = host.flushCount
  lastFlush : after.lastFlush = host.lastFlush
  selected : after.selected = host.selected
  outages : after.outages = host.outages

namespace Host.Prepared

theorem refl (host : Host) : host.Prepared host :=
  ⟨rfl, ⟨[], by simp⟩, rfl, List.prefix_rfl, rfl, rfl, rfl, rfl, rfl⟩

theorem trans (h : host.Prepared mid) (h' : mid.Prepared after) : host.Prepared after where
  body := h'.body.trans h.body
  loose := by
    obtain ⟨made, hmade, hparts⟩ := h.loose
    obtain ⟨made', hmade', hparts'⟩ := h'.loose
    refine ⟨made ++ made', by rw [hmade', hmade, List.append_assoc], ?_⟩
    intro part hp
    rcases List.mem_append.1 hp with hp | hp
    · exact hparts part hp
    · exact hparts' part hp
  styles := h'.styles.trans h.styles
  pending := h.pending.trans h'.pending
  isOpen := h'.isOpen.trans h.isOpen
  flushCount := h'.flushCount.trans h.flushCount
  lastFlush := h'.lastFlush.trans h.lastFlush
  selected := h'.selected.trans h.selected
  outages := h'.outages.trans h.outages

/-- Such work brings no returns into the document. -/
theorem ofKind (h : host.Prepared after) (hd : host.document.OfKind Text.isReadable) :
    after.document.OfKind Text.isReadable := by
  obtain ⟨made, hmade, hparts⟩ := h.loose
  intro tree ht
  simp only [Document.trees, h.body, hmade, List.map_append, List.mem_cons, List.mem_append] at ht
  rcases ht with rfl | ht | ht
  · exact hd _ List.mem_cons_self
  · exact hd _ (List.mem_cons_of_mem _ ht)
  · obtain ⟨part, hp, rfl⟩ := List.mem_map.1 ht
    exact (hparts part hp).2

end Host.Prepared

namespace Editing

/-- The work makes no change but on parts that stand nowhere, whether it succeeds or not. -/
def Prepares (work : Editing α) : Prop := ∀ host : Host, host.Prepared (work.runOn host).2

/-- Whatever the work returns has a property. -/
def Returns (post : α → Prop) (work : Editing α) : Prop :=
  ∀ (host : Host) a after, work.runOn host = (.ok a, after) → post a

namespace Prepares

theorem pure (a : α) : Prepares (pure a : Editing α) := fun host => .refl host

theorem throw (m : Mishap) : Prepares (throw m : Editing α) := fun host => .refl host

theorem fault (f : Fault) : Prepares (Editing.fault f : Editing α) := .throw _

theorem failure (f : Failure) : Prepares (Editing.failure f : Editing α) := .throw _

theorem get : Prepares (get : Editing Host) := fun host => .refl host

theorem lift (value : Except Fault α) : Prepares (Editing.lift value) := by
  cases value with
  | ok a => exact .pure a
  | error f => exact .fault f

/-- The next piece of work may rely on what the first one returns. -/
theorem bindReturn {post : α → Prop} {work : Editing α} {next : α → Editing β}
    (hw : Prepares work) (hpost : Returns post work) (hn : ∀ a, post a → Prepares (next a)) :
    Prepares (work >>= next) := by
  intro host
  have hmid := hw host
  rw [runOn_bind]
  rcases hrun : work.runOn host with ⟨mishap | a, mid⟩
  · rw [hrun] at hmid
    exact hmid
  · rw [hrun] at hmid
    exact hmid.trans (hn a (hpost host a mid hrun) mid)

theorem bind {work : Editing α} {next : α → Editing β} (hw : Prepares work)
    (hn : ∀ a, Prepares (next a)) : Prepares (work >>= next) :=
  hw.bindReturn (show Returns (fun _ => True) work from fun _ _ _ _ => trivial) fun a _ => hn a

theorem map {work : Editing α} (f : α → β) (hw : Prepares work) : Prepares (f <$> work) := by
  rw [map_eq_pure_bind]
  exact hw.bind fun a => .pure (f a)

theorem tryCatch {work : Editing α} {handler : Mishap → Editing α} (hw : Prepares work)
    (hh : ∀ mishap, Prepares (handler mishap)) : Prepares (tryCatch work handler) := by
  intro host
  have hmid := hw host
  rw [runOn_tryCatch]
  rcases hrun : work.runOn host with ⟨mishap | a, mid⟩
  · rw [hrun] at hmid
    exact hmid.trans (hh mishap mid)
  · rw [hrun] at hmid
    exact hmid

theorem forM {ι : Type} {work : ι → Editing Unit} (hw : ∀ i, Prepares (work i)) (l : List ι) :
    Prepares (l.forM work) := by
  induction l with
  | nil => exact .pure ()
  | cons i rest ih => exact (hw i).bind fun _ => ih

theorem catchRefusal {work : Editing α} (hw : Prepares work) : Prepares (catchRefusal work) := by
  refine .tryCatch (hw.bind fun a => .pure _) fun mishap => ?_
  cases mishap with
  | failure f => exact .throw _
  | fault f =>
    simp only
    split
    · exact .pure _
    · exact .throw _

end Prepares

namespace Returns

variable {post : α → Prop}

theorem pure {a : α} (h : post a) : Returns post (pure a : Editing α) := by
  rintro host b after hrun
  obtain ⟨rfl, _⟩ : a = b ∧ host = after := by simpa using hrun
  exact h

theorem failure (f : Failure) : Returns post (Editing.failure f) := by
  intro host b after hrun
  simp at hrun

theorem bind {work : Editing β} {next : β → Editing α} (hn : ∀ b, Returns post (next b)) :
    Returns post (work >>= next) := by
  intro host a after hrun
  obtain ⟨b, mid, _, hrest⟩ := bind_eq_ok.1 hrun
  exact hn b mid a after hrest

end Returns

end Editing

/-! ## Queries and changes of a host -/

namespace Host

open Editing

theorem prepares_check (query : Query) : Prepares (check query) := by
  refine .bind .get fun host => ?_
  split
  · exact .fault _
  · exact .pure _

theorem prepares_openDocument : Prepares openDocument := by
  refine .bind .get fun host => ?_
  split
  · exact .pure _
  · exact .fault _

theorem prepares_ask (query : Query) (view : Document → α) : Prepares (ask query view) :=
  (prepares_check query).bind fun _ => prepares_openDocument.bind fun _ => .pure _

theorem prepares_paragraphs : Prepares paragraphs := prepares_ask _ _

theorem prepares_markerRange (control : Handle) : Prepares (markerRange control) :=
  (prepares_check _).bind fun _ => .bind .get fun _ => .pure _

theorem prepares_selection : Prepares selection := by
  refine (prepares_check _).bind fun _ => .bind .get fun host => ?_
  split
  · exact .pure _
  · exact .pure _
  · exact prepares_openDocument.bind fun _ => .pure _

theorem prepares_bodyRange : Prepares bodyRange := prepares_paragraphs.bind fun _ => .pure _

theorem prepares_indexOf (h : Handle) : Prepares (indexOf h) := by
  refine prepares_paragraphs.bind fun passages => ?_
  split
  · exact .pure _
  · exact .fault _

theorem prepares_expandRange (start stop : List Handle) : Prepares (expandRange start stop) := by
  rw [expandRange]
  split
  · exact .pure _
  · exact .pure _
  · exact prepares_bodyRange.bind fun _ =>
      (prepares_indexOf _).bind fun _ => (prepares_indexOf _).bind fun _ => .pure _

theorem prepares_queue (effect : Effect) : Prepares (queue effect) := fun host =>
  ⟨rfl, ⟨[], by simp⟩, rfl, List.prefix_append _ _, rfl, rfl, rfl, rfl, rfl⟩

theorem prepares_makeParagraph (text : String) : Prepares (makeParagraph text) := by
  intro host
  rw [makeParagraph, runOn_bind, runOn_get]
  simp only
  split
  · exact .refl host
  · split
    · exact .refl host
    · refine ⟨rfl, ⟨_, rfl, fun part hp => ?_⟩, rfl, List.prefix_rfl, rfl, rfl, rfl, rfl, rfl⟩
      obtain rfl := List.mem_singleton.1 hp
      exact ⟨rfl, Document.ofKind_made _ text⟩

theorem prepares_insertParagraph (text : String) (anchor : Handle) (side : Side) :
    Prepares (insertParagraph text anchor side) :=
  (prepares_makeParagraph text).bind fun _ => (prepares_queue _).bind fun _ => .pure _

theorem prepares_insertParagraphInBody (text : String) (edge : Edge) :
    Prepares (insertParagraphInBody text edge) :=
  (prepares_makeParagraph text).bind fun _ => (prepares_queue _).bind fun _ => .pure _

theorem prepares_clearRange (range : List Handle) : Prepares (clearRange range) := by
  cases range with
  | nil => exact .fault _
  | cons keep others => exact (prepares_queue _).bind fun _ => .pure _

end Host

/-! ## Anchors -/

namespace Anchor

open Editing Host

theorem prepares_ensureHost : Prepares ensureHost := by
  refine .bind .get fun host => ?_
  split
  · exact .pure _
  · exact .failure _

theorem prepares_attempt (rules : Rules) (anchor : String) (strategy : Strategy) :
    Prepares (attempt rules anchor strategy) := by
  cases strategy with
  | marker =>
    refine (prepares_ask _ _).bind fun markers => ?_
    split
    · exact (prepares_markerRange _).bind fun _ => .pure _
    · exact .pure _
  | bookmark =>
    refine (prepares_ask _ _).bind fun bookmarks => ?_
    split
    · exact (prepares_ask _ _).bind fun _ => .pure _
    · exact .pure _
  | heading =>
    refine prepares_paragraphs.bind fun passages => ?_
    dsimp only
    split
    · exact .pure _
    · exact .pure _
  | default =>
    rw [attempt, byDefault]
    split
    · exact .pure _
    · refine prepares_selection.bind fun selected => ?_
      split
      · exact .pure _
      · exact prepares_bodyRange.bind fun _ => .pure _

theorem prepares_resolveFrom (rules : Rules) (anchor : String) (refusals : List (String × String))
    (strategies : List Strategy) : Prepares (resolveFrom rules anchor refusals strategies) := by
  induction strategies generalizing refusals with
  | nil => exact .failure _
  | cons strategy rest ih =>
    refine (Prepares.catchRefusal (prepares_attempt rules anchor strategy)).bind fun found => ?_
    split
    · exact .pure _
    · exact ih _
    · exact ih _

theorem prepares_resolve (rules : Rules) (anchor : String) : Prepares (resolve rules anchor) :=
  prepares_ensureHost.bind fun _ => prepares_resolveFrom rules anchor [] Strategy.all

theorem prepares_latestSelection (rules : Rules) : Prepares (latestSelection rules) := by
  refine (prepares_ask _ _).bind fun markers => (Prepares.lift _).bind fun marked => ?_
  split
  · exact (prepares_markerRange _).bind fun _ => .pure _
  · exact .pure _

theorem prepares_sectionRange (rules : Rules) (heading : Handle) :
    Prepares (sectionRange rules heading) := by
  refine prepares_paragraphs.bind fun passages => (prepares_indexOf _).bind fun start => ?_
  split
  · exact .pure _
  · exact prepares_expandRange _ _

end Anchor

/-! ## Actions -/

namespace Execution

open Editing Host Anchor

variable (setting : Setting)

theorem prepares_queueStyle (paragraph : Handle) (style : Style) :
    Prepares (queueStyle setting paragraph style) := by
  rw [queueStyle_eq]
  exact (Prepares.lift _).bind fun _ => .forM (fun _ => prepares_queue _) _

theorem prepares_queueBlockStyle (paragraph : Handle) (block : Block) :
    Prepares (queueBlockStyle setting paragraph block) := by
  refine (prepares_queue _).bind fun _ => ?_
  split
  · exact prepares_queueStyle setting _ _
  · exact .pure _

theorem prepares_insertBlocks {insert : String → Editing Handle} (hi : ∀ text, Prepares (insert text))
    (blocks : List Block) : Prepares (insertBlocks setting insert blocks) := by
  induction blocks generalizing insert with
  | nil => exact .pure _
  | cons block rest ih =>
    exact (hi _).bind fun paragraph => (prepares_queueBlockStyle setting _ _).bind fun _ =>
      ih fun text => prepares_insertParagraph text paragraph .after

theorem prepares_requireHeading (text : String) : Prepares (requireHeading setting text) := by
  refine prepares_paragraphs.bind fun passages => ?_
  split
  · exact .pure _
  · exact .failure _

theorem prepares_requireRange (range : List Handle) (anchor : String) :
    Prepares (requireRange range anchor) := by
  rw [requireRange]
  split
  · exact .failure _
  · exact .pure _

theorem prepares_replacedRange (anchor : String) : Prepares (replacedRange setting anchor) := by
  rw [replacedRange]
  split
  · refine (prepares_latestSelection _).bind fun selected => ?_
    split
    · exact .pure _
    · exact .failure _
  · refine (prepares_resolve _ _).bind fun found => ?_
    split
    · exact prepares_sectionRange _ _
    · exact .pure _

theorem prepares_replaceSection (anchor : String) (blocks : List Block) :
    Prepares (replaceSection setting anchor blocks) := by
  rw [replaceSection]
  split
  · exact (prepares_queue _).bind fun _ =>
      prepares_insertBlocks setting (fun text => prepares_insertParagraphInBody text _) _
  · exact (prepares_replacedRange setting _).bind fun _ =>
      (prepares_requireRange _ _).bind fun _ => (prepares_clearRange _).bind fun _ =>
        (prepares_insertBlocks setting (fun text => prepares_insertParagraph text _ _) _).bind
          fun _ => prepares_queue _

theorem prepares_insertAtEdge (anchor : String) (edge : Edge) :
    Prepares (insertAtEdge setting anchor edge) := by
  rw [insertAtEdge]
  split
  · exact .pure _
  · refine (prepares_resolve _ _).bind fun found => (prepares_requireRange _ _).bind fun range => ?_
    split
    · exact .pure _
    · exact .pure _
    · exact .failure _

theorem prepares_failOutside {α : Type} (position : Json) :
    Prepares (failOutside position : Editing α) :=
  (Prepares.lift _).bind fun _ => .failure _

theorem prepares_insertionPoint (anchor : String) (location : InsertLocation)
    (heading position : Json) :
    Prepares (insertionPoint setting anchor location heading position) := by
  cases location with
  | start => exact prepares_insertAtEdge setting anchor .start
  | stop => exact prepares_insertAtEdge setting anchor .stop
  | afterHeading =>
    exact (Prepares.lift _).bind fun _ => (prepares_requireHeading setting _).bind fun _ => .pure _
  | other name => exact .failure _
  | atPosition =>
    have houtside := @prepares_failOutside (String → Editing Handle) position
    refine (Prepares.lift _).bind fun given => ?_
    dsimp only
    split
    · split
      · refine prepares_paragraphs.bind fun _ => (Prepares.pure _).bind ?_
        exact Option.forall.2 ⟨houtside, fun _ => .pure _⟩
      · exact (Prepares.pure _).bind (Option.forall.2 ⟨houtside, fun _ => .pure _⟩)
    · exact (Prepares.pure _).bind (Option.forall.2 ⟨houtside, fun _ => .pure _⟩)

theorem returns_insertAtEdge (anchor : String) (edge : Edge) :
    Returns (fun insert => ∀ text, Prepares (insert text)) (insertAtEdge setting anchor edge) := by
  rw [insertAtEdge]
  split
  · exact .pure fun text => prepares_insertParagraphInBody text _
  · refine .bind fun found => .bind fun range => ?_
    split
    · exact .pure fun text => prepares_insertParagraph text _ _
    · exact .pure fun text => prepares_insertParagraph text _ _
    · exact .failure _

/-- What is done at an insertion point prepares the host as well. -/
theorem returns_insertionPoint (anchor : String) (location : InsertLocation)
    (heading position : Json) :
    Returns (fun insert => ∀ text, Prepares (insert text))
      (insertionPoint setting anchor location heading position) := by
  cases location with
  | start => exact returns_insertAtEdge setting anchor .start
  | stop => exact returns_insertAtEdge setting anchor .stop
  | afterHeading =>
    exact .bind fun _ => .bind fun found => .pure fun text => prepares_insertParagraph text _ _
  | other name => exact .failure _
  | atPosition =>
    have hinsert : ∀ passage : Passage, ∀ text,
        Prepares (Host.insertParagraph text passage.handle .after) :=
      fun _ text => prepares_insertParagraph text _ _
    have houtside : Returns (fun insert : String → Editing Handle => ∀ text, Prepares (insert text))
        (failOutside position) := .bind fun _ => .failure _
    refine .bind fun given => ?_
    dsimp only
    split
    · split
      · exact .bind fun _ => .bind (Option.forall.2 ⟨houtside, fun p => .pure (hinsert p)⟩)
      · exact .bind (Option.forall.2 ⟨houtside, fun p => .pure (hinsert p)⟩)
    · exact .bind (Option.forall.2 ⟨houtside, fun p => .pure (hinsert p)⟩)

theorem prepares_insertText (anchor : String) (location : InsertLocation)
    (heading position : Json) (blocks : List Block) :
    Prepares (insertText setting anchor location heading position blocks) :=
  (prepares_insertionPoint setting anchor location heading position).bindReturn
    (returns_insertionPoint setting anchor location heading position)
    fun _ hi => prepares_insertBlocks setting hi blocks

theorem prepares_correctText (search replacement : String) (matchCase : Bool) :
    Prepares (correctText search replacement matchCase) := by
  refine (prepares_ask _ _).bind fun found => ?_
  split
  · exact .failure _
  · exact .forM (fun _ => prepares_queue _) _

theorem prepares_updateHeadingStyle (target : HeadingTarget) (heading : Json) (style : Style) :
    Prepares (updateHeadingStyle setting target heading style) := by
  have hlooks : ∀ targets : List Passage,
      Prepares (targets.forM fun p => queueStyle setting p.handle style) :=
    fun targets => .forM (fun _ => prepares_queueStyle setting _ _) _
  rw [updateHeadingStyle.eq_def]
  dsimp only
  split
  · exact (Prepares.lift _).bind fun _ => (prepares_requireHeading setting _).bind fun _ =>
      (Prepares.pure _).bind hlooks
  · exact prepares_paragraphs.bind fun _ => (Prepares.pure _).bind hlooks

theorem prepares_updateTextFormat (target : FormatTarget) (style : Style) :
    Prepares (updateTextFormat setting target style) :=
  prepares_paragraphs.bind fun _ => .forM (fun _ => prepares_queueStyle setting _ _) _

/-- Whatever an action does before the flush leaves the body alone. -/
theorem prepares_perform (kind : ActionKind) (action : Action) :
    Prepares (perform setting kind action) := by
  fun_cases perform setting kind action
  case case1 | case2 => exact prepares_replaceSection setting _ _
  case case4 => exact prepares_insertText setting _ _ _ _ _
  case case6 => exact prepares_correctText _ _ _
  case case8 | case10 => exact prepares_updateHeadingStyle setting _ _ _
  case case12 | case13 => exact prepares_updateTextFormat setting _ _
  case case14 => exact prepares_paragraphs.bind fun _ => .fault _
  all_goals exact .fault _

end Execution

/-! ## Operations -/

namespace Snapshot

open Editing Host

theorem prepares_target (snapshot : Snapshot) (m : Mapping) (op : Operation) :
    Prepares (snapshot.target m op) := by
  rw [target]
  split
  · exact .failure _
  · split
    · exact .pure _
    · exact (Prepares.lift _).bind fun _ => .failure _

theorem prepares_insertLines (rules : Rules) {insert : String → Editing Handle}
    (hi : ∀ text, Prepares (insert text)) (lines : List (List Char)) :
    Prepares (insertLines rules insert lines) := by
  induction lines generalizing insert with
  | nil => exact .pure _
  | cons line rest ih =>
    exact (hi _).bind fun paragraph => (prepares_queue _).bind fun _ =>
      ih fun text => prepares_insertParagraph text paragraph .after

/-- Whatever an operation does before the flush leaves the body alone. -/
theorem prepares_performOperation (rules : Rules) (op : Operation) (paragraph : Handle) :
    Prepares (performOperation rules op paragraph) := by
  rw [performOperation]
  split
  · exact prepares_queue _
  · exact prepares_insertLines rules (fun text => prepares_insertParagraph text _ _) _
  · exact prepares_insertLines rules (fun text => prepares_insertParagraph text _ _) _

end Snapshot

end Redline
