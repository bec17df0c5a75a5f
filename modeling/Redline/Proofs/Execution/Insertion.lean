import Redline.Proofs.Document.Insertion
import Redline.Snapshot.Apply

/-!
# Work that inserts paragraphs

Blocks and lines are inserted in one way: a paragraph is made for each text and queued behind the one
before it, followed by its looks.  What such work queues is a chain.

## Main definitions

* `Document.make` — a document for which one more paragraph has been made.
* `Execution.insertEach` — inserting texts one behind the other.
* `Document.insertions` — the insertions of texts with looks.
-/

namespace Redline

open Redline.Text

namespace Document

/-- The paragraph that is made for a text; `n` is the number of its handle. -/
def made (sheet : Stylesheet) (n : Nat) (text : String) : Paragraph :=
  ⟨⟨n⟩, sheet.defaultName, none, if text.isEmpty then .nil else .runOf text.toList⟩

/-- A document for which a part has been made with the next handle. -/
def withPart (tree : Forest) (d : Document) : Document :=
  { d with
    loose := d.loose ++ [⟨true, tree⟩]
    nextHandle := d.nextHandle + 1 }

/-- A document for which a paragraph has been made. -/
def make (text : String) (d : Document) : Document :=
  { d with
    loose := d.loose ++ [⟨true, (made d.styles d.nextHandle text).tree⟩]
    nextHandle := d.nextHandle + 1 }

/-- A document for which paragraphs have been made. -/
def makeAll (texts : List String) (d : Document) : Document :=
  texts.foldl (fun d text => d.make text) d

variable {d : Document} {p : Paragraph} {text : String} {texts : List String}
  {sheet : Stylesheet}

@[simp] theorem handle_made (n : Nat) (text : String) : (made sheet n text).handle = ⟨n⟩ := rfl

theorem handles_made (n : Nat) (text : String) : (made sheet n text).tree.handles = [⟨n⟩] := by
  rw [Paragraph.handles_tree, made]
  split <;> simp [Forest.runOf, Element.handle?]

theorem ofKind_made {kind : Char → Bool} [Text.Admits kind] (n : Nat) (text : String) :
    (made sheet n text).tree.OfKind kind := by
  rw [Forest.ofKind_tree, made]
  split
  · exact Forest.ofKind_nil
  · exact Forest.ofKind_runOf _

theorem WellFormed.withPart (hd : d.WellFormed) {tree : Forest}
    (hn : tree.handles = [⟨d.nextHandle⟩]) (hr : tree.OfKind Text.isAllowed) :
    (d.withPart tree).WellFormed := by
  have hhandles : (d.withPart tree).handles = d.handles ++ [⟨d.nextHandle⟩] := by
    simp only [Document.withPart, handles, trees, List.map_append, List.flatMap_cons,
      List.flatMap_append, List.map_cons, List.map_nil, List.flatMap_nil, hn, List.append_nil,
      List.append_assoc]
  refine ⟨?_, ?_, ?_⟩
  · rw [hhandles]
    refine hd.distinct.append (List.nodup_singleton _) fun h hh hn => ?_
    obtain rfl := List.mem_singleton.1 hn
    exact absurd (hd.given _ hh) (Nat.lt_irrefl _)
  · rw [hhandles]
    intro h hh
    rcases List.mem_append.1 hh with hh | hh
    · exact (hd.given h hh).trans (Nat.lt_succ_self _)
    · obtain rfl := List.mem_singleton.1 hh
      exact Nat.lt_succ_self _
  · intro tree' ht
    simp only [Document.withPart, trees, List.map_append, List.mem_cons, List.mem_append] at ht
    rcases ht with rfl | ht | ht
    · exact hd.writable _ List.mem_cons_self
    · exact hd.writable _ (List.mem_cons_of_mem _ ht)
    · obtain rfl := List.mem_singleton.1 ht
      exact hr

theorem WellFormed.make (hd : d.WellFormed) (text : String) : (d.make text).WellFormed :=
  hd.withPart (handles_made _ _) (ofKind_made _ _)

theorem WellFormed.makeAll (hd : d.WellFormed) (texts : List String) :
    (d.makeAll texts).WellFormed := by
  induction texts generalizing d with
  | nil => exact hd
  | cons text rest ih => exact ih (hd.make text)

@[simp] theorem body_makeAll (texts : List String) (d : Document) :
    (d.makeAll texts).body = d.body := by
  induction texts generalizing d with
  | nil => rfl
  | cons text rest ih => exact ih (d.make text)

@[simp] theorem nextHandle_makeAll (texts : List String) (d : Document) :
    (d.makeAll texts).nextHandle = d.nextHandle + texts.length := by
  induction texts generalizing d with
  | nil => rfl
  | cons text rest ih =>
    have := ih (d.make text)
    simp only [make] at this
    simp only [Document.makeAll, List.foldl_cons, List.length_cons] at this ⊢
    rw [make, this]
    omega

@[simp] theorem styles_makeAll (texts : List String) (d : Document) :
    (d.makeAll texts).styles = d.styles := by
  induction texts generalizing d with
  | nil => rfl
  | cons text rest ih => exact ih (d.make text)

theorem IsWaiting.makeAll (hp : d.IsWaiting p) (texts : List String) :
    (d.makeAll texts).IsWaiting p := by
  induction texts generalizing d with
  | nil => exact hp
  | cons text rest ih => exact ih (List.mem_append_left _ hp)

/-- The insertions of texts with looks; `n` is the number of the first handle. -/
def insertions (sheet : Stylesheet) (n : Nat) : List (String × List Look) → List Insertion
  | [] => []
  | (text, looks) :: rest => ⟨made sheet n text, text, looks⟩ :: insertions sheet (n + 1) rest

theorem map_handle_insertions (n : Nat) (items : List (String × List Look)) :
    (insertions sheet n items).map (·.paragraph.handle) =
      (List.range' n items.length).map fun n => (⟨n⟩ : Handle) := by
  induction items generalizing n with
  | nil => rfl
  | cons item rest ih => simp [insertions, made, ih, List.range'_succ]

theorem awaits_makeAll (d : Document) (items : List (String × List Look)) :
    (d.makeAll (items.map Prod.fst)).Awaits (insertions d.styles d.nextHandle items) where
  waiting := by
    induction items generalizing d with
    | nil => simp [insertions]
    | cons item rest ih =>
      intro i hi
      rcases List.mem_cons.1 hi with rfl | hi
      · exact IsWaiting.makeAll (d := d.make item.1) (by simp [IsWaiting, make]) _
      · exact ih (d.make item.1) i hi
  distinct := by
    rw [map_handle_insertions]
    refine List.Nodup.map (fun m n h => Handle.mk.inj h) ?_
    exact List.nodup_range'

end Document

namespace Execution

open Editing

variable {α : Type} {host after : Host} {anchor : Handle} {side : Side}

theorem makeParagraph_eq_ok (hopen : host.isOpen = true) {text : String} {h : Handle} :
    (Host.makeParagraph text).runOn host = (.ok h, after) ↔
      isWritable text.toList = true ∧ h = ⟨host.document.nextHandle⟩ ∧
        after = { host with document := host.document.make text } := by
  simp only [Host.makeParagraph, runOn_bind, runOn_get, hopen, Bool.not_true, Bool.and_false,
    Bool.false_eq_true, if_false]
  by_cases hw : isWritable text.toList = true
  · simp only [hw, Bool.not_true, Bool.false_eq_true, if_false, runOn_bind, runOn_set, runOn_pure,
      Prod.mk.injEq, Except.ok.injEq, true_and, eq_comm (a := h), eq_comm (a := after)]
    rfl
  · simp [hw]

theorem insertParagraph_eq_ok (hopen : host.isOpen = true) {text : String} {h : Handle} :
    (Host.insertParagraph text anchor side).runOn host = (.ok h, after) ↔
      isWritable text.toList = true ∧ h = ⟨host.document.nextHandle⟩ ∧
        after = host.queueing (host.document.make text) [.insertBeside h text side anchor] := by
  simp only [Host.insertParagraph, bind_eq_ok, makeParagraph_eq_ok hopen, Host.runOn_queue,
    runOn_pure, Host.queueing]
  grind

/-- Inserts texts one behind the other, the first one by `insert`; `dress` queues what belongs to the
new paragraph. -/
def insertEach (text : α → String) (dress : Handle → α → Editing Unit)
    (insert : String → Editing Handle) : List α → Editing Unit
  | [] => pure ()
  | a :: rest => do
    let h ← insert (text a)
    dress h a
    insertEach text dress (fun text => Host.insertParagraph text h .after) rest

theorem insertBlocks_eq_insertEach (setting : Setting) (insert : String → Editing Handle)
    (blocks : List Block) :
    insertBlocks setting insert blocks =
      insertEach blockText (queueBlockStyle setting) insert blocks := by
  induction blocks generalizing insert with
  | nil => rfl
  | cons block rest ih => simp only [insertBlocks, insertEach, ih]

theorem insertLines_eq_insertEach (rules : Rules) (insert : String → Editing Handle)
    (lines : List (List Char)) :
    Snapshot.insertLines rules insert lines =
      insertEach String.ofList (fun h _ => Host.queue (.setStyle h rules.normalStyle))
        insert lines := by
  induction lines generalizing insert with
  | nil => rfl
  | cons line rest ih => simp only [Snapshot.insertLines, insertEach, ih]

/-- What is inserted for an item: its text, if that can be written, and its looks. -/
def itemOf (text : α → String) (looks : α → Option (List Look)) (a : α) :
    Option (String × List Look) :=
  if isWritable (text a).toList then (looks a).map (text a, ·) else none

theorem itemOf_eq_some {text : α → String} {looks : α → Option (List Look)} {a : α}
    {item : String × List Look} :
    itemOf text looks a = some item ↔
      isWritable (text a).toList = true ∧ ∃ l, looks a = some l ∧ item = (text a, l) := by
  by_cases hw : isWritable (text a).toList = true <;> simp [itemOf, hw, eq_comm]

/-- Inserting texts beside a paragraph queues a chain. -/
theorem insertEach_eq_ok {text : α → String} {dress : Handle → α → Editing Unit}
    {looks : α → Option (List Look)}
    (hdress : ∀ h a host after, (dress h a).runOn host = (.ok (), after) ↔
      ∃ l, looks a = some l ∧ after = host.queueing host.document (l.map (·.effect h)))
    (hopen : host.isOpen = true) {as : List α} :
    (insertEach text dress (fun text => Host.insertParagraph text anchor side) as).runOn host =
        (.ok (), after) ↔
      ∃ items, List.Forall₂ (fun a item => itemOf text looks a = some item) as items ∧
        after = host.queueing (host.document.makeAll (items.map Prod.fst))
          (Document.chain side anchor
            (Document.insertions host.document.styles host.document.nextHandle items)) := by
  induction as generalizing host anchor side with
  | nil => simp [insertEach, Document.makeAll, Document.insertions, Document.chain, Host.queueing,
      eq_comm]
  | cons a rest ih =>
    simp only [insertEach, bind_eq_ok, insertParagraph_eq_ok hopen, hdress,
      List.forall₂_cons_left_iff]
    constructor
    · rintro ⟨h, mid, ⟨hw, hh, rfl⟩, _, _, ⟨l, hl, rfl⟩, hrest⟩
      rw [Host.queueing_queueing, ih (by simpa using hopen)] at hrest
      obtain ⟨items, hitems, rfl⟩ := hrest
      refine ⟨(text a, l) :: items, ⟨_, _, itemOf_eq_some.2 ⟨hw, l, hl, rfl⟩, hitems, rfl⟩, ?_⟩
      rw [Host.queueing_queueing, hh]
      rfl
    · rintro ⟨_, ⟨item, items, hitem, hitems, rfl⟩, rfl⟩
      obtain ⟨hw, l, hl, rfl⟩ := itemOf_eq_some.1 hitem
      refine ⟨_, _, ⟨hw, rfl, rfl⟩, (), _, ⟨l, hl, rfl⟩, ?_⟩
      rw [Host.queueing_queueing, ih (by simpa using hopen)]
      refine ⟨items, hitems, ?_⟩
      rw [Host.queueing_queueing]
      rfl

/-- The document after items have been inserted and have become the given paragraphs. -/
def inserting (side : Side) (anchor : Handle) (items : List (String × List Look))
    (news : List Paragraph) (d : Document) : Document :=
  ((d.makeAll (items.map Prod.fst)).dropAll
    ((Document.insertions d.styles d.nextHandle items).map (·.paragraph.handle))).rewriteAt anchor
      (·.beside side news)

variable {d d' : Document} {items : List (String × List Look)} {news : List Paragraph}

@[simp] theorem body_inserting : (inserting side anchor items news d).body =
    d.body.rewriteAt anchor (·.beside side news) := by
  simp [inserting]

@[simp] theorem nextHandle_inserting :
    (inserting side anchor items news d).nextHandle = d.nextHandle + items.length := by
  simp [inserting]

@[simp] theorem styles_inserting : (inserting side anchor items news d).styles = d.styles := by
  simp [inserting]

theorem becomes_inserting (hd : d.WellFormed) (hl : anchor ∈ d.body.listed) :
    (d.makeAll (items.map Prod.fst)).Becomes
        (Document.chain side anchor (Document.insertions d.styles d.nextHandle items)) d' ↔
      ∃ news, Document.Dressed d.styles (Document.insertions d.styles d.nextHandle items) news ∧
        d' = inserting side anchor items news d := by
  have hchain := @Document.becomes_chain _ d' _ side _ (hd.makeAll (items.map Prod.fst))
    (by simpa using hl) (Document.awaits_makeAll d items)
  rwa [Document.styles_makeAll] at hchain

theorem wellFormed_inserting (hd : d.WellFormed) (hl : anchor ∈ d.body.listed)
    (hn : Document.Dressed d.styles (Document.insertions d.styles d.nextHandle items) news) :
    (inserting side anchor items news d).WellFormed :=
  (hd.makeAll _).becomes ((becomes_inserting hd hl).2 ⟨news, hn, rfl⟩) fun _ he =>
    Document.keeps_chain he

/-- Inserting texts beside a paragraph and making the changes. -/
theorem insertEach_flush (side : Side) {text : α → String} {dress : Handle → α → Editing Unit}
    {looks : α → Option (List Look)}
    (hdress : ∀ h a host after, (dress h a).runOn host = (.ok (), after) ↔
      ∃ l, looks a = some l ∧ after = host.queueing host.document (l.map (·.effect h)))
    (hh : host.Ready) (hl : anchor ∈ host.document.body.listed) {as : List α} :
    (∃ mid, (insertEach text dress (fun text => Host.insertParagraph text anchor side) as).runOn
        host = (.ok (), mid) ∧ ∃ n, Host.flush.runOn mid = (.ok n, after)) ↔
      ∃ items news, List.Forall₂ (fun a item => itemOf text looks a = some item) as items ∧
        Document.Dressed host.document.styles
          (Document.insertions host.document.styles host.document.nextHandle items) news ∧
        after = { host with
          document := inserting side anchor items news host.document
          flushCount := host.flushCount + 1
          lastFlush := (Document.chain side anchor (Document.insertions host.document.styles
            host.document.nextHandle items)).map .made } := by
  simp only [insertEach_eq_ok hdress hh.isOpen]
  constructor
  · rintro ⟨_, ⟨items, hitems, rfl⟩, hflush⟩
    obtain ⟨d, hbecomes, rfl⟩ := hh.flush_queueing.1 hflush
    obtain ⟨news, hnews, rfl⟩ := (becomes_inserting hh.wellFormed hl).1 hbecomes
    exact ⟨items, news, hitems, hnews, rfl⟩
  · rintro ⟨items, news, hitems, hnews, rfl⟩
    refine ⟨_, ⟨items, hitems, rfl⟩, hh.flush_queueing.2 ⟨_, ?_, rfl⟩⟩
    exact (becomes_inserting hh.wellFormed hl).2 ⟨news, hnews, rfl⟩

end Execution

end Redline
