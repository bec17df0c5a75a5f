import Redline.Document.Effect
import Redline.Failure
import Redline.Text.Pattern

/-!
# The host of a document

A host holds one document and answers to two kinds of calls.  Queries look at the document as the
last flush left it.  Changes are queued as effects and made by the next flush, in order and up to
the first that fails; there is no way back from what was made.

Work on a host keeps what it has done when a mishap ends it.

## Main definitions

* `Host` — a document with its queue, its selection and its failing queries.
* `Editing` — work on a host.
* `Host.paragraphs`, `Host.markers`, `Host.bookmarks`, `Host.search`, … — the queries.
* `Host.insertParagraph`, `Host.clearRange`, `Host.wrap`, … — the changes.
* `Host.flush`, `Host.discard` — making the queued changes, or dropping them.
-/

namespace Redline

open Redline.Text

/-- The queries that can fail. -/
inductive Query where
  | paragraphs
  | markers
  | markerRange
  | bookmarks
  | bookmarkRange
  | selection
  | search
deriving DecidableEq, Repr

/-- A host of a document. -/
structure Host where
  document : Document
  /-- Whether the document has not been closed. -/
  isOpen : Bool := true
  /-- The effects that wait for the next flush. -/
  pending : List Effect := []
  /-- How often the host was flushed. -/
  flushCount : Nat := 0
  /-- The effects that the last flush took over. -/
  lastFlush : List PendingEffect := []
  /-- The selected paragraphs. -/
  selected : Option (List Handle) := none
  /-- The queries that fail, and how. -/
  outages : List (Query × Fault) := []

/-- Work on a host.  A mishap ends it, and the host stays as the work has left it. -/
abbrev Editing := ExceptT Mishap (StateM Host)

namespace Editing

/-- Ends the work with a fault. -/
def fault {α : Type} (f : Fault) : Editing α := throw (.fault f)

/-- Ends the work with a failure of the plan. -/
def failure {α : Type} (f : Failure) : Editing α := throw (.failure f)

/-- Goes on with a value that may be a fault. -/
def lift {α : Type} (value : Except Fault α) : Editing α :=
  match value with
  | .ok a => pure a
  | .error f => fault f

/-- Does the work and hands back what the host refuses; every other mishap ends the work. -/
def catchRefusal {α : Type} (work : Editing α) : Editing (Except Fault α) :=
  tryCatch (do pure (.ok (← work))) fun
    | .fault f => if f.family = .host then pure (.error f) else throw (.fault f)
    | mishap => throw mishap

/-- Does the work on a host. -/
def runOn {α : Type} (work : Editing α) (host : Host) : Except Mishap α × Host :=
  StateT.run (ExceptT.run work) host

end Editing

/-- A content control that stands directly in the body. -/
structure Marker where
  tag : String
  appearance : Option String
  handle : Handle
deriving DecidableEq, Repr

namespace Forest

/-- The content controls that stand directly in a forest; one without a tag has an empty one. -/
def markers : Forest → List Marker
  | .nil => []
  | .cons (.control h properties) _ rest =>
    ⟨(properties.bind (·.tag)).getD "", properties.bind (·.appearance), h⟩ :: rest.markers
  | .cons _ _ rest => rest.markers

end Forest

namespace Document

/-- The matches of a pattern in the run texts of a document, in document order. -/
def search (d : Document) (pattern : Pattern) : List Match :=
  d.paragraphs.flatMap fun p =>
    let text := p.content.runText
    (pattern.spans text).map fun span =>
      ⟨p.handle, span.start, span.stop, (text.drop span.start).take (span.stop - span.start)⟩

/-- The largest number of a list, or the given one when the list is empty. -/
def largest (least : Int) : List Int → Int
  | [] => least
  | n :: rest => rest.foldl max n

end Document

namespace Host

/-! ## Queries -/

/-- A closed document has no parts. -/
def closedFault (member : String) : Fault :=
  .noMember s!"'NoneType' object has no attribute '{member}'"

/-- Fails if a query is down. -/
def check (query : Query) : Editing Unit := do
  match (← get).outages.lookup query with
  | some fault => Editing.fault fault
  | none => pure ()

/-- The document, if it is open. -/
def openDocument : Editing Document := do
  let host ← get
  if host.isOpen then pure host.document else Editing.fault (closedFault "element")

/-- A query of the document. -/
def ask {α : Type} (query : Query) (view : Document → α) : Editing α := do
  check query
  let d ← openDocument
  pure (view d)

/-- The list of paragraphs. -/
def paragraphs : Editing (List Passage) := ask .paragraphs Document.passages

/-- The content controls that stand directly in the body. -/
def markers : Editing (List Marker) := ask .markers fun d => d.body.markers

/-- The paragraphs that stand directly in a content control. -/
def markerRange (control : Handle) : Editing (List Handle) := do
  check .markerRange
  pure ((← get).document.inside control).ownParagraphs

/-- The bookmarks. -/
def bookmarks : Editing (List Bookmark) := ask .bookmarks fun d => d.body.bookmarks

/-- The paragraphs of a bookmark. -/
def bookmarkRange (bookmark : Bookmark) : Editing (List Handle) :=
  ask .bookmarkRange fun d => d.body.bookmarkRange bookmark

/-- The selected paragraphs that are still in the document, if there are any. -/
def selection : Editing (Option (List Handle)) := do
  check .selection
  match (← get).selected with
  | none => pure none
  | some [] => pure none
  | some handles => do
    let d ← openDocument
    let live := handles.filter d.attached
    pure (if live.isEmpty then none else some live)

/-- The matches of a pattern. -/
def search (pattern : Pattern) : Editing (List Match) := ask .search (·.search pattern)

/-- All paragraphs. -/
def bodyRange : Editing (List Handle) := do
  pure ((← paragraphs).map (·.handle))

/-- The texts of a range, one a line. -/
def rangeText (range : List Handle) : Editing String := do
  let passages ← paragraphs
  let textOf h := ((passages.find? fun p => p.handle == h).map (·.text)).getD ""
  pure ("\n".intercalate (range.map textOf))

/-- The position of a paragraph. -/
def indexOf (h : Handle) : Editing Nat := do
  match (← paragraphs).find? fun p => p.handle == h with
  | some p => pure p.index
  | none => Editing.fault .notInDocument

/-- The paragraphs from the first one of a range through the last one of another, whichever of the
two comes first. -/
def expandRange (start stop : List Handle) : Editing (List Handle) := do
  match start.head?, stop.getLast? with
  | none, _ => pure stop
  | _, none => pure start
  | some first, some last => do
    let handles ← bodyRange
    let i ← indexOf first
    let j ← indexOf last
    pure (Forest.slice handles (min i j) (max i j))

/-! ## Changes -/

/-- Queues an effect. -/
def queue (effect : Effect) : Editing Unit :=
  modify fun host => { host with pending := host.pending ++ [effect] }

/-- Makes a paragraph for a text; an empty text has no run.  A text that cannot be written is
refused at once. -/
def makeParagraph (text : String) : Editing Handle := do
  let host ← get
  if !text.isEmpty && !host.isOpen then Editing.fault (closedFault "_body")
  else if !isWritable text.toList then Editing.fault .forbiddenCharacter
  else
    let content := if text.isEmpty then Forest.nil else Forest.runOf text.toList
    let (d, h) := host.document.addFresh fun h =>
      .single (.paragraph h host.document.styles.defaultName none) content
    set { host with document := d }
    pure h

/-- Inserts a paragraph beside another one. -/
def insertParagraph (text : String) (anchor : Handle) (side : Side) : Editing Handle := do
  let h ← makeParagraph text
  queue (.insertBeside h text side anchor)
  pure h

/-- Inserts a paragraph at an end of the body. -/
def insertParagraphInBody (text : String) (edge : Edge) : Editing Handle := do
  let h ← makeParagraph text
  queue (.insertInBody h text edge)
  pure h

/-- Empties a range down to one paragraph, which is returned; the bookmarks of the range stay
around it. -/
def clearRange (range : List Handle) : Editing Handle := do
  match range with
  | [] => Editing.fault .clearsNothing
  | keep :: others => do
    queue (.clearRange keep others)
    pure keep

/-- Deletes the paragraphs of a range; returns how many effects that takes. -/
def deleteRange (range : List Handle) : Editing Nat := do
  range.forM fun h => queue (.delete h)
  pure range.length

/-- Wraps a range in a content control with the given tag. -/
def wrap (range : List Handle) (tag : String) : Editing Handle := do
  match range with
  | [] => Editing.fault .wrapsNothing
  | first :: others => do
    if !isWritable tag.toList then Editing.fault .forbiddenCharacter
    else
      let host ← get
      let (d, h) := host.document.addFresh fun h =>
        .single (.control h (some { tag := some tag })) .nil
      set { host with document := d }
      queue (.wrap h first others tag)
      pure h

/-- Drops the queued effects; returns how many there were. -/
def discard : Editing Nat := do
  let host ← get
  set { host with pending := [] }
  pure host.pending.length

/-- One step of a flush. -/
def step (isOpen : Bool) (effect : Effect) (d : Document) : Effect.Outcome :=
  if isOpen then effect.apply d
  else match effect.closedMember? with
    | some member => (d, some (closedFault member))
    | none => effect.apply d

/-- Makes the queued changes in order and flags those that were made; returns how many there were.
The first that fails ends the flush; the queue is empty afterwards in any case. -/
def flush : Editing Nat := do
  let host ← get
  let progress := host.document.applyAll (step host.isOpen) host.pending
  set { host with
    document := progress.document
    pending := []
    flushCount := host.flushCount + 1
    lastFlush := progress.queue }
  match progress.failed with
  | some (effect, cause) => Editing.fault (.effectFailed effect.description cause)
  | none => pure progress.applied

/-- Bookmarks a range at once: the start mark goes to the front of its first paragraph, the end mark
to the back of its last one. -/
def addBookmark (name : String) (range : List Handle) : Editing Unit := do
  let d ← openDocument
  let ids ← d.body.bookmarks.mapM fun b =>
    match Numeral.integer? b.id.toList with
    | .ok n => (pure n : Editing Int)
    | .error (.tooLong digits) => Editing.fault (.longInteger digits)
    | .error .malformed => Editing.fault (.notInteger 10 b.id)
  let id ← Editing.lift (Numeral.write (Document.largest (-1) ids + 1))
  if !isWritable name.toList then Editing.fault .forbiddenCharacter
  else
    match range.head?, range.getLast? with
    | some first, some last => do
      let start := Forest.single (.bookmarkStart name id) .nil
      let stop := Forest.single (.bookmarkEnd id) .nil
      modify fun host => { host with
        document := (host.document.modifyInside first (start ++ ·)).modifyInside last (· ++ stop) }
    | _, _ => Editing.fault .outOfRange

end Host

end Redline
