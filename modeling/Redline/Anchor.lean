import Redline.Document.Host
import Redline.Heading.Best
import Redline.Number.Numeral

/-!
# Anchors

An anchor names a place in a document.  Four strategies are tried in a fixed order, and the first
that finds something decides: a content control with that tag, a bookmark with that name, a heading
whose text answers to it, and last the default anchor, which stands for the selection or the whole
body.  A strategy that the host refuses is passed over.

A selection can be marked, so that it can be named later on: it is wrapped in a content control
whose tag is a prefix and a number, one more than the highest there is.

## Main definitions

* `Anchor.resolve` — the range of an anchor and the strategy that found it.
* `Anchor.markSelection`, `Anchor.latestSelection` — marking a selection and finding it again.
* `Anchor.sectionRange` — the paragraphs that a heading is the heading of.
-/

namespace Redline

/-- The ways of resolving an anchor. -/
inductive Strategy where
  | marker
  | bookmark
  | heading
  | default
deriving DecidableEq, Repr

namespace Strategy

/-- The name of a strategy. -/
def name : Strategy → String
  | .marker => "marker"
  | .bookmark => "bookmark"
  | .heading => "heading"
  | .default => "default"

/-- The strategies in the order in which they are tried. -/
def all : List Strategy := [.marker, .bookmark, .heading, .default]

end Strategy

/-- What an anchor stands for. -/
structure Resolution where
  strategy : Strategy
  range : List Handle
  /-- The heading, if one was found. -/
  heading : Option Passage := none
deriving Repr

namespace Anchor

open Redline.Text

/-- Fails unless there is an open document. -/
def ensureHost : Editing Unit := do
  if (← get).isOpen then pure () else Editing.failure .hostUnavailable

/-! ## Resolution -/

/-- The first content control with the anchor as its tag. -/
def byMarker (anchor : String) : Editing (Option Resolution) := do
  match (← Host.markers).find? fun m => m.tag == anchor with
  | some marker => pure (some ⟨.marker, ← Host.markerRange marker.handle, none⟩)
  | none => pure none

/-- The first bookmark with the anchor as its name. -/
def byBookmark (anchor : String) : Editing (Option Resolution) := do
  match (← Host.bookmarks).find? fun b => b.name == anchor with
  | some bookmark => pure (some ⟨.bookmark, ← Host.bookmarkRange bookmark, none⟩)
  | none => pure none

/-- The first heading whose text answers to the anchor. -/
def byHeading (rules : Rules) (anchor : String) : Editing (Option Resolution) := do
  let headings := Heading.headings rules (← Host.paragraphs)
  match headings.find? fun p => Heading.answersTo p.text anchor with
  | some p => pure (some ⟨.heading, [p.handle], some p⟩)
  | none => pure none

/-- The selection or the whole body, for the default anchor. -/
def byDefault (rules : Rules) (anchor : String) : Editing (Option Resolution) := do
  if anchor ≠ rules.defaultAnchor then pure none
  else
    match ← Host.selection with
    | some range => pure (some ⟨.default, range, none⟩)
    | none => pure (some ⟨.default, ← Host.bodyRange, none⟩)

/-- What a strategy finds for an anchor. -/
def attempt (rules : Rules) (anchor : String) : Strategy → Editing (Option Resolution)
  | .marker => byMarker anchor
  | .bookmark => byBookmark anchor
  | .heading => byHeading rules anchor
  | .default => byDefault rules anchor

/-- Tries strategies in order; `refusals` are those of the host so far, last one first. -/
def resolveFrom (rules : Rules) (anchor : String) (refusals : List (String × String)) :
    List Strategy → Editing Resolution
  | [] =>
    Editing.failure
      (.anchorUnresolved anchor (Strategy.all.map Strategy.name) refusals.reverse)
  | strategy :: rest => do
    match ← Editing.catchRefusal (attempt rules anchor strategy) with
    | .ok (some found) => pure found
    | .ok none => resolveFrom rules anchor refusals rest
    | .error fault => resolveFrom rules anchor ((strategy.name, fault.text) :: refusals) rest

/-- What an anchor stands for. -/
def resolve (rules : Rules) (anchor : String) : Editing Resolution := do
  ensureHost
  resolveFrom rules anchor [] Strategy.all

/-! ## Marked selections -/

/-- The number of a marked selection, if the tag is that of one. -/
def selectionNumber (start tag : String) : Except Fault (Option Int) :=
  if start.toList.isPrefixOf tag.toList then
    let digits := tag.toList.drop start.length
    if !digits.isEmpty && digits.all isDigit then
      match Numeral.integer? digits with
      | .ok n => .ok (some n)
      | .error (.tooLong count) => .error (.longInteger count)
      | .error .malformed => .ok none
    else .ok none
  else .ok none

/-- The marked selections among content controls, with their numbers. -/
def numbered (start : String) : List Marker → Except Fault (List (Int × Marker))
  | [] => .ok []
  | marker :: rest => do
    let number ← selectionNumber start marker.tag
    let others ← numbered start rest
    .ok (match number with
      | some n => (n, marker) :: others
      | none => others)

/-- How a marked selection appears unless something else is asked for. -/
def hiddenAppearance : String := "hidden"

/-- Marks the selection and returns the tag it got. -/
def markSelection (rules : Rules) (appearance : String) : Editing String := do
  ensureHost
  match ← Host.selection with
  | none => Editing.failure .nothingSelected
  | some range => do
    let marked ← Editing.lift (numbered rules.selectionPrefix (← Host.markers))
    let numeral ← Editing.lift (Numeral.write (Document.largest 0 (marked.map (·.1)) + 1))
    let tag := rules.selectionPrefix ++ numeral
    let control ← Host.wrap range tag
    Host.queue (.setAppearance control appearance)
    match ← Editing.catchRefusal Host.flush with
    | .ok _ => pure tag
    | .error fault => Editing.failure (.markingFailed fault)

/-- The first of the marked selections with the highest number above zero. -/
def latest? (marked : List (Int × Marker)) : Option Marker :=
  (marked.foldl (fun (best : Int × Option Marker) (n, marker) =>
    if best.1 < n then (n, some marker) else best) (0, none)).2

/-- The paragraphs of the selection that was marked last. -/
def latestSelection (rules : Rules) : Editing (Option (List Handle)) := do
  let marked ← Editing.lift (numbered rules.selectionPrefix (← Host.markers))
  match latest? marked with
  | some marker => pure (some (← Host.markerRange marker.handle))
  | none => pure none

/-! ## Sections -/

/-- The passages behind a heading of the given level, up to the next heading of that level or a
higher one. -/
def sectionBody (rules : Rules) (level : Int) (passages : List Passage) : List Passage :=
  passages.takeWhile fun p =>
    match rules.headingLevel? p.style with
    | some other => decide (level < other)
    | none => true

/-- The heading and the paragraphs that it is the heading of.  A paragraph that is no heading makes
a section of its own. -/
def sectionRange (rules : Rules) (heading : Handle) : Editing (List Handle) := do
  let passages ← Host.paragraphs
  let start ← Host.indexOf heading
  match (passages[start]?).bind fun p => rules.headingLevel? p.style with
  | none => pure [heading]
  | some level => do
    let body := sectionBody rules level (passages.drop (start + 1))
    let last := ((body.getLast?).map (·.handle)).getD heading
    Host.expandRange [heading] [last]

end Anchor

end Redline
