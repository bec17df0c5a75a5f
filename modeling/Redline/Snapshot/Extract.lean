import Redline.Anchor
import Redline.Snapshot.Basic

/-!
# Taking a snapshot

Every paragraph that is not blank becomes a block, numbered in order.  A heading opens a section and
is its first block; what stands before the first heading goes into an introduction.

## Main definitions

* `Snapshot.ofPassages` — the snapshot of a list of paragraphs.
* `Snapshot.extract` — the snapshot of a host's document.
-/

namespace Redline.Snapshot

/-- The title of what stands before the first heading. -/
def introductionTitle : String := "Introduction"

/-- The snapshot while it is taken: finished sections and blocks in order. -/
structure Draft where
  sections : List Section := []
  blocks : List (String × Block) := []

namespace Draft

/-- The id of the next block. -/
def nextBlock (d : Draft) : String := s!"b{d.blocks.length + 1}"

/-- The id of the next section. -/
def nextSection (d : Draft) : Json := .str s!"s{d.sections.length + 1}"

/-- Adds a block id to the last section. -/
def addToLast (id : Json) : List Section → List Section
  | [] => []
  | [s] => [{ s with blocks := s.blocks ++ [id] }]
  | s :: rest => s :: addToLast id rest

/-- Adds a heading, which opens a section. -/
def addHeading (text : String) (level : Int) (d : Draft) : Draft :=
  let id := d.nextBlock
  { sections := d.sections ++ [⟨d.nextSection, .str text, level, [.str id]⟩]
    blocks := d.blocks ++ [(id, ⟨.str id, .str "heading", .str text, .int level⟩)] }

/-- Adds a paragraph to the last section; when there is none, to an introduction. -/
def addParagraph (text : String) (d : Draft) : Draft :=
  let id := d.nextBlock
  { sections :=
      if d.sections.isEmpty then [⟨d.nextSection, .str introductionTitle, 1, [.str id]⟩]
      else addToLast (.str id) d.sections
    blocks := d.blocks ++ [(id, ⟨.str id, .str "paragraph", .str text, .null⟩)] }

/-- Adds a paragraph of the document; a blank one is passed over. -/
def add (rules : Rules) (d : Draft) (p : Passage) : Draft :=
  let text := Text.trimmed p.text
  if text.isEmpty then d
  else match rules.headingLevel? p.style with
    | some level => d.addHeading text level
    | none => d.addParagraph text

end Draft

/-- The snapshot of a list of paragraphs. -/
def ofPassages (rules : Rules) (epoch : String) (passages : List Passage) : Snapshot :=
  let d := passages.foldl (Draft.add rules) {}
  ⟨d.sections, d.blocks, epoch⟩

/-- The snapshot of a host's document, under a new epoch. -/
def extract (rules : Rules) (epoch : String) : Editing Snapshot := do
  Anchor.ensureHost
  pure (ofPassages rules epoch (← Host.paragraphs))

end Redline.Snapshot
