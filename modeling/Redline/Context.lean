import Redline.Snapshot.Extract

/-!
# The context of a prompt

What a planner is shown of a document that it works on without a snapshot: the headings, the
sections that have to do with the prompt, and a short summary.

## Main definitions

* `keywords` — the words of a prompt that count.
* `Context` — what the planner is shown.
* `Context.ofPassages`, `Context.build` — the context of a list of paragraphs, and of a host's
  document.
-/

namespace Redline

open Redline.Text

/-- The first items of a list; a number below zero says how many of the last ones are left out. -/
def upTo {α : Type} (n : Int) (list : List α) : List α :=
  if n < 0 then list.take (list.length - n.natAbs) else list.take n.toNat

/-- A prompt with a blank for everything that is neither part of a word nor blank itself. -/
def wordsOnly (prompt : List Char) : List Char :=
  prompt.map fun c => if isWordChar c || isBlank c then c else ' '

/-- Keeps each item at its first place. -/
def firstPlaces (seen : List (List Char)) : List (List Char) → List (List Char)
  | [] => []
  | word :: rest =>
    if seen.contains word then firstPlaces seen rest
    else word :: firstPlaces (word :: seen) rest

/-- The words of a prompt, in lower case and each once, that are longer than two characters and no
stop words. -/
def keywords (prompt : String) (stopWords : List String) : List (List Char) :=
  let stop := stopWords.map String.toList
  firstPlaces []
    ((fields (wordsOnly (lower prompt.toList))).filter fun word =>
      2 < word.length && !stop.contains word)

/-- A heading in the list of headings. -/
structure HeadingEntry where
  text : String
  level : Int
deriving DecidableEq, Repr

/-- A section that has to do with the prompt. -/
structure RelevantSection where
  heading : String
  level : Int
  paragraphs : List String
  /-- The position of its heading in the list of headings. -/
  headingIndex : Nat
deriving DecidableEq, Repr

/-- What a planner is shown of a document. -/
structure Context where
  headings : List HeadingEntry
  hierarchy : String
  relevant : List RelevantSection
  summary : String
  hasContent : Bool
deriving DecidableEq, Repr

namespace Context

/-- The title of a document without headings. -/
def wholeTitle : String := "Document Content"

/-- How much of a heading a prompt has to mention. -/
def headingChars : Nat := 10

/-- A heading as a line of the outline, indented by its level. -/
def outlineLine (h : HeadingEntry) : String :=
  String.ofList (List.replicate (2 + 2 * (h.level - 1).toNat) ' ') ++ s!"[H{h.level}] {h.text}"

/-- The outline of the headings. -/
def outline (headings : List HeadingEntry) : String :=
  "\n".intercalate (headings.map outlineLine)

/-- Whether a section has to do with a prompt: it has a keyword, or the prompt mentions the
beginning of its heading. -/
def isRelevant (words : List (List Char)) (prompt : List Char) (s : RelevantSection) : Bool :=
  let text := lower (s.heading ++ " " ++ " ".intercalate s.paragraphs).toList
  let beginning := (lower s.heading.toList).take headingChars
  words.any (occursIn · text) || (!beginning.isEmpty && occursIn beginning prompt)

/-- Prompts that ask for another order of the document. -/
def orderingPatterns : List Pattern :=
  ["reorder", "reorganize", "restructure", "rewrite*order", "rearrange"].map fun text =>
    .wildcard text.toList false false

/-- Whether a prompt asks for another order of the document. -/
def asksForOrder (prompt : String) : Bool := orderingPatterns.any (·.occurs prompt.toList)

/-- The paragraphs of a document: headings open sections, and what belongs to no section is kept
beside them. -/
structure Outline where
  headings : List HeadingEntry := []
  sections : List RelevantSection := []
  paragraphs : List String := []

namespace Outline

/-- Adds a paragraph to the last section, cut to the given length. -/
def addToLast (text : String) (chars : Int) : List RelevantSection → List RelevantSection
  | [] => []
  | [s] =>
    [{ s with paragraphs := s.paragraphs ++ [String.ofList (upTo chars text.toList)] }]
  | s :: rest => s :: addToLast text chars rest

/-- Adds a paragraph of the document; a blank one is passed over. -/
def add (rules : Rules) (o : Outline) (p : Passage) : Outline :=
  let text := trimmed p.text
  if text.isEmpty then o
  else match rules.headingLevel? p.style with
    | some level =>
      { o with
        headings := o.headings ++ [⟨text, level⟩]
        sections := o.sections ++ [⟨text, level, [], o.headings.length⟩] }
    | none =>
      { o with
        paragraphs := o.paragraphs ++ [text]
        sections := addToLast text rules.contextParagraphChars o.sections }

/-- The outline of a list of paragraphs. -/
def ofPassages (rules : Rules) (passages : List Passage) : Outline :=
  passages.foldl (add rules) {}

end Outline

/-- The sections that have to do with a prompt, each with its first paragraphs. -/
def relevantSections (rules : Rules) (prompt : String) (o : Outline) : List RelevantSection :=
  let words := keywords prompt rules.stopWords
  let isShown (s : RelevantSection) :=
    !s.paragraphs.isEmpty && isRelevant words (lower prompt.toList) s
  (o.sections.filter isShown).map fun s =>
    { s with paragraphs := upTo rules.contextParagraphs s.paragraphs }

/-- All paragraphs as one section, for a prompt that asks for another order.  It bears the last
heading of the document. -/
def wholeSection (prompt : String) (o : Outline) : List RelevantSection :=
  if asksForOrder prompt && !o.paragraphs.isEmpty then
    match o.sections.getLast? with
    | some s => [⟨s.heading, s.level, o.paragraphs, s.headingIndex⟩]
    | none => [⟨wholeTitle, 1, o.paragraphs, 0⟩]
  else []

/-- The context of a list of paragraphs. -/
def ofPassages (rules : Rules) (prompt : String) (passages : List Passage) : Context :=
  let o := Outline.ofPassages rules passages
  { headings := o.headings
    hierarchy := outline o.headings
    relevant := relevantSections rules prompt o ++ wholeSection prompt o
    summary := String.ofList (upTo rules.contextSummaryChars
      (" ".intercalate (upTo rules.contextParagraphs o.paragraphs)).toList)
    hasContent := !o.paragraphs.isEmpty || !o.headings.isEmpty }

/-- The context of a host's document. -/
def build (rules : Rules) (prompt : String) : Editing Context := do
  Anchor.ensureHost
  pure (ofPassages rules prompt (← Host.paragraphs))

/-- A context in its written form. -/
def toJson (c : Context) : Json :=
  .obj [
    ("headings", .arr (c.headings.map fun h =>
      .obj [("text", .str h.text), ("level", .int h.level)])),
    ("heading_hierarchy", .str c.hierarchy),
    ("relevant_content", .arr (c.relevant.map fun s =>
      .obj [("heading", .str s.heading), ("level", .int s.level),
        ("paragraphs", .arr (s.paragraphs.map .str)),
        ("heading_index", .int s.headingIndex)])),
    ("content_summary", .str c.summary), ("has_content", .bool c.hasContent)]

end Context

end Redline
