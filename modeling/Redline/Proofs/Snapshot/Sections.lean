import Mathlib.Data.List.SplitBy
import Redline.Proofs.Snapshot.Numbering

/-!
# What a snapshot is made of

A snapshot is told by the pieces of its document: the texts of the paragraphs that are not blank, and
the levels of those that are headings.  The pieces are numbered in order, and each heading opens a
section, which holds the pieces up to the next heading; what stands before the first heading is the
introduction.

## Main definitions

* `Snapshot.Piece` — what a snapshot tells of a paragraph.
* `Snapshot.groups` — pieces grouped by heading.
* `Snapshot.ofPieces` — the snapshot of a document with the given pieces.
-/

namespace Redline.Snapshot

open Redline.Text

/-- What a snapshot tells of a paragraph: its text, and its level if it is a heading. -/
structure Piece where
  text : String
  level : Option Int
deriving DecidableEq, Repr

namespace Piece

/-- Whether the piece is a heading. -/
def isHeading (p : Piece) : Bool := p.level.isSome

/-- The block of a piece. -/
def block (id : String) (p : Piece) : Block :=
  match p.level with
  | some level => ⟨.str id, .str "heading", .str p.text, .int level⟩
  | none => ⟨.str id, .str "paragraph", .str p.text, .null⟩

/-- The piece of a paragraph. -/
def ofPassage (rules : Rules) (p : Passage) : Piece := ⟨trimmed p.text, rules.headingLevel? p.style⟩

end Piece

/-- Pieces under the ids of their blocks. -/
def labelled (pieces : List Piece) : List (String × Piece) :=
  pieces.mapIdx fun position p => (blockId position, p)

/-- Pieces grouped by heading: each heading opens a group. -/
def groups (pieces : List (String × Piece)) : List (List (String × Piece)) :=
  pieces.splitBy fun _ e => !e.2.isHeading

/-- The id of the section with the given position; ids count from one. -/
def sectionId (position : Nat) : String := s!"s{position + 1}"

/-- The section of a group, which has the title and the level of its heading. -/
def sectionOf (position : Nat) (group : List (String × Piece)) : Section :=
  let ids := group.map fun e => Json.str e.1
  match group.head?.bind fun e => e.2.level.map fun level => (e.2.text, level) with
  | some (title, level) => ⟨.str (sectionId position), .str title, level, ids⟩
  | none => ⟨.str (sectionId position), .str introductionTitle, 1, ids⟩

/-- The snapshot of a document with the given pieces. -/
def ofPieces (epoch : String) (pieces : List Piece) : Snapshot where
  sections := (groups (labelled pieces)).mapIdx sectionOf
  blocks := (labelled pieces).map fun e => (e.1, e.2.block e.1)
  epoch := epoch

variable {rules : Rules} {pieces : List (String × Piece)} {e : String × Piece}

/-! ## Groups -/

theorem groups_concat_heading (he : e.2.isHeading = true) :
    groups (pieces ++ [e]) = groups pieces ++ [[e]] := by
  rw [groups, List.splitBy_append_cons [] (by simp [he])]
  rfl

/-- What is no heading goes to the last group. -/
theorem groups_concat_paragraph {first : List (List (String × Piece))}
    {last : List (String × Piece)} (he : e.2.isHeading = false)
    (hg : groups pieces = first ++ [last]) :
    groups (pieces ++ [e]) = first ++ [last ++ [e]] := by
  obtain ⟨hflat, hne, hwithin, hbetween⟩ := List.splitBy_eq_iff.1 hg
  rw [List.isChain_append] at hbetween
  obtain ⟨hfirst, -, hborder⟩ := hbetween
  refine List.splitBy_eq_iff.2 ⟨by simp [hflat], ?_, ?_, ?_⟩
  · intro hmem
    rcases List.mem_append.1 hmem with hmem | hmem
    · exact hne (List.mem_append_left _ hmem)
    · simp at hmem
  · intro group hmem
    rcases List.mem_append.1 hmem with hmem | hmem
    · exact hwithin group (List.mem_append_left _ hmem)
    · obtain rfl := List.mem_singleton.1 hmem
      refine List.isChain_append.2 ⟨hwithin last (by simp), List.isChain_singleton _, ?_⟩
      simp [he]
  · -- The last group begins as it did before.
    refine List.isChain_append.2 ⟨hfirst, List.isChain_singleton _, fun group hgroup next hnext => ?_⟩
    obtain ⟨ha, hb, hr⟩ := hborder group hgroup last (by simp)
    obtain rfl : last ++ [e] = next := by simpa using hnext
    exact ⟨ha, by simp, by simpa [List.head_append_of_ne_nil hb] using hr⟩

/-! ## Sections -/

theorem sectionOf_concat {position : Nat} {group : List (String × Piece)} (hg : group ≠ []) :
    sectionOf position (group ++ [e]) =
      { sectionOf position group with
        blocks := (sectionOf position group).blocks ++ [.str e.1] } := by
  have hhead : (group ++ [e]).head? = group.head? := List.head?_append_of_ne_nil _ hg
  simp only [sectionOf, hhead, List.map_append, List.map_cons, List.map_nil]
  split <;> rfl

theorem addToLast_concat (id : Json) (sections : List Section) (s : Section) :
    Draft.addToLast id (sections ++ [s]) = sections ++ [{ s with blocks := s.blocks ++ [id] }] := by
  induction sections with
  | nil => rfl
  | cons first rest ih =>
    rw [List.cons_append, List.cons_append, ← ih]
    cases rest <;> rfl

/-- The draft of a snapshot that has come as far as the given pieces. -/
def Draft.ofLabelled (pieces : List (String × Piece)) : Draft where
  sections := (groups pieces).mapIdx sectionOf
  blocks := pieces.map fun e => (e.1, e.2.block e.1)

namespace Draft

theorem nextBlock_ofLabelled : (ofLabelled pieces).nextBlock = blockId pieces.length := by
  simp [nextBlock, ofLabelled, blockId]

theorem addHeading_ofLabelled (text : String) (level : Int) :
    (ofLabelled pieces).addHeading text level =
      ofLabelled (pieces ++ [(blockId pieces.length, ⟨text, some level⟩)]) := by
  have hgroups : groups (pieces ++ [(blockId pieces.length, ⟨text, some level⟩)]) =
      groups pieces ++ [[(blockId pieces.length, ⟨text, some level⟩)]] := groups_concat_heading rfl
  simp only [addHeading, nextBlock_ofLabelled]
  simp [nextSection, ofLabelled, hgroups, List.mapIdx_append, sectionOf, sectionId, Piece.block]

theorem addParagraph_ofLabelled (text : String) :
    (ofLabelled pieces).addParagraph text =
      ofLabelled (pieces ++ [(blockId pieces.length, ⟨text, none⟩)]) := by
  rcases List.eq_nil_or_concat' (groups pieces) with hnone | ⟨first, last, hg⟩
  · -- The first piece of all opens the introduction.
    obtain rfl : pieces = [] := List.splitBy_eq_nil.1 hnone
    rfl
  · have hlast : last ≠ [] := List.ne_nil_of_mem_splitBy
      (show last ∈ groups pieces by simp [hg])
    have hgroups := groups_concat_paragraph (e := (blockId pieces.length, ⟨text, none⟩)) rfl hg
    simp only [addParagraph, nextBlock_ofLabelled]
    simp [ofLabelled, hgroups, hg, List.mapIdx_append, addToLast_concat, sectionOf_concat hlast,
      Piece.block]

theorem add_ofLabelled {p : Passage} (hp : allBlank p.text.toList = false) :
    (ofLabelled pieces).add rules p =
      ofLabelled (pieces ++ [(blockId pieces.length, Piece.ofPassage rules p)]) := by
  rw [add, isEmpty_trimmed, hp, Piece.ofPassage]
  cases rules.headingLevel? p.style with
  | some level => exact addHeading_ofLabelled _ level
  | none => exact addParagraph_ofLabelled _

/-- Going through paragraphs adds the pieces of those that are not blank. -/
theorem foldl_add_ofLabelled (rules : Rules) (passages : List Passage) (pieces : List Piece) :
    passages.foldl (add rules) (ofLabelled (labelled pieces)) =
      ofLabelled (labelled (pieces ++ (candidates passages).map (Piece.ofPassage rules))) := by
  induction passages generalizing pieces with
  | nil => simp [candidates]
  | cons p rest ih =>
    rw [List.foldl_cons]
    by_cases hp : allBlank p.text.toList = true
    · have hc : candidates (p :: rest) = candidates rest := by simp [candidates, hp]
      rw [add_of_blank hp, ih, hc]
    · have hp : allBlank p.text.toList = false := by simpa using hp
      have hc : candidates (p :: rest) = p :: candidates rest := by simp [candidates, hp]
      have hlabelled : labelled (pieces ++ [Piece.ofPassage rules p]) =
          labelled pieces ++ [(blockId (labelled pieces).length, Piece.ofPassage rules p)] := by
        simp [labelled]
      rw [add_ofLabelled hp, ← hlabelled, ih, hc]
      simp

end Draft

/-- The snapshot of a list of paragraphs is told by the pieces of those that are not blank. -/
theorem ofPassages_eq_ofPieces (rules : Rules) (epoch : String) (passages : List Passage) :
    ofPassages rules epoch passages =
      ofPieces epoch ((candidates passages).map (Piece.ofPassage rules)) := by
  have hfold := Draft.foldl_add_ofLabelled rules passages []
  rw [ofPassages, show ({} : Draft) = Draft.ofLabelled (labelled []) from rfl, hfold]
  rfl

end Redline.Snapshot
