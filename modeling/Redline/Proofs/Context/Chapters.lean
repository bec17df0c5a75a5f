import Mathlib.Data.List.Induction
import Redline.Context
import Redline.Proofs.Text.Strip
import Redline.Snapshot.Rematch

/-!
# The chapters of a document

A heading and the paragraphs up to the next one make a chapter.  Blank paragraphs do not count, and
what stands in front of the first heading belongs to no chapter.  The context of a prompt is made in
one pass over the paragraphs, and it can be told from the chapters.

## Main definitions

* `Context.Chapter`, `Context.chapters` — the chapters of a list of paragraphs.
* `Context.Chapter.shown` — a chapter as a section of a context, its paragraphs cut.

## Main results

* `Context.outline_eq` — the outline that the pass over the paragraphs makes.
-/

namespace Redline.Context

open Redline.Text

/-- A heading, and the paragraphs up to the next one, without the blanks around them. -/
structure Chapter where
  heading : String
  level : Int
  texts : List String
deriving DecidableEq, Repr

/-- Whether a paragraph is no heading. -/
def isBody (rules : Rules) (p : Passage) : Bool := (rules.headingLevel? p.style).isNone

/-- Each heading among paragraphs with those up to the next one. -/
def chaptersOf (rules : Rules) : List Passage → List Chapter
  | [] => []
  | p :: rest =>
    match rules.headingLevel? p.style with
    | some level =>
      ⟨trimmed p.text, level, (rest.takeWhile (isBody rules)).map fun q => trimmed q.text⟩ ::
        chaptersOf rules rest
    | none => chaptersOf rules rest

/-- The chapters of a list of paragraphs; blank ones do not count. -/
def chapters (rules : Rules) (passages : List Passage) : List Chapter :=
  chaptersOf rules (Snapshot.candidates passages)

/-- A paragraph cut to the given length. -/
def cut (chars : Int) (text : String) : String := String.ofList (upTo chars text.toList)

/-- A chapter as a section of a context, its paragraphs cut to the given length. -/
def Chapter.shown (chars : Int) (index : Nat) (c : Chapter) : RelevantSection :=
  ⟨c.heading, c.level, c.texts.map (cut chars), index⟩

/-- Adds a paragraph to the last chapter. -/
def addText (text : String) : List Chapter → List Chapter
  | [] => []
  | [c] => [{ c with texts := c.texts ++ [text] }]
  | c :: rest => c :: addText text rest

variable {rules : Rules} {passages : List Passage} {p : Passage} {level : Int}

/-! ## One more paragraph -/

theorem addText_cons (text : String) (c : Chapter) {rest : List Chapter} (h : rest ≠ []) :
    addText text (c :: rest) = c :: addText text rest := by
  cases rest with
  | nil => exact absurd rfl h
  | cons next rest => rfl

/-- Where there is no heading there is no chapter. -/
theorem chaptersOf_eq_nil_iff :
    chaptersOf rules passages = [] ↔ ∀ q ∈ passages, isBody rules q = true := by
  induction passages with
  | nil => simp [chaptersOf]
  | cons q rest ih =>
    rw [List.forall_mem_cons, chaptersOf, isBody]
    cases rules.headingLevel? q.style with
    | none => simpa using ih
    | some level => simp

/-- A heading opens a chapter. -/
theorem chaptersOf_concat_heading (hp : rules.headingLevel? p.style = some level) :
    chaptersOf rules (passages ++ [p]) =
      chaptersOf rules passages ++ [⟨trimmed p.text, level, []⟩] := by
  have hbody : isBody rules p = false := by rw [isBody, hp]; rfl
  induction passages with
  | nil => simp [chaptersOf, hp]
  | cons q rest ih =>
    rw [List.cons_append, chaptersOf, chaptersOf, ih]
    cases rules.headingLevel? q.style with
    | none => rfl
    | some level =>
      have htake : (rest ++ [p]).takeWhile (isBody rules) = rest.takeWhile (isBody rules) := by
        rw [List.takeWhile_append, List.takeWhile_cons_of_neg (by simp [hbody]), List.append_nil]
        split
        · next hall => exact ((List.takeWhile_prefix _).eq_of_length hall).symm
        · rfl
      rw [htake, List.cons_append]

/-- Any other paragraph belongs to the last chapter. -/
theorem chaptersOf_concat_body (hp : rules.headingLevel? p.style = none) :
    chaptersOf rules (passages ++ [p]) = addText (trimmed p.text) (chaptersOf rules passages) := by
  have hbody : isBody rules p = true := by rw [isBody, hp]; rfl
  induction passages with
  | nil => simp [chaptersOf, hp, addText]
  | cons q rest ih =>
    rw [List.cons_append, chaptersOf, chaptersOf, ih]
    cases rules.headingLevel? q.style with
    | none => rfl
    | some level =>
      by_cases hlast : chaptersOf rules rest = []
      · have hrest := chaptersOf_eq_nil_iff.1 hlast
        have htake : rest.takeWhile (isBody rules) = rest := List.takeWhile_eq_self_iff.2 hrest
        have hall : (rest ++ [p]).takeWhile (isBody rules) = rest ++ [p] :=
          List.takeWhile_eq_self_iff.2 (List.forall_mem_append.2 ⟨hrest, by simpa using hbody⟩)
        simp [hlast, htake, hall, addText]
      · have htake : (rest ++ [p]).takeWhile (isBody rules) = rest.takeWhile (isBody rules) := by
          have hshort : (rest.takeWhile (isBody rules)).length ≠ rest.length := by
            intro hlength
            refine hlast (chaptersOf_eq_nil_iff.2 (List.takeWhile_eq_self_iff.1 ?_))
            exact (List.takeWhile_prefix _).eq_of_length hlength
          rw [List.takeWhile_append, if_neg hshort]
        rw [addText_cons _ _ hlast, htake]

/-- The headings stay what they are. -/
theorem map_addText (text : String) (cs : List Chapter) :
    (addText text cs).map (fun c => (⟨c.heading, c.level⟩ : HeadingEntry)) =
      cs.map fun c => ⟨c.heading, c.level⟩ := by
  induction cs with
  | nil => rfl
  | cons c rest ih =>
    cases rest with
    | nil => rfl
    | cons next rest =>
      rw [addText_cons _ _ (List.cons_ne_nil _ _), List.map_cons, ih]
      rfl

/-! ## The pass over the paragraphs -/

/-- Adding a paragraph to the last chapter adds it, cut, to the last section. -/
theorem addToLast_mapIdx (text : String) (chars : Int) (k : Nat) (cs : List Chapter) :
    Outline.addToLast text chars (cs.mapIdx fun i c => c.shown chars (k + i)) =
      (addText text cs).mapIdx fun i c => c.shown chars (k + i) := by
  induction cs generalizing k with
  | nil => rfl
  | cons c rest ih =>
    cases rest with
    | nil => simp [Outline.addToLast, addText, Chapter.shown, cut]
    | cons next rest =>
      have hshift : ∀ l : List Chapter, (l.mapIdx fun i c => c.shown chars (k + (i + 1))) =
          l.mapIdx fun i c => c.shown chars (k + 1 + i) := fun l => by
        simp only [Nat.add_assoc, Nat.add_comm 1]
      have hrest := ih (k + 1)
      rw [← hshift, ← hshift] at hrest
      rw [addText_cons _ _ (List.cons_ne_nil _ _), List.mapIdx_cons (l := addText _ _), ← hrest,
        List.mapIdx_cons, List.mapIdx_cons]
      rfl

/-- The outline of a list of paragraphs. -/
theorem outline_eq (rules : Rules) (passages : List Passage) :
    Outline.ofPassages rules passages =
      { headings := (chapters rules passages).map fun c => ⟨c.heading, c.level⟩
        sections := (chapters rules passages).mapIdx fun i c =>
          c.shown rules.contextParagraphChars i
        paragraphs := ((Snapshot.candidates passages).filter (isBody rules)).map fun p =>
          trimmed p.text } := by
  -- The last paragraph is blank, opens a chapter, or belongs to the last one.
  induction passages using List.reverseRecOn with
  | nil => rfl
  | append_singleton rest p ih =>
    rw [Outline.ofPassages, List.foldl_append, List.foldl_cons, List.foldl_nil,
      ← Outline.ofPassages, ih, Outline.add, isEmpty_trimmed]
    by_cases hblank : allBlank p.text.toList = true
    · have hsame : Snapshot.candidates (rest ++ [p]) = Snapshot.candidates rest := by
        simp [Snapshot.candidates, hblank]
      rw [if_pos hblank, chapters, chapters, hsame]
    · have hmore : Snapshot.candidates (rest ++ [p]) = Snapshot.candidates rest ++ [p] := by
        simp [Snapshot.candidates, hblank]
      rw [if_neg hblank, chapters, chapters, hmore]
      cases hlevel : rules.headingLevel? p.style with
      | some level =>
        rw [chaptersOf_concat_heading hlevel]
        simp [isBody, hlevel, Chapter.shown, List.mapIdx_append]
      | none =>
        have hadded := addToLast_mapIdx (trimmed p.text) rules.contextParagraphChars 0
          (chaptersOf rules (Snapshot.candidates rest))
        simp only [Nat.zero_add] at hadded
        rw [chaptersOf_concat_body hlevel, map_addText, ← hadded]
        simp [isBody, hlevel]

end Redline.Context
