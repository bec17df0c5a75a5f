import Mathlib.Data.List.Forall2
import Redline.Text.Pattern

/-!
# Substitution

What it means to replace a text by another: every occurrence gives way, from left to right and apart
from one another.  A search for a literal text finds the places of this.

## Main definitions

* `Text.Agree`, `Text.Occurs` — what counts as an occurrence.
* `Text.substitute` — a text with all occurrences replaced.
-/

namespace Redline.Text

variable {matchCase : Bool} {search text found : List Char}

/-- Two texts agree character by character, up to case if that is not matched. -/
def Agree (matchCase : Bool) (search found : List Char) : Prop :=
  List.Forall₂ (fun p c => Pattern.agrees matchCase p c = true) search found

/-- A part of the text agrees with what is searched for. -/
def Occurs (matchCase : Bool) (search text : List Char) : Prop :=
  ∃ before found after, text = before ++ (found ++ after) ∧ Agree matchCase search found

/-- Whether the front of a text agrees with what is searched for. -/
def beginsWith (matchCase : Bool) : List Char → List Char → Bool
  | [], _ => true
  | _ :: _, [] => false
  | p :: search, c :: text => Pattern.agrees matchCase p c && beginsWith matchCase search text

/-- A text in which every occurrence is replaced, the leftmost ones that do not overlap. -/
def substitute (matchCase : Bool) (search new : List Char) : List Char → List Char
  | [] => []
  | c :: rest =>
    if beginsWith matchCase search (c :: rest) then
      new ++ substitute matchCase search new (rest.drop (search.length - 1))
    else c :: substitute matchCase search new rest
termination_by text => text.length
decreasing_by all_goals simp; try omega

/-! ## Occurrences -/

theorem beginsWith_iff :
    beginsWith matchCase search text = true ↔
      ∃ found after, text = found ++ after ∧ Agree matchCase search found := by
  induction search generalizing text with
  | nil => simp [beginsWith, Agree]
  | cons p search ih =>
    cases text with
    | nil => simp [beginsWith, Agree]
    | cons c rest =>
      simp only [beginsWith, Bool.and_eq_true, ih]
      constructor
      · rintro ⟨hpc, found, after, rfl, hf⟩
        exact ⟨c :: found, after, rfl, .cons hpc hf⟩
      · rintro ⟨found, after, htext, hf⟩
        cases hf with
        | cons hpc hf =>
          simp only [List.cons_append, List.cons.injEq] at htext
          exact ⟨htext.1 ▸ hpc, _, after, htext.2, hf⟩

theorem occurs_cons_iff {c : Char} :
    Occurs matchCase search (c :: text) ↔
      beginsWith matchCase search (c :: text) = true ∨ Occurs matchCase search text := by
  rw [beginsWith_iff]
  constructor
  · rintro ⟨_ | ⟨b, before⟩, found, after, htext, hf⟩
    · exact Or.inl ⟨found, after, htext, hf⟩
    · exact Or.inr ⟨before, found, after, (List.cons.inj htext).2, hf⟩
  · rintro (⟨found, after, htext, hf⟩ | ⟨before, found, after, rfl, hf⟩)
    · exact ⟨[], found, after, htext, hf⟩
    · exact ⟨c :: before, found, after, rfl, hf⟩

theorem not_occurs_nil (hs : search ≠ []) : ¬ Occurs matchCase search [] := by
  rintro ⟨before, found, after, htext, hf⟩
  simp only [List.nil_eq, List.append_eq_nil_iff] at htext
  exact hs (List.length_eq_zero_iff.1 (hf.length_eq.trans (by simp [htext])))

/-- Behind an occurrence at the front the substitution goes on with the rest. -/
theorem substitute_append {new after : List Char} (hs : search ≠ [])
    (hf : Agree matchCase search found) :
    substitute matchCase search new (found ++ after) =
      new ++ substitute matchCase search new after := by
  have hb : beginsWith matchCase search (found ++ after) = true :=
    beginsWith_iff.2 ⟨found, after, rfl, hf⟩
  have hlength : search.length = found.length := hf.length_eq
  cases found with
  | nil => exact absurd (List.length_eq_zero_iff.1 hlength) hs
  | cons c found =>
    rw [List.cons_append] at hb ⊢
    rw [substitute, if_pos hb]
    simp [hlength]

/-! ## Searching for a literal text -/

open Pattern

theorem readAtoms_literal (before : Option Char) (count : Nat) :
    readAtoms matchCase (accept false) (search.map .char) before count text =
      if beginsWith matchCase search text ∧ count + search.length ≠ 0 then
        some (count + search.length)
      else none := by
  induction search generalizing before count text with
  | nil => simp [readAtoms, accept, beginsWith]
  | cons p search ih =>
    cases text with
    | nil => simp [readAtoms, beginsWith]
    | cons c rest =>
      simp only [List.map_cons, readAtoms, beginsWith, ih, List.length_cons]
      by_cases hpc : agrees matchCase p c = true
      · simp [hpc, Nat.add_right_comm, Nat.add_assoc]
      · simp [hpc]

theorem matchLength_literal (hs : search ≠ []) (before : Option Char) :
    (literal search matchCase false).matchLength before text =
      if beginsWith matchCase search text then some search.length else none := by
  simp [matchLength, literal, readAtoms_literal, hs]

/-- Within a match nothing is searched for. -/
theorem spansFrom_literal (hs : search ≠ []) (skip position : Nat) (before : Option Char) :
    (literal search matchCase false).spansFrom skip position before text =
      (literal search matchCase false).spansFrom 0 (position + skip) none (text.drop skip) := by
  induction text generalizing skip position before with
  | nil => simp [spansFrom]
  | cons c rest ih =>
    cases skip with
    | zero => simp [spansFrom, matchLength_literal hs]
    | succ skip =>
      rw [spansFrom, ih, List.drop_succ_cons]
      congr 1
      omega

theorem spansFrom_found {after : List Char} (hs : search ≠ [])
    (hf : Agree matchCase search found) (position : Nat) :
    (literal search matchCase false).spansFrom 0 position none (found ++ after) =
      ⟨position, position + found.length⟩ ::
        (literal search matchCase false).spansFrom 0 (position + found.length) none after := by
  have hb : beginsWith matchCase search (found ++ after) = true :=
    beginsWith_iff.2 ⟨found, after, rfl, hf⟩
  have hlength : search.length = found.length := hf.length_eq
  cases found with
  | nil => exact absurd (List.length_eq_zero_iff.1 hlength) hs
  | cons c found =>
    rw [List.cons_append] at hb ⊢
    simp only [spansFrom, matchLength_literal hs, hb, if_true, hlength, List.length_cons]
    rw [spansFrom_literal hs]
    simp [Nat.add_assoc, Nat.add_comm 1]

theorem spansFrom_not_found {c : Char} (hs : search ≠ [])
    (hb : ¬ beginsWith matchCase search (c :: text) = true) (position : Nat) :
    (literal search matchCase false).spansFrom 0 position none (c :: text) =
      (literal search matchCase false).spansFrom 0 (position + 1) none text := by
  simp only [spansFrom, matchLength_literal hs, hb]
  rw [spansFrom_literal hs]
  simp

/-- Induction along a substitution: an occurrence at the front goes as a whole, any other character
on its own. -/
@[elab_as_elim]
theorem occurrenceInduction {motive : List Char → Prop} (matchCase : Bool) (hs : search ≠ [])
    (text : List Char) (nil : motive [])
    (found : ∀ found after, Agree matchCase search found → motive after → motive (found ++ after))
    (other : ∀ c rest, ¬ beginsWith matchCase search (c :: rest) = true → motive rest →
      motive (c :: rest)) : motive text := by
  induction hn : text.length using Nat.strongRecOn generalizing text with
  | _ n ih =>
    cases text with
    | nil => exact nil
    | cons c rest =>
      by_cases hb : beginsWith matchCase search (c :: rest) = true
      · obtain ⟨front, after, htext, hf⟩ := beginsWith_iff.1 hb
        have hlength : 0 < front.length := by
          rw [← hf.length_eq]
          exact List.length_pos_iff.2 hs
        rw [htext] at hn ⊢
        rw [List.length_append] at hn
        exact found front after hf (ih after.length (by omega) after rfl)
      · exact other c rest hb (ih rest.length (by simp [← hn]) rest rfl)

theorem spansFrom_eq_nil_iff (hs : search ≠ []) (position : Nat) :
    (literal search matchCase false).spansFrom 0 position none text = [] ↔
      ¬ Occurs matchCase search text := by
  induction text using occurrenceInduction matchCase hs generalizing position with
  | nil => simp [spansFrom, not_occurs_nil hs]
  | found found after hf ih =>
    simp only [spansFrom_found hs hf, reduceCtorEq, false_iff, not_not]
    exact ⟨[], found, after, rfl, hf⟩
  | other c rest hb ih => rw [spansFrom_not_found hs hb, ih, occurs_cons_iff]; simp [hb]

/-- A search finds something exactly where the text occurs. -/
theorem spans_literal_eq_nil_iff (hs : search ≠ []) :
    (literal search matchCase false).spans text = [] ↔ ¬ Occurs matchCase search text :=
  spansFrom_eq_nil_iff hs 0

end Redline.Text
