import Mathlib.Tactic.NormNum
import Mathlib.Tactic.Positivity
import Redline.Proofs.Heading.Best
import Redline.Proofs.Number.Rounding

/-!
# How the standard score ranks headings

The ways in which a heading can answer to a text do not overlap.  As a fraction, the score is one
for equal texts and for nothing else, at most one half for a heading that is a part of the text, at
most three tenths for common words, and it falls with the length of a heading that contains the
text.  Rounded, it is one for equal texts and for nothing else as long as a heading is not beyond
all size.

## Main definitions

* `Heading.Compares` — how two texts compare.
* `Heading.overlap` — the standard score as a fraction.
* `Heading.Ranks` — how a score ranks headings.

## Main results

* `Heading.ranks_overlap` — the standard score ranks headings so.
* `Heading.overlapScore_eq_top_iff` — when the rounded score is full.
-/

namespace Redline.Heading

open Redline.Text

/-- How a heading answers to a text, and what the two have to do with each other. -/
inductive Compares (text heading : List Char) : Likeness → Prop
  | blank (h : text = [] ∨ heading = []) : Compares text heading .none
  | equal (he : text = heading) (hne : text ≠ []) : Compares text heading .equal
  | within (hne : text ≠ []) (hi : text <:+: heading) (hlt : text.length < heading.length) :
      Compares text heading (.within text.length heading.length)
  | around (hi : heading <:+: text) (hlt : heading.length < text.length) :
      Compares text heading (.around heading.length text.length)
  | apart (ht : ¬ text <:+: heading) (hh : ¬ heading <:+: text) : Compares text heading .none
  | words {hits count : Nat} (ht : ¬ text <:+: heading) (hh : ¬ heading <:+: text)
      (hle : hits ≤ count) (hpos : 0 < count) : Compares text heading (.words hits count)

/-- The standard score as a fraction. -/
def overlap (text heading : String) : Rat := (likeness text heading).exact

/-- How a score ranks headings against a text. -/
structure Ranks (score : String → String → Rat) : Prop where
  nonneg : ∀ text heading, 0 ≤ score text heading
  le_one : ∀ text heading, score text heading ≤ 1
  /-- Only equal texts score one. -/
  eq_one_iff : ∀ text heading,
    score text heading = 1 ↔ normalized text = normalized heading ∧ normalized text ≠ []
  /-- A heading that is a part of the text scores one half at most. -/
  around : ∀ text heading, normalized heading <:+: normalized text →
    normalized heading ≠ normalized text → score text heading ≤ 1 / 2
  /-- Common words score three tenths at most. -/
  words : ∀ text heading, ¬ normalized heading <:+: normalized text →
    ¬ normalized text <:+: normalized heading → score text heading ≤ 3 / 10
  /-- Of two headings that contain the text, the shorter one scores higher. -/
  within : ∀ text short long, normalized text ≠ [] → normalized text <:+: normalized short →
    normalized text <:+: normalized long →
    (normalized short).length < (normalized long).length → score text long < score text short

variable {text heading short long : List Char} {l : Likeness} {m n : Nat}

/-- A part of a text that is not all of it is shorter. -/
theorem length_lt_of_part (hi : text <:+: heading) (hne : text ≠ heading) :
    text.length < heading.length :=
  lt_of_le_of_ne hi.length_le fun hlength => hne (hi.eq_of_length hlength)

theorem compares_likenessOf (text heading : List Char) :
    Compares text heading (likenessOf text heading) := by
  rw [likenessOf]
  by_cases hblank : text = [] ∨ heading = []
  · rw [if_pos (by simpa [List.isEmpty_iff] using hblank)]
    exact .blank hblank
  rw [if_neg (by simpa [List.isEmpty_iff] using hblank)]
  obtain ⟨htext, hheading⟩ := not_or.1 hblank
  by_cases heq : text = heading
  · rw [if_pos (by simpa using heq)]
    exact .equal heq htext
  rw [if_neg (by simpa using heq)]
  by_cases hwithin : text <:+: heading
  · rw [if_pos (occursIn_iff.2 hwithin)]
    exact .within htext hwithin (length_lt_of_part hwithin heq)
  rw [if_neg (mt occursIn_iff.1 hwithin)]
  by_cases haround : heading <:+: text
  · rw [if_pos (occursIn_iff.2 haround)]
    exact .around haround (length_lt_of_part haround (Ne.symm heq))
  rw [if_neg (mt occursIn_iff.1 haround)]
  by_cases hwords : words text = []
  · rw [if_pos (by simpa [List.isEmpty_iff] using hwords)]
    exact .apart hwithin haround
  · rw [if_neg (by simpa [List.isEmpty_iff] using hwords)]
    exact .words hwithin haround List.countP_le_length (List.length_pos_iff.2 hwords)

/-- Of all ways of answering, only that of equal texts is `equal`. -/
theorem Compares.eq_equal_iff (h : Compares text heading l) :
    l = .equal ↔ text = heading ∧ text ≠ [] := by
  constructor
  · rintro rfl
    cases h with
    | equal he hne => exact ⟨he, hne⟩
  · rintro ⟨rfl, hne⟩
    cases h with
    | blank h => exact absurd (h.elim id id) hne
    | equal => rfl
    | within _ _ hlt => exact absurd hlt (Nat.lt_irrefl _)
    | around _ hlt => exact absurd hlt (Nat.lt_irrefl _)
    | apart ht _ => exact absurd (List.infix_refl _) ht
    | words ht _ _ _ => exact absurd (List.infix_refl _) ht

/-! ## The score as a fraction -/

theorem share_nonneg (m n : Nat) : 0 ≤ mkRat m n := by
  rw [Rat.mkRat_eq_div]
  positivity

theorem share_le_one (h : m ≤ n) : mkRat m n ≤ 1 := by
  rw [Rat.mkRat_eq_div]
  exact div_le_one_of_le₀ (by exact_mod_cast h) (Nat.cast_nonneg n)

theorem share_lt_one (h : m < n) : mkRat m n < 1 := by
  have hpos : (0 : Rat) < n := by exact_mod_cast Nat.zero_lt_of_lt h
  rw [Rat.mkRat_eq_div, Int.cast_natCast, div_lt_one hpos]
  exact_mod_cast h

/-- A share of something longer is smaller. -/
theorem share_lt_share {k : Nat} (hk : 0 < k) (hm : 0 < m) (h : m < n) : mkRat k n < mkRat k m := by
  have hpos : (0 : Rat) < m := by exact_mod_cast hm
  rw [Rat.mkRat_eq_div, Rat.mkRat_eq_div]
  exact div_lt_div_of_pos_left (by exact_mod_cast hk) hpos (by exact_mod_cast h)

theorem exact_around_le (h : m ≤ n) : (Likeness.around m n).exact ≤ 1 / 2 := by
  have hhalf : mkRat 1 2 = 1 / 2 := Rat.mkRat_eq_div 1 2
  calc mkRat m n * mkRat 1 2 ≤ 1 * mkRat 1 2 :=
        mul_le_mul_of_nonneg_right (share_le_one h) (share_nonneg 1 2)
    _ = 1 / 2 := by rw [one_mul, hhalf]

theorem exact_words_le (h : m ≤ n) : (Likeness.words m n).exact ≤ 3 / 10 := by
  have htenths : mkRat 3 10 = 3 / 10 := Rat.mkRat_eq_div 3 10
  calc mkRat m n * mkRat 3 10 ≤ 1 * mkRat 3 10 :=
        mul_le_mul_of_nonneg_right (share_le_one h) (share_nonneg 3 10)
    _ = 3 / 10 := by rw [one_mul, htenths]

theorem exact_nonneg (l : Likeness) : 0 ≤ l.exact := by
  cases l with
  | none => exact le_refl _
  | equal => exact zero_le_one
  | within m n => exact share_nonneg m n
  | around m n => exact mul_nonneg (share_nonneg m n) (share_nonneg 1 2)
  | words m n => exact mul_nonneg (share_nonneg m n) (share_nonneg 3 10)

/-- Every score but that of equal texts is below one. -/
theorem Compares.exact_lt_one (h : Compares text heading l) (hl : l ≠ .equal) : l.exact < 1 := by
  cases h with
  | blank h => exact zero_lt_one
  | equal he hne => exact absurd rfl hl
  | within hne hi hlt => exact share_lt_one hlt
  | around hi hlt => exact (exact_around_le hlt.le).trans_lt (by norm_num)
  | apart ht hh => exact zero_lt_one
  | words ht hh hle hpos => exact (exact_words_le hle).trans_lt (by norm_num)

theorem Compares.exact_eq_one_iff (h : Compares text heading l) : l.exact = 1 ↔ l = .equal := by
  constructor
  · intro hone
    by_contra hl
    exact (h.exact_lt_one hl).ne hone
  · rintro rfl
    rfl

/-- A heading that contains the text scores the text's share of it. -/
theorem Compares.exact_of_part (h : Compares text heading l) (hne : text ≠ [])
    (hi : text <:+: heading) : l.exact = mkRat text.length heading.length := by
  cases h with
  | blank h =>
    rcases h with hnil | hnil
    · exact absurd hnil hne
    · exact absurd (List.infix_nil.1 (hnil ▸ hi)) hne
  | equal he =>
    have hpos : (text.length : Rat) ≠ 0 := by exact_mod_cast (List.length_pos_iff.2 hne).ne'
    rw [← he, Rat.mkRat_eq_div, Int.cast_natCast, div_self hpos]
    rfl
  | within => rfl
  | around _ hlt => exact absurd hi.length_le hlt.not_ge
  | apart ht _ => exact absurd hi ht
  | words ht _ _ _ => exact absurd hi ht

/-- A heading that is a part of the text scores one half at most. -/
theorem Compares.exact_le_half (h : Compares text heading l) (hi : heading <:+: text)
    (hne : heading ≠ text) : l.exact ≤ 1 / 2 := by
  have hlt := length_lt_of_part hi hne
  cases h with
  | blank => exact one_half_pos.le
  | equal he => exact absurd he.symm hne
  | within _ hi' => exact absurd hi'.length_le hlt.not_ge
  | around => exact exact_around_le hlt.le
  | apart _ hh => exact absurd hi hh
  | words _ hh => exact absurd hi hh

/-- Where neither text is a part of the other one, common words score three tenths at most. -/
theorem Compares.exact_le_tenths (h : Compares text heading l) (hh : ¬ heading <:+: text)
    (ht : ¬ text <:+: heading) : l.exact ≤ 3 / 10 := by
  have hnonneg : (0 : Rat) ≤ 3 / 10 := by norm_num
  cases h with
  | blank => exact hnonneg
  | equal he => exact absurd (he ▸ List.infix_refl _) hh
  | within _ hi => exact absurd hi ht
  | around hi => exact absurd hi hh
  | apart => exact hnonneg
  | words _ _ hle => exact exact_words_le hle

/-- The standard score, as a fraction, ranks headings by how they compare with the text. -/
theorem ranks_overlap : Ranks overlap where
  nonneg _ _ := exact_nonneg _
  le_one text heading := by
    have hcompares := compares_likenessOf (normalized text) (normalized heading)
    by_cases hl : likenessOf (normalized text) (normalized heading) = .equal
    · exact (hcompares.exact_eq_one_iff.2 hl).le
    · exact (hcompares.exact_lt_one hl).le
  eq_one_iff text heading := by
    have hcompares := compares_likenessOf (normalized text) (normalized heading)
    exact hcompares.exact_eq_one_iff.trans hcompares.eq_equal_iff
  around _ _ hi hne := (compares_likenessOf _ _).exact_le_half hi hne
  words _ _ hh ht := (compares_likenessOf _ _).exact_le_tenths hh ht
  within text short long hne hshort hlong hlt := by
    have hpos := List.length_pos_iff.2 hne
    rw [overlap, overlap, likeness, likeness,
      (compares_likenessOf _ _).exact_of_part hne hshort,
      (compares_likenessOf _ _).exact_of_part hne hlong]
    exact share_lt_share hpos (hpos.trans_le hshort.length_le) hlt

/-! ## The rounded score -/

/-- The product of a number that is at most one with a weight below one is below one. -/
theorem weighted_lt_one {share : Binary64} {num power : Nat}
    (hshare : ∃ m k : Nat, share = .finite false m (-(k : Int)) ∧ m ≤ 2 ^ k)
    (hweight : num * 2 ^ 53 ≤ (2 ^ 53 - 1) * 2 ^ power) :
    ∃ m k : Nat, Likeness.weighted share num power = .finite false m (-(k : Int)) ∧ m < 2 ^ k := by
  obtain ⟨m, k, rfl, hle⟩ := hshare
  have hproduct : m * num * 2 ^ 53 ≤ (2 ^ 53 - 1) * (2 ^ k * 2 ^ power) := by
    calc m * num * 2 ^ 53 = m * (num * 2 ^ 53) := Nat.mul_assoc _ _ _
      _ ≤ 2 ^ k * ((2 ^ 53 - 1) * 2 ^ power) := Nat.mul_le_mul hle hweight
      _ = (2 ^ 53 - 1) * (2 ^ k * 2 ^ power) := Nat.mul_left_comm _ _ _
  rw [Likeness.weighted, Binary64.fraction_neg, Binary64.powerOfTwo_eq]
  exact Binary64.round_lt_one (by positivity) hproduct

/-- Every rounded score but that of equal texts is below one, if the heading has no more than
`2 ^ 53` characters. -/
theorem Compares.value_lt_one (h : Compares text heading l) (hl : l ≠ .equal)
    (hsize : heading.length ≤ 2 ^ 53) :
    ∃ m k : Nat, l.value = .finite false m (-(k : Int)) ∧ m < 2 ^ k := by
  have hzero : ∃ m k : Nat, Likeness.none.value = .finite false m (-(k : Int)) ∧ m < 2 ^ k :=
    ⟨0, 1074, rfl, by positivity⟩
  cases h with
  | blank h => exact hzero
  | equal he hne => exact absurd rfl hl
  | within hne hi hlt => exact Binary64.round_lt_one (by omega) (by omega)
  | around hi hlt =>
    exact weighted_lt_one (Binary64.round_le_one (Nat.zero_lt_of_lt hlt) hlt.le) (by decide)
  | apart ht hh => exact hzero
  | words ht hh hle hpos => exact weighted_lt_one (Binary64.round_le_one hpos hle) (by decide)

/-- The rounded score is full for equal texts only. -/
theorem overlapScore_eq_top_iff {text heading : String}
    (hsize : (normalized heading).length ≤ 2 ^ 53) :
    overlapScore text heading = .top ↔
      normalized text = normalized heading ∧ normalized text ≠ [] := by
  have hcompares := compares_likenessOf (normalized text) (normalized heading)
  rw [← hcompares.eq_equal_iff, overlapScore, likeness]
  constructor
  · intro htop
    by_contra hl
    obtain ⟨m, k, hvalue, hlt⟩ := hcompares.value_lt_one hl hsize
    rw [hvalue, Score.ofBinary64, Binary64.toRat?_neg, Option.getD_some, exact_eq_top] at htop
    exact (share_lt_one hlt).ne htop
  · intro hl
    rw [hl]
    decide +kernel

end Redline.Heading
