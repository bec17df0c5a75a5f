import Mathlib.Tactic.Positivity
import Mathlib.Tactic.Ring
import Redline.Number.Binary64

/-!
# Fractions below one stay below one

A fraction is rounded to a mantissa of 53 binary digits.  One that is at most one rounds to a number
that is at most one, and one that is below one by no less than `2 ^ -53` rounds to a number below
one.

## Main results

* `Binary64.round_le_one`, `Binary64.round_lt_one` — the two bounds.
-/

namespace Redline.Binary64

variable {num den bound j : Nat}

theorem powerOfTwo_eq (n : Nat) : powerOfTwo n = 2 ^ n := rfl

/-- A quotient does not round beyond a whole number that bounds it. -/
theorem divideToEven_le (hden : 0 < den) (h : num ≤ bound * den) :
    divideToEven num den ≤ bound := by
  have hquotient : num / den ≤ bound := Nat.div_le_of_le_mul (by rwa [Nat.mul_comm])
  have hsplit := Nat.div_add_mod num den
  rcases Nat.lt_or_eq_of_le hquotient with hlt | heq
  · simp only [divideToEven]
    split_ifs <;> omega
  · have hrest : num % den = 0 := by
      rw [heq, Nat.mul_comm] at hsplit
      omega
    simp only [divideToEven, hrest, heq, Nat.mul_zero, if_pos hden, le_refl]

/-- Being below the inverse of a power of two. -/
theorem belowPower_neg (num den j : Nat) :
    belowPower num den (-(j : Int)) = decide (num * 2 ^ j < den) := by
  rw [belowPower]
  rcases Nat.eq_zero_or_pos j with rfl | hj
  · simp [powerOfTwo]
  · rw [if_pos (by omega), Int.natAbs_neg, Int.natAbs_natCast, powerOfTwo_eq]

/-- The exponent of a fraction below one is no more than `-53`, and the fraction stays below the
power of two that is 53 above it. -/
theorem exponentFor_of_lt (hnum : num ≠ 0) (hlt : num < den) :
    ∃ k : Nat, 53 ≤ k ∧ exponentFor num den = -(k : Int) ∧ num * 2 ^ k ≤ 2 ^ 53 * den := by
  have hden : den ≠ 0 := by omega
  obtain ⟨j, hj⟩ : ∃ j, den.log2 = num.log2 + j :=
    Nat.exists_eq_add_of_le ((Nat.le_log2 hden).2 ((Nat.log2_self_le hnum).trans hlt.le))
  have hguess : (num.log2 : Int) - den.log2 - 52 + 52 = -(j : Int) := by omega
  have hbelow : num * 2 ^ j < 2 * den := by
    calc num * 2 ^ j < 2 ^ (num.log2 + 1) * 2 ^ j :=
          Nat.mul_lt_mul_of_pos_right Nat.lt_log2_self (by positivity)
      _ = 2 * 2 ^ den.log2 := by rw [hj]; ring
      _ ≤ 2 * den := Nat.mul_le_mul_left 2 (Nat.log2_self_le hden)
  -- The exponent sought is `-k`, unless it is less than the least one.
  have hwithin : ∀ k : Nat, exponentFor num den = max (-(k : Int)) (-1074) → 53 ≤ k →
      num * 2 ^ k ≤ 2 ^ 53 * den →
      ∃ k : Nat, 53 ≤ k ∧ exponentFor num den = -(k : Int) ∧ num * 2 ^ k ≤ 2 ^ 53 * den := by
    intro k hk hleast hle
    refine ⟨min k 1074, by omega, by omega, ?_⟩
    calc num * 2 ^ min k 1074 ≤ num * 2 ^ k :=
          Nat.mul_le_mul_left num (Nat.pow_le_pow_right (by decide) (Nat.min_le_left k 1074))
      _ ≤ 2 ^ 53 * den := hle
  by_cases hpower : num * 2 ^ j < den
  · refine hwithin (53 + j) ?_ (by omega) ?_
    · simp only [exponentFor, hguess, belowPower_neg, hpower, decide_true, if_true]
      omega
    · calc num * 2 ^ (53 + j) = 2 ^ 53 * (num * 2 ^ j) := by ring
        _ ≤ 2 ^ 53 * den := Nat.mul_le_mul_left _ hpower.le
  · have hpos : j ≠ 0 := by
      rintro rfl
      omega
    refine hwithin (52 + j) ?_ (by omega) ?_
    · simp only [exponentFor, hguess, belowPower_neg, hpower, decide_false, Bool.false_eq_true,
        if_false]
      omega
    · calc num * 2 ^ (52 + j) = 2 ^ 52 * (num * 2 ^ j) := by ring
        _ ≤ 2 ^ 52 * (2 * den) := Nat.mul_le_mul_left _ hbelow.le
        _ = 2 ^ 53 * den := by ring

/-- A number rounded from a fraction below one: its mantissa is at most `2 ^ 53`, and if it is just
that, one half of it stands with the next exponent. -/
theorem round_of_lt (hnum : num ≠ 0) (hlt : num < den) :
    ∃ k, 53 ≤ k ∧ divideToEven (num * 2 ^ k) den ≤ 2 ^ 53 ∧
      round false num den =
        if divideToEven (num * 2 ^ k) den = 2 ^ 53 then .finite false (2 ^ 52) (-(k - 1 : Nat))
        else .finite false (divideToEven (num * 2 ^ k) den) (-(k : Nat)) := by
  obtain ⟨k, hk, hexponent, hle⟩ := exponentFor_of_lt hnum hlt
  have hscaled : scaled num den (-(k : Int)) = divideToEven (num * 2 ^ k) den := by
    rw [scaled, if_pos (by omega), Int.natAbs_neg, Int.natAbs_natCast, powerOfTwo_eq]
  refine ⟨k, hk, divideToEven_le (by omega) hle, ?_⟩
  have hnext : -(k : Int) + 1 = -((k - 1 : Nat) : Int) := by omega
  simp only [round, hnum, if_false, hexponent, hscaled, powerOfTwo_eq]
  split
  · rw [if_neg (by omega), hnext]
  · rw [if_neg (by omega)]

/-- A fraction that is at most one rounds to a number that is at most one. -/
theorem round_le_one (hden : 0 < den) (h : num ≤ den) :
    ∃ m k : Nat, round false num den = .finite false m (-(k : Int)) ∧ m ≤ 2 ^ k := by
  rcases Nat.eq_zero_or_pos num with rfl | hnum
  · exact ⟨0, 1074, rfl, Nat.zero_le _⟩
  rcases Nat.lt_or_eq_of_le h with hlt | rfl
  · obtain ⟨k, hk, hle, hround⟩ := round_of_lt hnum.ne' hlt
    rw [hround]
    split
    · exact ⟨_, _, rfl, Nat.pow_le_pow_right (by decide) (by omega)⟩
    · exact ⟨_, _, rfl, hle.trans (Nat.pow_le_pow_right (by decide) hk)⟩
  · refine ⟨2 ^ 52, 52, ?_, le_refl _⟩
    have hbelow : belowPower num num 0 = false := by simp [belowPower, powerOfTwo]
    have hexponent : exponentFor num num = -52 := by simp [exponentFor, hbelow]
    have hscaled : scaled num num (-52) = 2 ^ 52 := by
      rw [scaled, if_pos (by decide), powerOfTwo_eq]
      simp [divideToEven, Nat.mul_div_cancel_left _ hnum, hnum]
    simp [round, hnum.ne', hexponent, hscaled, powerOfTwo_eq]

/-- A fraction that is below one by `2 ^ -53` or more rounds to a number below one. -/
theorem round_lt_one (hden : 0 < den) (h : num * 2 ^ 53 ≤ (2 ^ 53 - 1) * den) :
    ∃ m k : Nat, round false num den = .finite false m (-(k : Int)) ∧ m < 2 ^ k := by
  rcases Nat.eq_zero_or_pos num with rfl | hnum
  · exact ⟨0, 1074, rfl, by positivity⟩
  have hlt : num < den := by omega
  obtain ⟨k, hk, hle, hround⟩ := round_of_lt hnum.ne' hlt
  rw [hround]
  split
  · next hfull =>
    -- A mantissa of `2 ^ 53` needs a lower exponent than `-53`.
    have hne : k ≠ 53 := by
      rintro rfl
      have := divideToEven_le hden h
      omega
    exact ⟨_, _, rfl, Nat.pow_lt_pow_right (by decide) (by omega)⟩
  · next hfull =>
    have hmantissa := Nat.lt_of_le_of_ne hle hfull
    exact ⟨_, _, rfl, hmantissa.trans_le (Nat.pow_le_pow_right (by decide) hk)⟩

/-! ## Numbers with a negative exponent -/

theorem fraction_neg (m k : Nat) : fraction m (-(k : Int)) = (m, 2 ^ k) := by
  rw [fraction]
  rcases Nat.eq_zero_or_pos k with rfl | hk
  · simp [powerOfTwo]
  · rw [if_pos (by omega), Int.natAbs_neg, Int.natAbs_natCast, powerOfTwo_eq]

theorem toRat?_neg (m k : Nat) :
    toRat? (.finite false m (-(k : Int))) = some (mkRat m (2 ^ k)) := by
  simp only [toRat?, fraction_neg]
  rfl

end Redline.Binary64
