import Redline.Proofs.Number.Values

/-!
# Numerals with a sign

An integer that is read has no more digits than its numeral may have, and the numeral of an integer,
with its sign if it is below zero, reads back as the integer that it was made of.

## Main results

* `Numeral.natAbs_lt_of_integer?` — how large an integer is that has been read.
* `Numeral.integer?_toString` — a numeral reads back.
-/

namespace Redline.Numeral

open Redline.Text

variable {text row : List Char} {n : Int}

/-! ## Reading -/

theorem digit?_lt {c : Char} {d : Nat} (h : digit? c = some d) : d < 10 := by
  obtain ⟨first, hfirst, rfl⟩ := Option.map_eq_some_iff.1 h
  have hrange := List.find?_some hfirst
  simp only [Bool.and_eq_true, decide_eq_true_eq] at hrange
  omega

/-- So many digits write a number below that power of ten. -/
theorem digitRun_lt {free : Bool} {value count : Nat} {run : Run}
    (h : digitRun 10 decimalDigit? free value count text = some run) (hv : value < 10 ^ count) :
    run.value < 10 ^ run.count := by
  induction text generalizing free value count with
  | nil =>
    rw [digitRun] at h
    split at h
    · cases h
      exact hv
    · cases h
  | cons c rest ih =>
    rw [digitRun] at h
    split at h
    · next d hd =>
      have hdigit := digit?_lt hd
      refine ih h ?_
      rw [Nat.pow_succ]
      omega
    · split at h
      · split at h
        · exact ih h hv
        · cases h
      · split at h
        · cases h
          exact hv
        · cases h

theorem natAbs_lt_of_integer? (h : integer? text = .ok n) : n.natAbs < bound := by
  rw [integer?] at h
  dsimp only at h
  split at h
  · cases h
  · next run hrun =>
    have hlt := digitRun_lt hrun (by decide)
    split at h
    · cases h
    · split at h
      · cases h
      · next hshort =>
        have hle : 10 ^ run.count ≤ bound := Nat.pow_le_pow_right (by decide) (Nat.not_lt.1 hshort)
        split at h
        · cases h
          split <;> omega
        · cases h

/-- A row behind a minus is read as the number below zero. -/
theorem integer?_minus (h : IsRow row) (hshort : row.length ≤ maxDigits) :
    integer? ('-' :: row) = .ok (-(rowValue row : Int)) := by
  have hcore : core ('-' :: row) = '-' :: row := by
    have hminus : isMargin '-' = false := by decide
    have hback : (row.reverse ++ ['-']).dropWhile isMargin = row.reverse ++ ['-'] := by
      rw [List.dropWhile_append, h.reverse.dropWhile_isMargin, if_neg (by simpa using h.ne_nil)]
    rw [core, List.dropWhile_cons_of_neg (by simp [hminus]), List.reverse_cons, hback,
      ← List.reverse_cons, List.reverse_reverse]
  have hrun := digitRun_row h.digits false 0 0 (.inr rfl)
  have hlength : row.length ≠ 0 := by simpa using h.ne_nil
  rw [Nat.zero_add] at hrun
  simp only [integer?, hcore, sign, hrun, hlength, if_false, if_neg (Nat.not_lt.2 hshort)]
  rfl

/-! ## Writing -/

/-- The numeral of an integer reads back. -/
theorem integer?_toString (h : n.natAbs < bound) : integer? (toString n).toList = .ok n := by
  cases n with
  | ofNat m =>
    have hread := integer?_of_isRow (isRow_toString m) (length_toString_le_iff.2 h)
    rw [rowValue_toString] at hread
    exact hread
  | negSucc m =>
    have hread := integer?_minus (isRow_toString (m + 1)) (length_toString_le_iff.2 h)
    rw [rowValue_toString] at hread
    have htext : (toString (Int.negSucc m)).toList = '-' :: (toString (m + 1)).toList := by
      change ("-" ++ toString (m + 1)).toList = _
      rw [String.toList_append]
      rfl
    rw [htext, hread]
    rfl

end Redline.Numeral
