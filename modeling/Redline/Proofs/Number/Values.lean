import Redline.Proofs.Number.Digits
import Redline.Fault

/-!
# The number of a row of digits

A row of digits of any script writes a number, and reading gives that number back as long as the
row is not too long.  The numeral of a natural number is a row that writes it.

## Main definitions

* `Numeral.rowValue` — the number that a row of digits writes.
* `Numeral.bound` — the first number that is too long to be read or written.

## Main results

* `Numeral.integer?_of_isRow` — what a row is read as.
* `Numeral.isRow_toString`, `Numeral.rowValue_toString` — a numeral is a row and writes its number.
* `Numeral.write_of_lt`, `Numeral.write_of_le` — which integers are written.
-/

namespace Redline.Numeral

open Redline.Text

/-- The number that a row of digits writes, to the base 10; what is no digit counts as zero. -/
def rowValue (row : List Char) : Nat := row.foldl (fun n c => n * 10 + (digit? c).getD 0) 0

/-- The first number that has too many digits. -/
def bound : Nat := 10 ^ maxDigits

variable {row : List Char} {n : Nat}

theorem rowValue_concat (row : List Char) (c : Char) :
    rowValue (row ++ [c]) = rowValue row * 10 + (digit? c).getD 0 := by
  simp only [rowValue, List.foldl_append, List.foldl_cons, List.foldl_nil]

/-! ## Reading -/

/-- Digits are read to the end, and nothing but their values counts. -/
theorem digitRun_row (h : ∀ c ∈ row, isDigit c = true) (free : Bool) (value count : Nat)
    (hfree : free = true ∨ count = 0) :
    digitRun 10 decimalDigit? free value count row =
      some ⟨row.foldl (fun n c => n * 10 + (digit? c).getD 0) value, count + row.length, []⟩ := by
  induction row generalizing free value count with
  | nil => rcases hfree with rfl | rfl <;> simp [digitRun]
  | cons c rest ih =>
    obtain ⟨d, hd⟩ := Option.isSome_iff_exists.1 (h c List.mem_cons_self)
    have hrest := ih (fun x hx => h x (List.mem_cons_of_mem _ hx)) true (value * 10 + d)
      (count + 1) (.inl rfl)
    rw [digitRun, decimalDigit?, hd]
    simp only [hrest, List.foldl_cons, hd, Option.getD_some, List.length_cons, Nat.add_assoc,
      Nat.add_comm 1]

/-- A row that is not too long is read as the number that it writes. -/
theorem integer?_of_isRow (h : IsRow row) (hshort : row.length ≤ maxDigits) :
    integer? row = .ok (rowValue row : Int) := by
  have hrun := digitRun_row h.digits false 0 0 (.inr rfl)
  have hlength : row.length ≠ 0 := by simpa using h.ne_nil
  rw [Nat.zero_add] at hrun
  simp only [integer?, h.core_eq, h.sign_eq, hrun, hlength, if_false, if_neg (Nat.not_lt.2 hshort)]
  rfl

/-- A row that is too long is not read. -/
theorem integer?_of_long (h : IsRow row) (hlong : maxDigits < row.length) :
    integer? row = .error (.tooLong row.length) := by
  rcases integer?_row h with ⟨hshort, _⟩ | ⟨_, herror⟩
  · omega
  · exact herror

/-! ## Writing -/

theorem digit?_digitChar (h : n < 10) : digit? n.digitChar = some n := by
  revert n
  decide

theorem isDigit_digitChar (h : n < 10) : isDigit n.digitChar = true := by
  rw [isDigit, digit?_digitChar h, Option.isSome_some]

/-- The digits of a number are digits, and they write it. -/
theorem rowValue_toDigits (n : Nat) :
    (∀ c ∈ Nat.toDigits 10 n, isDigit c = true) ∧ rowValue (Nat.toDigits 10 n) = n := by
  induction n using Nat.strong_induction_on with
  | h n ih =>
    by_cases hn : n < 10
    · have hvalue : rowValue [n.digitChar] = n := by simp [rowValue, digit?_digitChar hn]
      rw [Nat.toDigits_of_lt_base hn]
      exact ⟨by simpa using isDigit_digitChar hn, hvalue⟩
    · have hlast : n % 10 < 10 := Nat.mod_lt n (by omega)
      obtain ⟨hdigits, hvalue⟩ := ih (n / 10) (by omega)
      rw [Nat.toDigits_of_base_le (by omega) (by omega)]
      constructor
      · intro c hc
        rcases List.mem_append.1 hc with hfront | hend
        · exact hdigits c hfront
        · rw [List.mem_singleton.1 hend]
          exact isDigit_digitChar hlast
      · rw [rowValue_concat, hvalue, digit?_digitChar hlast, Option.getD_some]
        omega

/-- The numeral of a number is a row of digits. -/
theorem isRow_toString (n : Nat) : IsRow (toString n).toList := by
  rw [Nat.toString_eq_repr, Nat.toList_repr]
  exact ⟨Nat.toDigits_ne_nil, (rowValue_toDigits n).1⟩

/-- The numeral of a number writes that number. -/
theorem rowValue_toString (n : Nat) : rowValue (toString n).toList = n := by
  rw [Nat.toString_eq_repr, Nat.toList_repr]
  exact (rowValue_toDigits n).2

theorem length_toString_le_iff : (toString n).length ≤ maxDigits ↔ n < bound := by
  rw [Nat.toString_eq_repr, bound]
  exact Nat.length_repr_le_iff (by decide)

theorem write_of_lt {n : Int} (h : n.natAbs < bound) : write n = .ok (toString n) := by
  rw [write, ofInteger?, if_neg (Nat.not_lt.2 (length_toString_le_iff.2 h))]

theorem write_of_le {n : Int} (h : bound ≤ n.natAbs) : write n = .error .unwrittenInteger := by
  rw [write, ofInteger?,
    if_pos (Nat.not_le.1 fun hle => Nat.not_lt.2 h (length_toString_le_iff.1 hle))]

end Redline.Numeral
