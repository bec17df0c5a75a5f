import Redline.Number.Binary64
import Redline.Text.Blank
import Redline.Text.Digit

/-!
# Numerals

Numbers as people write them: blanks around them, a sign, digits of any script, and single
underscores between digits.

## Main definitions

* `Numeral.integer?` — reads an integer to the base 10, of at most 4300 digits.
* `Numeral.ofInteger?` — writes an integer to the base 10, with at most 4300 digits.
* `Numeral.hexadecimal?` — reads an integer to the base 16.
* `Numeral.decimal?` — reads a number with fraction and exponent, an infinity or a non-number.
-/

namespace Redline.Numeral

open Redline.Text

/-- Why a text is no numeral. -/
inductive Problem where
  /-- It does not have the form of a numeral. -/
  | malformed
  /-- It has more digits than are converted. -/
  | tooLong (digits : Nat)
deriving DecidableEq, Repr

/-- The longest integer that is read or written in decimal. -/
def maxDigits : Nat := 4300

/-- Blanks around a numeral; the separator controls are not among them. -/
def isMargin (c : Char) : Bool := isBlank c && !(0x1c ≤ c.toNat && c.toNat ≤ 0x1f)

/-- A text without the blanks around it. -/
def core (text : List Char) : List Char :=
  ((text.dropWhile isMargin).reverse.dropWhile isMargin).reverse

/-- Splits off a sign; true for a minus. -/
def sign : List Char → Bool × List Char
  | '-' :: rest => (true, rest)
  | '+' :: rest => (false, rest)
  | text => (false, text)

/-- The value of a digit to the base 10. -/
def decimalDigit? (c : Char) : Option Nat := digit? c

/-- The value of a digit to the base 16; the letters are the Latin ones. -/
def hexDigit? (c : Char) : Option Nat :=
  match digit? c with
  | some value => some value
  | none =>
    if 'a' ≤ c ∧ c ≤ 'f' then some (c.toNat - 87)
    else if 'A' ≤ c ∧ c ≤ 'F' then some (c.toNat - 55)
    else none

/-- Digits at the front of a text. -/
structure Run where
  /-- The number that the digits write. -/
  value : Nat
  /-- How many digits there are. -/
  count : Nat
  /-- What follows them. -/
  rest : List Char

/-- Reads digits that may be separated by single underscores.  `free` says whether an underscore
may come next; `none` when one stands where it must not. -/
def digitRun (base : Nat) (digit : Char → Option Nat) (free : Bool) (value count : Nat) :
    List Char → Option Run
  | [] => if free || count == 0 then some ⟨value, count, []⟩ else none
  | c :: rest =>
    match digit c with
    | some d => digitRun base digit true (value * base + d) (count + 1) rest
    | none =>
      if c == '_' then
        if free then digitRun base digit false value count rest else none
      else if free || count == 0 then some ⟨value, count, c :: rest⟩ else none

/-- An integer to the base 10.  The length of the digits is judged before what follows them. -/
def integer? (text : List Char) : Except Problem Int :=
  let (negative, body) := sign (core text)
  match digitRun 10 decimalDigit? false 0 0 body with
  | none => .error .malformed
  | some run =>
    if run.count = 0 then .error .malformed
    else if run.count > maxDigits then .error (.tooLong run.count)
    else if run.rest.isEmpty then .ok (if negative then -(run.value : Int) else run.value)
    else .error .malformed

/-- The numeral of an integer to the base 10, if it has no more digits than are converted. -/
def ofInteger? (n : Int) : Option String :=
  if (toString n.natAbs).length > maxDigits then none else some (toString n)

/-- Drops the mark of the base 16 and one underscore after it. -/
def dropBaseMark : List Char → List Char
  | '0' :: 'x' :: '_' :: rest => rest
  | '0' :: 'X' :: '_' :: rest => rest
  | '0' :: 'x' :: rest => rest
  | '0' :: 'X' :: rest => rest
  | text => text

/-- An integer to the base 16. -/
def hexadecimal? (text : List Char) : Option Int := do
  let (negative, body) := sign (core text)
  let run ← digitRun 16 hexDigit? false 0 0 (dropBaseMark body)
  if run.count = 0 || !run.rest.isEmpty then none
  else some (if negative then -(run.value : Int) else run.value)

/-- Digits that stand at the given place of a decimal; none is allowed too. -/
def plainRun (text : List Char) : Option Run :=
  match text with
  | '_' :: _ => none
  | _ => digitRun 10 decimalDigit? false 0 0 text

/-- The exponent of a decimal, zero when there is none. -/
def exponent? : List Char → Option Int
  | [] => some 0
  | c :: rest =>
    if c == 'e' || c == 'E' then do
      let (negative, body) := sign rest
      let run ← plainRun body
      if run.count = 0 || !run.rest.isEmpty then none
      else some (if negative then -(run.value : Int) else run.value)
    else none

/-- A decimal without sign. -/
def unsigned? (negative : Bool) (text : List Char) : Option Binary64 := do
  let whole ← plainRun text
  match whole.rest with
  | '.' :: rest => do
    let part ← plainRun rest
    if whole.count + part.count = 0 then none
    else
      let power ← exponent? part.rest
      some (.ofScientific negative (whole.value * Binary64.powerOfTen part.count + part.value)
        (power - part.count))
  | rest => do
    if whole.count = 0 then none
    else
      let power ← exponent? rest
      some (.ofScientific negative whole.value power)

/-- A number with fraction and exponent, an infinity or a non-number. -/
def decimal? (text : List Char) : Option Binary64 :=
  let (negative, body) := sign (core text)
  let name := body.map Char.toLower
  if name == "inf".toList || name == "infinity".toList then some (.infinite negative)
  else if name == "nan".toList then some .undefined
  else unsigned? negative body

end Redline.Numeral
