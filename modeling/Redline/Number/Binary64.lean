/-!
# Binary floating point, exactly

Numbers of 64 bits as exact values: a sign, a mantissa and a power of two.  Every operation is
the exact one on fractions followed by one rounding to the nearest number, ties to the even
mantissa.

## Main definitions

* `Binary64` — a number, an infinity or no number at all.
* `Binary64.round` — the number nearest to a fraction.
* `Binary64.toRat?` — the exact value of a number.
* `Binary64.bits` — the 64 bits that store it.
-/

namespace Redline

/-- A 64-bit number.  A finite one is `± mantissa · 2 ^ exponent`; the mantissa has 53 binary
digits unless the exponent is the least one, `-1074`. -/
inductive Binary64 where
  | finite (negative : Bool) (mantissa : Nat) (exponent : Int)
  | infinite (negative : Bool)
  | undefined
deriving DecidableEq, Repr, Inhabited

namespace Binary64

/-- A power of two. -/
def powerOfTwo (exponent : Nat) : Nat := Nat.pow 2 exponent

/-- A power of ten. -/
def powerOfTen (exponent : Nat) : Nat := Nat.pow 10 exponent

/-- A quotient rounded to the nearest natural number, a half to the even one. -/
def divideToEven (num den : Nat) : Nat :=
  let quotient := num / den
  let twice := 2 * (num % den)
  if twice < den then quotient
  else if den < twice then quotient + 1
  else quotient + quotient % 2

/-- The quotient of a fraction by a power of two, rounded to the nearest natural number. -/
def scaled (num den : Nat) (exponent : Int) : Nat :=
  if exponent < 0 then divideToEven (num * powerOfTwo exponent.natAbs) den
  else divideToEven num (den * powerOfTwo exponent.natAbs)

/-- Whether a fraction is below a power of two. -/
def belowPower (num den : Nat) (exponent : Int) : Bool :=
  if exponent < 0 then num * powerOfTwo exponent.natAbs < den
  else num < den * powerOfTwo exponent.natAbs

/-- The exponent at which a positive fraction has a mantissa of 53 binary digits, but never less
than the least one. -/
def exponentFor (num den : Nat) : Int :=
  let guess : Int := (Nat.log2 num : Int) - Nat.log2 den - 52
  let exact := if belowPower num den (guess + 52) then guess - 1 else guess
  max exact (-1074)

/-- The number nearest to `± num / den`, a tie to the even mantissa; beyond the largest number
lies infinity. -/
def round (negative : Bool) (num den : Nat) : Binary64 :=
  if num = 0 then .finite negative 0 (-1074)
  else
    let exponent := exponentFor num den
    let mantissa := scaled num den exponent
    let (mantissa, exponent) :=
      if mantissa = powerOfTwo 53 then (powerOfTwo 52, exponent + 1) else (mantissa, exponent)
    if exponent > 971 then .infinite negative else .finite negative mantissa exponent

/-- The number nearest to `± digits · 10 ^ exponent`.  Values far outside the range are told by
their size alone, so that no huge power is ever computed. -/
def ofScientific (negative : Bool) (digits : Nat) (exponent : Int) : Binary64 :=
  if digits = 0 then .finite negative 0 (-1074)
  else if exponent > 400 then .infinite negative
  else if exponent + Nat.log2 digits < -400 then .finite negative 0 (-1074)
  else if exponent < 0 then round negative digits (powerOfTen exponent.natAbs)
  else round negative (digits * powerOfTen exponent.natAbs) 1

/-- The number nearest to an integer. -/
def ofInt (n : Int) : Binary64 := round (n < 0) n.natAbs 1

/-- The absolute value of a finite number as numerator and denominator. -/
def fraction (mantissa : Nat) (exponent : Int) : Nat × Nat :=
  if exponent < 0 then (mantissa, powerOfTwo exponent.natAbs)
  else (mantissa * powerOfTwo exponent.natAbs, 1)

/-- The exact value of a number; infinities have none. -/
def toRat? : Binary64 → Option Rat
  | .finite negative mantissa exponent =>
    let (num, den) := fraction mantissa exponent
    some (mkRat (if negative then -(num : Int) else num) den)
  | _ => none

/-- The number nearest to a rational one. -/
def ofRat (r : Rat) : Binary64 := round (r.num < 0) r.num.natAbs r.den

/-- The 64 bits: sign, eleven bits of exponent, 52 bits of mantissa. -/
def bits : Binary64 → Nat
  | .finite negative mantissa exponent =>
    let sign := if negative then powerOfTwo 63 else 0
    if mantissa < powerOfTwo 52 then sign + mantissa
    else sign + (exponent + 1075).toNat * powerOfTwo 52 + (mantissa - powerOfTwo 52)
  | .infinite negative => (if negative then powerOfTwo 63 else 0) + 2047 * powerOfTwo 52
  | .undefined => 2047 * powerOfTwo 52 + powerOfTwo 51

/-- One digit to the base 16. -/
def hexDigit (n : Nat) : Char := if n < 10 then Char.ofNat (48 + n) else Char.ofNat (87 + n)

/-- The lowest `width` digits of a number to the base 16, highest first. -/
def hexDigits : Nat → Nat → List Char
  | 0, _ => []
  | width + 1, n => hexDigits width (n / 16) ++ [hexDigit (n % 16)]

/-- The bits as sixteen digits to the base 16. -/
def hex (x : Binary64) : String := String.ofList (hexDigits 16 x.bits)

/-- The whole part of a finite number, toward zero. -/
def truncate? : Binary64 → Option Int
  | .finite negative mantissa exponent =>
    let (num, den) := fraction mantissa exponent
    some (if negative then -((num / den : Nat) : Int) else (num / den : Nat))
  | _ => none

/-- Whether a number is zero, of either sign. -/
def isZero : Binary64 → Bool
  | .finite _ mantissa _ => mantissa == 0
  | _ => false

end Binary64

end Redline
