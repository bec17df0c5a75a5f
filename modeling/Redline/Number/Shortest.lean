import Redline.Number.Binary64

/-!
# The shortest decimal that reads back

A number is written with the fewest decimal digits that round to it; of several such decimals
with equally many digits the one nearest to the number is taken.

## Main definitions

* `Binary64.shortest` — the digits and the place of the first one.
* `Binary64.text` — positional notation from `0.0001` up to below `10 ^ 16`, else an exponent of
  two digits or more.
-/

namespace Redline.Binary64

/-- The decimal digits of a number, highest first. -/
def digitsOf (n : Nat) : List Char := Nat.toDigits 10 n

/-- How many places a fraction below one has to be moved to the left to reach one. -/
def placesToOne (num den : Nat) : Nat → Nat
  | 0 => 0
  | fuel + 1 => if den ≤ num then 0 else placesToOne (num * 10) den fuel + 1

/-- The place of the first digit of a positive fraction: the power of ten at or below it. -/
def leadingPlace (num den : Nat) : Int :=
  if den ≤ num then ((digitsOf (num / den)).length : Int) - 1
  else -(placesToOne num den (Nat.log2 den + 1) : Int)

/-- The two neighbours of a fraction on the decimal grid of the given place: the grid point at or
below it, and whether the one above it is strictly nearer, or as near and even. -/
def gridPoint (num den : Nat) (place : Int) : Nat × Bool :=
  let (num, den) :=
    if place < 0 then (num * powerOfTen place.natAbs, den)
    else (num, den * powerOfTen place.natAbs)
  let below := num / den
  let twice := 2 * (num % den)
  (below, den < twice || (twice == den && below % 2 == 1))

/-- The decimal with `count` digits that reads back as the given number, if there is one. -/
def decimalOf? (target : Binary64) (num den : Nat) (lead : Int) (count : Nat) :
    Option (Nat × Int) :=
  let place := lead + 1 - count
  let (below, upper) := gridPoint num den place
  let candidates := if upper then [below + 1, below] else [below, below + 1]
  (candidates.find? fun digits => ofScientific false digits place == target).map (·, place)

/-- The first count of digits, from `count` on, at which some decimal reads back. -/
def shortestFrom (target : Binary64) (num den : Nat) (lead : Int) : Nat → Nat → Nat × Int
  | 0, _ => (0, 0)
  | fuel + 1, count =>
    match decimalOf? target num den lead count with
    | some found => found
    | none => shortestFrom target num den lead fuel (count + 1)

/-- The shortest decimal that reads back as a positive number: its digits, without zeros at the
end, and the place of the first one.  Seventeen digits always suffice. -/
def shortest (mantissa : Nat) (exponent : Int) : List Char × Int :=
  let (num, den) := fraction mantissa exponent
  let (digits, place) :=
    shortestFrom (.finite false mantissa exponent) num den (leadingPlace num den) 17 1
  let all := digitsOf digits
  ((all.reverse.dropWhile (· == '0')).reverse, place + all.length - 1)

/-- The exponent of a written number: a sign and at least two digits. -/
def exponentText (n : Int) : List Char :=
  let digits := digitsOf n.natAbs
  'e' :: (if n < 0 then '-' else '+') :: (if digits.length < 2 then '0' :: digits else digits)

/-- Digits whose first one stands at the given place, as a decimal. -/
def positional (digits : List Char) (place : Int) : List Char :=
  if place < 0 then '0' :: '.' :: (List.replicate (place.natAbs - 1) '0' ++ digits)
  else
    let whole := place.toNat + 1
    let padded := digits ++ List.replicate (whole - digits.length) '0'
    padded.take whole ++ '.' :: (if digits.length ≤ whole then ['0'] else padded.drop whole)

/-- Digits with a point after the first one and an exponent. -/
def scientific (digits : List Char) (place : Int) : List Char :=
  (match digits with
    | first :: second :: rest => first :: '.' :: second :: rest
    | few => few) ++ exponentText place

/-- The names of what is no finite number. -/
structure Names where
  infinite : String
  undefined : String

/-- The text of a number, with the given names for what is not finite. -/
def textWith (names : Names) : Binary64 → String
  | .finite negative mantissa exponent =>
    let sign := if negative then "-" else ""
    if mantissa = 0 then sign ++ "0.0"
    else
      let (digits, place) := shortest mantissa exponent
      sign ++ String.ofList
        (if -4 ≤ place ∧ place < 16 then positional digits place else scientific digits place)
  | .infinite negative => (if negative then "-" else "") ++ names.infinite
  | .undefined => names.undefined

/-- The text of a number in a message. -/
def text (x : Binary64) : String := x.textWith ⟨"inf", "nan"⟩

end Redline.Binary64
