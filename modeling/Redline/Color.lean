import Redline.Fault
import Redline.Number.Numeral
import Redline.Text.Lowercase
import Redline.Text.Uppercase

/-!
# Colors

A color is written with three or six digits to the base 16 after a number sign, as three channels
with or without an opacity, or by a name from the rules.

## Main definitions

* `Color.Notation` — the three ways of writing a color.
* `Color.read` — how a text writes a color.
* `Color.isValid` — whether a text is a color under given names.
* `Color.rgb?` — the six digits of a color.
-/

namespace Redline.Color

open Redline.Text

/-- Named colors: a lower-case name and its digits, in the order of the rules. -/
abbrev Names := List (String × String)

/-- How a color is written. -/
inductive Notation where
  /-- Three or six digits to the base 16. -/
  | digits (digits : List Char)
  /-- The digits of the three channels, of any script; an opacity is not kept. -/
  | channels (red green blue : List Char)
  /-- A name, in lower case. -/
  | name (name : String)
deriving DecidableEq, Repr

/-- Whether a character is a Latin digit to the base 16. -/
def isHexDigit (c : Char) : Bool :=
  c.isDigit || ('a' ≤ c && c ≤ 'f') || ('A' ≤ c && c ≤ 'F')

/-- Whether this is the end of a color: nothing, or one last line feed. -/
def isEnd (text : List Char) : Bool := text == [] || text == ['\n']

/-- The digits of a color with a number sign. -/
def hexDigits? : List Char → Option (List Char)
  | '#' :: body =>
    let digits := body.takeWhile isHexDigit
    if (digits.length == 3 || digits.length == 6) && isEnd (body.drop digits.length) then
      some digits
    else none
  | _ => none

/-- One channel with blanks around it, and what follows it. -/
def channel? (text : List Char) : Option (List Char × List Char) :=
  let body := text.dropWhile isBlank
  let digits := body.takeWhile isDigit
  if digits.isEmpty then none
  else some (digits, (body.dropWhile isDigit).dropWhile isBlank)

/-- What follows a comma. -/
def comma? : List Char → Option (List Char)
  | ',' :: rest => some rest
  | _ => none

/-- What follows the mark of a color by channels. -/
def afterMark? : List Char → Option (List Char)
  | 'r' :: 'g' :: 'b' :: 'a' :: '(' :: body => some body
  | 'r' :: 'g' :: 'b' :: '(' :: body => some body
  | _ => none

/-- What follows an opacity with blanks around it. -/
def afterOpacity? (text : List Char) : Option (List Char) :=
  let body := text.dropWhile isBlank
  let isPart c := isDigit c || c == '.'
  if (body.takeWhile isPart).isEmpty then none
  else some ((body.dropWhile isPart).dropWhile isBlank)

/-- Whether a color by channels ends here: a closing bracket, with or without an opacity. -/
def closes : List Char → Bool
  | ')' :: rest => isEnd rest
  | ',' :: rest =>
    match afterOpacity? rest with
    | some (')' :: rest) => isEnd rest
    | _ => false
  | _ => false

/-- The three channels of a color. -/
def channels? (text : List Char) : Option (List Char × List Char × List Char) := do
  let body ← afterMark? text
  let (red, rest) ← channel? body
  let rest ← comma? rest
  let (green, rest) ← channel? rest
  let rest ← comma? rest
  let (blue, rest) ← channel? rest
  if closes rest then some (red, green, blue) else none

/-- How a text writes a color; what is written in neither of the first two ways is a name. -/
def read (text : String) : Notation :=
  match hexDigits? text.toList with
  | some digits => .digits digits
  | none =>
    match channels? text.toList with
    | some (red, green, blue) => .channels red green blue
    | none => .name (String.ofList (lower text.toList))

/-- Whether a text is a color under the given names. -/
def isValid (names : Names) (text : String) : Bool :=
  match read text with
  | .digits _ => true
  | .channels _ _ _ => true
  | .name name => (names.lookup name).isSome

/-- The value of a channel, at most 255. -/
def channelValue (digits : List Char) : Except Fault Nat :=
  match Numeral.integer? digits with
  | .ok n => .ok (min n.toNat 255)
  | .error (.tooLong count) => .error (.longInteger count)
  | .error .malformed => .error (.notInteger 10 (String.ofList digits))

/-- A channel as two capital digits to the base 16. -/
def channelDigits (n : Nat) : List Char := (Binary64.hexDigits 2 n).map Char.toUpper

/-- Digits with every one of them twice when there are three. -/
def sixDigits (digits : List Char) : List Char :=
  if digits.length == 3 then digits.flatMap fun c => [c, c] else digits

/-- A text without the number signs at its front. -/
def withoutSigns (text : List Char) : List Char := text.dropWhile (· == '#')

/-- The six capital digits of a color; a name that stands for nothing has none. -/
def rgb? (names : Names) (text : String) : Except Fault (Option String) :=
  match read text with
  | .digits digits => .ok (some (String.ofList (upper (sixDigits digits))))
  | .channels red green blue => do
    let red ← channelValue red
    let green ← channelValue green
    let blue ← channelValue blue
    .ok (some (String.ofList (channelDigits red ++ channelDigits green ++ channelDigits blue)))
  | .name name =>
    match names.lookup name with
    | some named =>
      if named.isEmpty then .ok none
      else .ok (some (String.ofList (upper (withoutSigns named.toList))))
    | none => .ok none

end Redline.Color
