import Redline.Json.Basic
import Redline.Number.Numeral

/-!
# Reading structured values

The reader takes one value with blanks around it.  Besides the usual notation it knows the three
numbers that are not finite.  A key that is given twice in one object keeps its first place and
takes its last value.

## Main definitions

* `Json.Problem` — why a text is refused.
* `Json.parse` — reads a text.
* `Json.parseWith` — reads a text with numbers of one's own.
-/

namespace Redline.Json

/-- Why a text is refused. -/
inductive Problem where
  /-- It is no value. -/
  | malformed
  /-- An integer has more digits than are converted. -/
  | longInteger (digits : Nat)
deriving DecidableEq, Repr

/-- The blanks between the parts of a value. -/
def isSpace (c : Char) : Bool := c == ' ' || c == '\t' || c == '\n' || c == '\r'

/-- A text without the blanks at its front. -/
def skipSpace (text : List Char) : List Char := text.dropWhile isSpace

/-- The value of one digit to the base 16. -/
def hexValue? (c : Char) : Option Nat :=
  if '0' ≤ c ∧ c ≤ '9' then some (c.toNat - 48)
  else if 'a' ≤ c ∧ c ≤ 'f' then some (c.toNat - 87)
  else if 'A' ≤ c ∧ c ≤ 'F' then some (c.toNat - 55)
  else none

/-- Four digits to the base 16. -/
def codeUnit? : List Char → Option (Nat × List Char)
  | a :: b :: c :: d :: rest => do
    let a ← hexValue? a
    let b ← hexValue? b
    let c ← hexValue? c
    let d ← hexValue? d
    some (((a * 16 + b) * 16 + c) * 16 + d, rest)
  | _ => none

/-- The character of a short escape. -/
def shortEscape? (c : Char) : Option Char :=
  if c == '"' || c == '\\' || c == '/' then some c
  else if c == 'b' then some (Char.ofNat 8)
  else if c == 'f' then some (Char.ofNat 12)
  else if c == 'n' then some '\n'
  else if c == 'r' then some '\r'
  else if c == 't' then some '\t'
  else none

/-- The character of an escape by number, and what follows it; two halves of a pair make one
character, and a half alone is replaced. -/
def numberedEscape? (text : List Char) : Option (Char × List Char) := do
  let (high, rest) ← codeUnit? text
  if 0xd800 ≤ high ∧ high < 0xdc00 then
    match rest with
    | '\\' :: 'u' :: more =>
      match codeUnit? more with
      | some (low, after) =>
        if 0xdc00 ≤ low ∧ low < 0xe000 then
          some (Char.ofNat (0x10000 + (high - 0xd800) * 0x400 + (low - 0xdc00)), after)
        else some ('\ufffd', rest)
      | none => some ('\ufffd', rest)
    | _ => some ('\ufffd', rest)
  else if 0xdc00 ≤ high ∧ high < 0xe000 then some ('\ufffd', rest)
  else some (Char.ofNat high, rest)

/-- The characters of a string up to its closing quote, last one first.  The fuel bounds the
number of characters; the length of the text is always enough. -/
def stringBody (fuel : Nat) (done text : List Char) : Option (List Char × List Char) :=
  match fuel, text with
  | _, '"' :: rest => some (done, rest)
  | fuel + 1, '\\' :: 'u' :: rest => do
    let (c, rest) ← numberedEscape? rest
    stringBody fuel (c :: done) rest
  | fuel + 1, '\\' :: c :: rest => do
    let c ← shortEscape? c
    stringBody fuel (c :: done) rest
  | fuel + 1, c :: rest =>
    if c == '\\' || c.toNat < 32 then none else stringBody fuel (c :: done) rest
  | _, _ => none

/-- A string whose opening quote has been read. -/
def string (fuel : Nat) (text : List Char) : Except Problem (String × List Char) :=
  match stringBody fuel [] text with
  | some (done, rest) => .ok (String.ofList done.reverse, rest)
  | none => .error .malformed

/-- The parts of a number as they are written. -/
structure Token where
  negative : Bool
  whole : List Char
  fraction : List Char
  exponent : Option (Bool × List Char)
  /-- The characters of the number. -/
  text : List Char

/-- The fraction of a number: a point and at least one digit. -/
def fractionPart : List Char → List Char × List Char
  | '.' :: rest =>
    let digits := rest.takeWhile Char.isDigit
    if digits.isEmpty then ([], '.' :: rest) else (digits, rest.dropWhile Char.isDigit)
  | text => ([], text)

/-- The exponent of a number: its mark, a sign if any, and at least one digit. -/
def exponentPart : List Char → Option (Bool × List Char) × List Char
  | c :: rest =>
    if c == 'e' || c == 'E' then
      let (negative, body) := Numeral.sign rest
      let digits := body.takeWhile Char.isDigit
      if digits.isEmpty then (none, c :: rest)
      else (some (negative, digits), body.dropWhile Char.isDigit)
    else (none, c :: rest)
  | [] => (none, [])

/-- The characters that numbers are written with. -/
def inNumber (c : Char) : Bool :=
  c.isDigit || c == '-' || c == '+' || c == '.' || c == 'e' || c == 'E'

/-- A number at the front of a text. -/
def token? (text : List Char) : Option (Token × List Char) :=
  let (negative, body) := match text with
    | '-' :: rest => (true, rest)
    | _ => (false, text)
  let whole := match body with
    | '0' :: _ => ['0']
    | _ => body.takeWhile Char.isDigit
  if whole.isEmpty then none
  else
    let (fraction, rest) := fractionPart (body.drop whole.length)
    let (exponent, rest) := exponentPart rest
    some (⟨negative, whole, fraction, exponent, text.takeWhile inNumber⟩, rest)

/-- The number that a row of digits writes. -/
def digitsValue (digits : List Char) : Nat :=
  digits.foldl (fun n c => n * 10 + (c.toNat - 48)) 0

/-- The value of a number: an integer when there is neither fraction nor exponent. -/
def numberValue (t : Token) : Except Problem Json :=
  if t.fraction.isEmpty && t.exponent.isNone then
    if t.whole.length > Numeral.maxDigits then .error (.longInteger t.whole.length)
    else
      let n : Int := digitsValue t.whole
      .ok (.int (if t.negative then -n else n))
  else
    let power : Int := match t.exponent with
      | some (negative, digits) =>
        let n : Int := digitsValue digits
        if negative then -n else n
      | none => 0
    .ok (.float (.ofScientific t.negative (digitsValue (t.whole ++ t.fraction))
      (power - t.fraction.length)))

/-- The words that are values. -/
def words : List (List Char × Json) := [
  ("null".toList, .null), ("true".toList, .bool true), ("false".toList, .bool false),
  ("NaN".toList, .float .undefined), ("Infinity".toList, .float (.infinite false)),
  ("-Infinity".toList, .float (.infinite true))]

/-- A word or a number. -/
def scalar (number : Token → Except Problem Json) (text : List Char) :
    Except Problem (Json × List Char) :=
  match words.find? fun (word, _) => word.isPrefixOf text with
  | some (word, value) => .ok (value, text.drop word.length)
  | none =>
    match token? text with
    | some (t, rest) => do
      let value ← number t
      .ok (value, rest)
    | none => .error .malformed

mutual

/-- A value at the front of a text.  The fuel bounds the number of values, items and fields; the
length of the text is always enough. -/
def value (number : Token → Except Problem Json) (fuel : Nat) (text : List Char) :
    Except Problem (Json × List Char) :=
  match fuel with
  | 0 => .error .malformed
  | fuel + 1 =>
    match text with
    | '"' :: rest => do
      let (s, rest) ← string fuel rest
      .ok (.str s, rest)
    | '[' :: rest =>
      match skipSpace rest with
      | ']' :: rest => .ok (.arr [], rest)
      | rest => items number fuel [] rest
    | '\x7b' :: rest =>
      match skipSpace rest with
      | '\x7d' :: rest => .ok (.obj [], rest)
      | rest => fields number fuel [] rest
    | text => scalar number text

/-- The items of an array, the ones read so far last first. -/
def items (number : Token → Except Problem Json) (fuel : Nat) (done : List Json)
    (text : List Char) : Except Problem (Json × List Char) :=
  match fuel with
  | 0 => .error .malformed
  | fuel + 1 => do
    let (item, rest) ← value number fuel text
    match skipSpace rest with
    | ']' :: rest => .ok (.arr (item :: done).reverse, rest)
    | ',' :: rest => items number fuel (item :: done) (skipSpace rest)
    | _ => .error .malformed

/-- The fields of an object, the ones read so far last first. -/
def fields (number : Token → Except Problem Json) (fuel : Nat) (done : Fields)
    (text : List Char) : Except Problem (Json × List Char) :=
  match fuel with
  | 0 => .error .malformed
  | fuel + 1 =>
    match text with
    | '"' :: rest => do
      let (key, rest) ← string fuel rest
      match skipSpace rest with
      | ':' :: rest => do
        let (v, rest) ← value number fuel (skipSpace rest)
        match skipSpace rest with
        | '\x7d' :: rest => .ok (.obj (Fields.putAll [] ((key, v) :: done).reverse), rest)
        | ',' :: rest => fields number fuel ((key, v) :: done) (skipSpace rest)
        | _ => .error .malformed
      | _ => .error .malformed
    | _ => .error .malformed

end

/-- Reads one value with blanks around it, numbers being read by the given rule. -/
def parseWith (number : Token → Except Problem Json) (text : List Char) : Except Problem Json := do
  let (v, rest) ← value number (2 * text.length + 2) (skipSpace text)
  if (skipSpace rest).isEmpty then .ok v else .error .malformed

/-- Reads one value with blanks around it. -/
def parse (text : List Char) : Except Problem Json := parseWith numberValue text

end Redline.Json
