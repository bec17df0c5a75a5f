import Redline.Json.Basic
import Redline.Number.Shortest

/-!
# Writing structured values

## Main definitions

* `Json.Layout` — whether a value is written over several lines, and whether characters beyond
  the first 128 are escaped.
* `Json.print` — the text of a value.
-/

namespace Redline.Json

/-- How a value is laid out. -/
structure Layout where
  /-- One item or field a line, indented by two spaces for each level. -/
  indented : Bool
  /-- Whether characters beyond the first 128 are escaped. -/
  ascii : Bool

/-- All on one line, as it is. -/
def Layout.compact : Layout := ⟨false, false⟩

/-- One item or field a line, characters as they are. -/
def Layout.pretty : Layout := ⟨true, false⟩

/-- One item or field a line, everything beyond the first 128 characters escaped. -/
def Layout.prettyAscii : Layout := ⟨true, true⟩

/-- An escape by number: four digits, and two escapes for a character beyond the first plane. -/
def escapeByNumber (n : Nat) : List Char :=
  if n < 0x10000 then '\\' :: 'u' :: Binary64.hexDigits 4 n
  else
    let m := n - 0x10000
    '\\' :: 'u' :: Binary64.hexDigits 4 (0xd800 + m / 0x400) ++
      '\\' :: 'u' :: Binary64.hexDigits 4 (0xdc00 + m % 0x400)

/-- A character of a string. -/
def printChar (ascii : Bool) (c : Char) : List Char :=
  if c == '"' || c == '\\' then ['\\', c]
  else if c == '\n' then ['\\', 'n']
  else if c == '\r' then ['\\', 'r']
  else if c == '\t' then ['\\', 't']
  else if c.toNat == 8 then ['\\', 'b']
  else if c.toNat == 12 then ['\\', 'f']
  else if c.toNat < 32 || (ascii && 127 ≤ c.toNat) then escapeByNumber c.toNat
  else [c]

/-- A string between its quotes. -/
def printString (ascii : Bool) (text : String) : String :=
  String.ofList ('"' :: (text.toList.flatMap (printChar ascii) ++ ['"']))

/-- The text of a number, with the names that stand for what is not finite. -/
def printFloat (value : Binary64) : String := value.textWith ⟨"Infinity", "NaN"⟩

/-- The beginning of a line at the given depth. -/
def newline (layout : Layout) (depth : Nat) : String :=
  if layout.indented then String.ofList ('\n' :: List.replicate (2 * depth) ' ') else ""

/-- What stands between two items. -/
def separator (layout : Layout) (depth : Nat) : String :=
  if layout.indented then "," ++ newline layout depth else ", "

mutual

/-- The text of a value at the given depth. -/
def printAt (layout : Layout) (depth : Nat) : Json → String
  | .null => "null"
  | .bool value => if value then "true" else "false"
  | .int value => toString value
  | .float value => printFloat value
  | .str value => printString layout.ascii value
  | .arr [] => "[]"
  | .arr (item :: items) =>
    "[" ++ newline layout (depth + 1) ++ printAt layout (depth + 1) item ++
      printItems layout (depth + 1) items ++ newline layout depth ++ "]"
  | .obj [] => "\x7b\x7d"
  | .obj ((key, value) :: fields) =>
    "\x7b" ++ newline layout (depth + 1) ++ printString layout.ascii key ++ ": " ++
      printAt layout (depth + 1) value ++ printFields layout (depth + 1) fields ++
      newline layout depth ++ "\x7d"

/-- The text of the items behind the first one. -/
def printItems (layout : Layout) (depth : Nat) : List Json → String
  | [] => ""
  | item :: items =>
    separator layout depth ++ printAt layout depth item ++ printItems layout depth items

/-- The text of the fields behind the first one. -/
def printFields (layout : Layout) (depth : Nat) : List (String × Json) → String
  | [] => ""
  | (key, value) :: fields =>
    separator layout depth ++ printString layout.ascii key ++ ": " ++
      printAt layout depth value ++ printFields layout depth fields

end

/-- The text of a value. -/
def print (layout : Layout) (value : Json) : String := printAt layout 0 value

end Redline.Json
