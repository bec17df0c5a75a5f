import Redline.Text.Printable
import Redline.Number.Binary64

/-!
# Quoted texts

Messages show a text between quotes: double ones when it holds a single quote and no double one,
else single ones.  The backslash and the quote itself are escaped, line ends and tabs have names,
and every other character that is not printable is shown by its number.

## Main definitions

* `quoted` — a text between quotes.
-/

namespace Redline.Text

/-- A character that is not printable, by its number: two, four or eight digits. -/
def numbered (c : Char) : List Char :=
  if c.toNat < 0x100 then '\\' :: 'x' :: Binary64.hexDigits 2 c.toNat
  else if c.toNat < 0x10000 then '\\' :: 'u' :: Binary64.hexDigits 4 c.toNat
  else '\\' :: 'U' :: Binary64.hexDigits 8 c.toNat

/-- A character between the given quotes. -/
def quotedChar (quote c : Char) : List Char :=
  if c == quote || c == '\\' then ['\\', c]
  else if c == '\n' then ['\\', 'n']
  else if c == '\r' then ['\\', 'r']
  else if c == '\t' then ['\\', 't']
  else if isPrintable c then [c]
  else numbered c

/-- The quote that a text is put between. -/
def quoteFor (text : List Char) : Char :=
  if text.contains '\'' && !text.contains '"' then '"' else '\''

/-- A text between quotes. -/
def quoted (text : List Char) : List Char :=
  let quote := quoteFor text
  quote :: (text.flatMap (quotedChar quote) ++ [quote])

/-- A string between quotes. -/
def quotedString (text : String) : String := String.ofList (quoted text.toList)

end Redline.Text
