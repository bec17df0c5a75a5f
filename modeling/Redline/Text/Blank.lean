import Redline.Text.Ranges

/-!
# Blanks

Spaces of every width, line ends and the four separator controls are blank; characters of no
width are not.

## Main definitions

* `isBlank` — whether a character is blank.
* `strip` — a text without the blanks at its two ends.
* `fields` — the pieces of a text between blanks.
-/

namespace Redline.Text

/-- The blank characters. -/
def blankRanges : Ranges := [
  (0x9, 0xd), (0x1c, 0x20), (0x85, 0x85), (0xa0, 0xa0), (0x1680, 0x1680), (0x2000, 0x200a),
  (0x2028, 0x2029), (0x202f, 0x202f), (0x205f, 0x205f), (0x3000, 0x3000)]

/-- Whether a character is blank. -/
def isBlank (c : Char) : Bool := blankRanges.holds c.toNat

/-- Whether a text holds nothing but blanks. -/
def allBlank (text : List Char) : Bool := text.all isBlank

/-- A text without the blanks at its two ends. -/
def strip (text : List Char) : List Char :=
  ((text.dropWhile isBlank).reverse.dropWhile isBlank).reverse

/-- The string of a text without the blanks at its two ends. -/
def trimmed (text : String) : String := String.ofList (strip text.toList)

/-- Collects the pieces between blanks; `piece` is the open piece, last character first. -/
def fieldsFrom (piece : List Char) : List Char → List (List Char)
  | [] => if piece.isEmpty then [] else [piece.reverse]
  | c :: rest =>
    if !isBlank c then fieldsFrom (c :: piece) rest
    else if piece.isEmpty then fieldsFrom [] rest
    else piece.reverse :: fieldsFrom [] rest

/-- The pieces of a text between blanks, none of them empty. -/
def fields (text : List Char) : List (List Char) := fieldsFrom [] text

end Redline.Text
