/-!
# Texts in a document

What becomes of a text that is written into a run.  It goes in piece by piece, split at tabs and
line ends.  Either kind of line end becomes a line break, which reads back as a line feed.  A piece
with a character that no document can hold is refused: what came before it has been written by
then, and nothing more is.

## Main definitions

* `isForbidden` — whether no document can hold a character.
* `isWritable` — whether a text can be written as a whole.
* `written` — the part of a text that is written, as it reads back.
* `lines` — a text split at its line ends.
-/

namespace Redline.Text

/-- Controls other than tab and line ends, and the two code points that are no characters. -/
def isForbidden (c : Char) : Bool :=
  c.toNat ≤ 0x08 || c.toNat == 0x0b || c.toNat == 0x0c ||
    (0x0e ≤ c.toNat && c.toNat ≤ 0x1f) || c.toNat == 0xfffe || c.toNat == 0xffff

/-- Whether every character of a text can stand in a document. -/
def isWritable (text : List Char) : Bool := text.all (!isForbidden ·)

/-- Whether a text is split at a character when it is written. -/
def endsPiece (c : Char) : Bool := c == '\t' || c == '\r' || c == '\n'

/-- A written character as it reads back. -/
def readBack (c : Char) : Char := if c == '\r' then '\n' else c

/-- The pieces of a text that come before the first forbidden character. -/
def soundPieces (text : List Char) : List Char :=
  ((text.takeWhile (!isForbidden ·)).reverse.dropWhile (!endsPiece ·)).reverse

/-- The part of a text that is written, as it reads back. -/
def written (text : List Char) : List Char :=
  (if isWritable text then text else soundPieces text).map readBack

/-- Collects the lines of a text; `line` is the open line, last character first. -/
def linesFrom (line : List Char) : List Char → List (List Char)
  | [] => [line.reverse]
  | '\r' :: '\n' :: rest => line.reverse :: linesFrom [] rest
  | '\r' :: rest => line.reverse :: linesFrom [] rest
  | '\n' :: rest => line.reverse :: linesFrom [] rest
  | c :: rest => linesFrom (c :: line) rest

/-- A text split at its line ends: a return with its feed, a return or a feed.  There is always
at least one line. -/
def lines (text : List Char) : List (List Char) := linesFrom [] text

theorem written_of_isWritable {text : List Char} (h : isWritable text = true) :
    written text = text.map readBack := by
  simp [written, h]

end Redline.Text
