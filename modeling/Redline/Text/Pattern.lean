import Redline.Text.Word
import Redline.Text.Lowercase

/-!
# Search patterns

A pattern is a row of atoms: a character, any one character, or any run of characters, as short as
possible.  Neither of the last two crosses a line end.  A pattern may be confined to whole words,
and it may take characters that differ only in case for the same.

## Main definitions

* `Pattern` — what is searched for.
* `Pattern.literal`, `Pattern.wildcard` — the pattern of a text as it stands, and the one in which
  `?` and `*` are wildcards.
* `Pattern.spans` — the matches in a text, from left to right and apart from one another.
* `Pattern.occurs` — whether there is a match at all.
-/

namespace Redline.Text

/-- One part of a pattern. -/
inductive Atom where
  /-- The character itself. -/
  | char (c : Char)
  /-- Any one character of the line. -/
  | any
  /-- Any characters of the line, as few as will do. -/
  | run
deriving DecidableEq, Repr

/-- A pattern to search for. -/
structure Pattern where
  atoms : List Atom
  matchCase : Bool
  wholeWord : Bool
deriving DecidableEq, Repr

/-- A match: the positions of its first character and of the one behind its last. -/
structure Span where
  start : Nat
  stop : Nat
deriving DecidableEq, Repr

namespace Pattern

/-- The pattern of a text that stands for itself. -/
def literal (text : List Char) (matchCase wholeWord : Bool) : Pattern :=
  ⟨text.map .char, matchCase, wholeWord⟩

/-- The atom of a character of a text with wildcards. -/
def wildcardAtom (c : Char) : Atom :=
  if c == '?' then .any else if c == '*' then .run else .char c

/-- The pattern of a text in which `?` stands for one character and `*` for a run of them. -/
def wildcard (text : List Char) (matchCase wholeWord : Bool) : Pattern :=
  ⟨text.map wildcardAtom, matchCase, wholeWord⟩

/-- Whether a character of the pattern stands for a character of the text. -/
def agrees (matchCase : Bool) (p c : Char) : Bool :=
  if matchCase then p == c else fold p == fold c

/-- What follows a part of a match: given the last character read, how many characters have been
read and the text behind them, the length of the whole match. -/
abbrev Continuation := Option Char → Nat → List Char → Option Nat

/-- Goes on at once, else reads one more character of the line and tries again. -/
def lazily (next : Continuation) : Continuation
  | before, count, [] => next before count []
  | before, count, c :: rest =>
    match next before count (c :: rest) with
    | some length => some length
    | none => if c == '\n' then none else lazily next (some c) (count + 1) rest

/-- Reads the atoms in order, then goes on. -/
def readAtoms (matchCase : Bool) (next : Continuation) : List Atom → Continuation
  | [] => next
  | .char p :: atoms => fun _ count text =>
    match text with
    | [] => none
    | c :: rest =>
      if agrees matchCase p c then readAtoms matchCase next atoms (some c) (count + 1) rest
      else none
  | .any :: atoms => fun _ count text =>
    match text with
    | [] => none
    | c :: rest =>
      if c == '\n' then none else readAtoms matchCase next atoms (some c) (count + 1) rest
  | .run :: atoms => lazily (readAtoms matchCase next atoms)

/-- The end of a match: it holds a character, and a word ends there if that is asked for. -/
def accept (wholeWord : Bool) : Continuation := fun before count rest =>
  if count == 0 || (wholeWord && !atBoundary before rest.head?) then none else some count

/-- The length of the match that begins at the front of a text, if there is one. -/
def matchLength (p : Pattern) (before : Option Char) (text : List Char) : Option Nat :=
  if p.wholeWord && !atBoundary before text.head? then none
  else readAtoms p.matchCase (accept p.wholeWord) p.atoms before 0 text

/-- The matches from position `at` on; the next `skip` characters belong to the last one. -/
def spansFrom (p : Pattern) (skip position : Nat) (before : Option Char) : List Char → List Span
  | [] => []
  | c :: rest =>
    match skip with
    | skip + 1 => spansFrom p skip (position + 1) (some c) rest
    | 0 =>
      match matchLength p before (c :: rest) with
      | some length =>
        ⟨position, position + length⟩ :: spansFrom p (length - 1) (position + 1) (some c) rest
      | none => spansFrom p 0 (position + 1) (some c) rest

/-- The matches in a text, from left to right; each begins at or behind the end of the one before
and holds at least one character. -/
def spans (p : Pattern) (text : List Char) : List Span := spansFrom p 0 0 none text

/-- Whether a text holds a match. -/
def occurs (p : Pattern) (text : List Char) : Bool := !(p.spans text).isEmpty

end Pattern

end Redline.Text
