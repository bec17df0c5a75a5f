import Redline.Number.Numeral
import Redline.Text.Quoted

/-!
# Faults

What can go wrong beneath the level of plans: a host that refuses a query or an effect, a value
that cannot be read, an entry that is missing.  A fault is told by its cause; its wording and the
family it is reported under are functions of the cause.

## Main definitions

* `Fault` — the causes.
* `Fault.text` — the wording.
* `Fault.family`, `Fault.label` — the family of a fault and the name that reports give it.
* `Numeral.write` — the numeral of an integer, or the fault that there is none.
-/

namespace Redline

/-- The families that faults are reported under. -/
inductive Family where
  | host
  | value
  | key
  | runtime
  | type
  | attribute
  | index
  | overflow
  | encoding
  | query
deriving DecidableEq, Repr

/-- The name of a family in a report. -/
def Family.label : Family → String
  | .host => "HostError"
  | .value => "ValueError"
  | .key => "KeyError"
  | .runtime => "RuntimeError"
  | .type => "TypeError"
  | .attribute => "AttributeError"
  | .index => "IndexError"
  | .overflow => "OverflowError"
  | .encoding => "UnicodeDecodeError"
  | .query => "XPathEvalError"

/-- What went wrong. -/
inductive Fault where
  /-- The host refuses a query, in its own words. -/
  | refused (message : String)
  /-- An effect of the host fails while it is applied. -/
  | effectFailed (description : String) (cause : Fault)
  /-- A paragraph that is to be deleted has no place any more. -/
  | alreadyRemoved
  /-- The text at a match is no longer the text that was found. -/
  | staleMatch (start stop : Nat)
  /-- A paragraph that is to be wrapped does not stand directly in the body. -/
  | notTopLevel
  /-- A range that is to be cleared holds no paragraph. -/
  | clearsNothing
  /-- A range that is to be wrapped holds no paragraph. -/
  | wrapsNothing
  /-- A paragraph is looked for that the document does not hold. -/
  | notInDocument
  /-- A document with queued effects is to be saved. -/
  | unflushed (count : Nat)
  /-- A text is no integer to the given base. -/
  | notInteger (base : Nat) (text : String)
  /-- An integer has more digits than are converted. -/
  | longInteger (digits : Nat)
  /-- An integer takes more digits to write than are written. -/
  | unwrittenInteger
  /-- A text is no number. -/
  | notNumber (text : String)
  /-- A non-number has no whole part. -/
  | undefinedWhole
  /-- An infinity has no whole part. -/
  | infiniteWhole
  /-- An integer lies beyond the largest number. -/
  | hugeInteger
  /-- A text holds a character that no document can hold. -/
  | forbiddenCharacter
  /-- A channel of a color lies outside its range. -/
  | colorRange
  /-- A style that is not for paragraphs is given to one. -/
  | wrongStyle (kind : String)
  /-- A name breaks the query that is made of it. -/
  | brokenQuery
  /-- No style has the given name. -/
  | unknownStyle (name : String)
  /-- No alignment has the given name. -/
  | unknownAlignment (name : String)
  /-- No action has the given type. -/
  | unknownAction (type : String)
  /-- An entry is missing. -/
  | missing (key : String)
  /-- A query breaks down. -/
  | outage (message : String)
  /-- A value has the wrong type for its use. -/
  | wrongType (message : String)
  /-- A value lacks the part that is asked of it. -/
  | noMember (message : String)
  /-- A position lies outside a list. -/
  | outOfRange
  /-- A file holds no text. -/
  | undecodable
deriving DecidableEq, Repr

namespace Fault

/-- The family of a fault. -/
def family : Fault → Family
  | .refused _ | .effectFailed _ _ | .alreadyRemoved | .staleMatch _ _ | .notTopLevel
  | .clearsNothing | .wrapsNothing | .notInDocument | .unflushed _ => .host
  | .notInteger _ _ | .longInteger _ | .unwrittenInteger | .notNumber _ | .undefinedWhole
  | .forbiddenCharacter | .colorRange | .wrongStyle _ | .unknownAction _ => .value
  | .unknownStyle _ | .unknownAlignment _ | .missing _ => .key
  | .outage _ => .runtime
  | .wrongType _ => .type
  | .noMember _ => .attribute
  | .outOfRange => .index
  | .infiniteWhole | .hugeInteger => .overflow
  | .undecodable => .encoding
  | .brokenQuery => .query

/-- The name of a fault's family in a report. -/
def label (f : Fault) : String := f.family.label

/-- The wording of a fault. -/
def text : Fault → String
  | .refused message => message
  | .effectFailed description cause => s!"{description} failed: {cause.text}"
  | .alreadyRemoved => "paragraph already removed"
  | .staleMatch start stop => s!"text at {start}-{stop} changed since search"
  | .notTopLevel => "markers can only wrap top-level paragraphs"
  | .clearsNothing => "Cannot clear an empty range"
  | .wrapsNothing => "Cannot wrap an empty range in a marker"
  | .notInDocument => "Paragraph is no longer part of the document"
  | .unflushed count => s!"{count} effect(s) not flushed"
  | .notInteger base text =>
    s!"invalid literal for int() with base {base}: {Text.quotedString text}"
  | .longInteger digits =>
    s!"Exceeds the limit (4300 digits) for integer string conversion: value has {digits} digits" ++
      "; use sys.set_int_max_str_digits() to increase the limit"
  | .unwrittenInteger =>
    "Exceeds the limit (4300 digits) for integer string conversion" ++
      "; use sys.set_int_max_str_digits() to increase the limit"
  | .notNumber text => s!"could not convert string to float: {Text.quotedString text}"
  | .undefinedWhole => "cannot convert float NaN to integer"
  | .infiniteWhole => "cannot convert float infinity to integer"
  | .hugeInteger => "int too large to convert to float"
  | .forbiddenCharacter =>
    "All strings must be XML compatible: Unicode or ASCII, no NULL bytes or control characters"
  | .colorRange => "RGBColor() takes three integer values 0-255"
  | .wrongStyle kind => s!"assigned style is type {kind}, need type PARAGRAPH (1)"
  | .brokenQuery => "Invalid predicate"
  | .unknownStyle name => Text.quotedString s!"no style with name '{name}'"
  | .unknownAlignment name => Text.quotedString name
  | .unknownAction type => s!"Unknown action type: {type}"
  | .missing key => Text.quotedString key
  | .outage message => message
  | .wrongType message => message
  | .noMember message => message
  | .outOfRange => "list index out of range"
  | .undecodable => "the file holds no text"

/-- A fault as the cause of another one: its family and its wording. -/
def causeText (f : Fault) : String := s!"{f.label}: {f.text}"

end Fault

/-- The numeral of an integer; one that takes too many digits is not written. -/
def Numeral.write (n : Int) : Except Fault String :=
  match ofInteger? n with
  | some text => .ok text
  | none => .error .unwrittenInteger

end Redline
