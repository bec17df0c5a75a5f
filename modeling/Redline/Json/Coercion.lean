import Redline.Fault
import Redline.Json.Basic
import Redline.Number.Numeral

/-!
# Values read as numbers

Rules and snapshots come from outside, where a number may be given as a text, and a whole number
with a fraction.

## Main definitions

* `Json.toInteger` — a value as an integer: fractions are cut off toward zero.
* `Json.toNumber` — a value as a 64-bit number.
* `Json.member` — the field of a value that has to be an object.
-/

namespace Redline.Json

/-- A value as an integer. -/
def toInteger : Json → Except Fault Int
  | .int n => .ok n
  | .bool b => .ok (if b then 1 else 0)
  | .float (.infinite _) => .error .infiniteWhole
  | .float .undefined => .error .undefinedWhole
  | .float (.finite negative mantissa exponent) =>
    .ok (((Binary64.finite negative mantissa exponent).truncate?).getD 0)
  | .str text =>
    match Numeral.integer? text.toList with
    | .ok n => .ok n
    | .error .malformed => .error (.notInteger 10 text)
    | .error (.tooLong digits) => .error (.longInteger digits)
  | _ => .error (.wrongType "a whole number is expected")

/-- A value as a 64-bit number. -/
def toNumber : Json → Except Fault Binary64
  | .float x => .ok x
  | .int n =>
    match Binary64.ofInt n with
    | .infinite _ => .error .hugeInteger
    | x => .ok x
  | .bool b => .ok (.ofInt (if b then 1 else 0))
  | .str text =>
    match Numeral.decimal? text.toList with
    | some x => .ok x
    | none => .error (.notNumber text)
  | _ => .error (.wrongType "a number is expected")

/-- The fields of a value that has to be an object. -/
def fieldsOf : Json → Except Fault Fields
  | .obj fields => .ok fields
  | _ => .error (.noMember "an object is expected")

/-- The field of a value that has to be an object. -/
def member (key : String) (value : Json) : Except Fault (Option Json) := do
  let fields ← value.fieldsOf
  .ok (fields.lookup key)

/-- A field that has to be there. -/
def required (key : String) (value : Json) : Except Fault Json := do
  match value with
  | .obj fields =>
    match fields.lookup key with
    | some v => .ok v
    | none => .error (.missing key)
  | _ => .error (.wrongType "an object is expected")

/-- The items that a value goes through: those of a list, the keys of an object, the characters
of a text. -/
def elements : Json → Except Fault (List Json)
  | .arr items => .ok items
  | .obj fields => .ok (fields.map fun (key, _) => .str key)
  | .str text => .ok (text.toList.map fun c => .str (String.singleton c))
  | _ => .error (.wrongType "a list is expected")

end Redline.Json
