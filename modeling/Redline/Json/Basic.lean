import Redline.Number.Binary64

/-!
# Structured values

The values that plans, rule packs and reports are made of.  Integers and 64-bit numbers are
different values, and an object keeps its fields in the order in which they were given.

## Main definitions

* `Json` — a value.
* `Json.get?` — the field of an object.
* `Json.isTruthy` — whether a value counts as given: nothing, false, zero and whatever is empty
  do not.
* `Json.number?` — the exact number that a value stands for.
-/

namespace Redline

/-- A structured value. -/
inductive Json where
  | null
  | bool (value : Bool)
  | int (value : Int)
  | float (value : Binary64)
  | str (value : String)
  | arr (items : List Json)
  | obj (fields : List (String × Json))
deriving Inhabited, Repr

namespace Json

/-- The fields of an object, in their order. -/
abbrev Fields := List (String × Json)

/-- The field of an object, if the value is an object and has it. -/
def get? (key : String) : Json → Option Json
  | .obj fields => fields.lookup key
  | _ => none

/-- The field of an object, nothing when there is none. -/
def getD (key : String) (value : Json) : Json := (value.get? key).getD .null

/-- Whether a value counts as given. -/
def isTruthy : Json → Bool
  | .null => false
  | .bool value => value
  | .int value => value != 0
  | .float value => !value.isZero
  | .str value => !value.isEmpty
  | .arr items => !items.isEmpty
  | .obj fields => !fields.isEmpty

/-- Whether a value is nothing. -/
def isNull : Json → Bool
  | .null => true
  | _ => false

/-- The exact number that a value stands for; truth counts as one and falsehood as zero. -/
def number? : Json → Option Rat
  | .bool value => some (if value then 1 else 0)
  | .int value => some value
  | .float value => value.toRat?
  | _ => none

/-- Whether a value is the given integer. -/
def isInt (n : Int) (value : Json) : Bool := value.number? == some (n : Rat)

/-- The fields of a value that is an object. -/
def fields? : Json → Option Fields
  | .obj fields => some fields
  | _ => none

/-- The string of a value that is one. -/
def str? : Json → Option String
  | .str value => some value
  | _ => none

/-- Sets a field: the value goes to the field's place if there is one, else to the end. -/
def Fields.put (key : String) (value : Json) : Fields → Fields
  | [] => [(key, value)]
  | (k, v) :: rest => if k == key then (k, value) :: rest else (k, v) :: Fields.put key value rest

/-- Adds a field unless it is there. -/
def Fields.putNew (key : String) (value : Json) (fields : Fields) : Fields :=
  if (fields.lookup key).isSome then fields else fields ++ [(key, value)]

/-- Sets several fields, one after the other. -/
def Fields.putAll (fields others : Fields) : Fields :=
  others.foldl (fun done (key, value) => done.put key value) fields

/-- The fields that hold something. -/
def Fields.present (fields : Fields) : Fields := fields.filter fun field => !field.2.isNull

/-- The value of an optional text. -/
def ofString? : Option String → Json
  | some text => .str text
  | none => .null

end Json

end Redline
