import Redline.Fault
import Redline.Json.Basic
import Redline.Number.Shortest
import Redline.Text.Quoted

/-!
# Values in messages

Inside a message a string stands as it is, and everything else as it would be written in a list:
strings between quotes, numbers by their shortest text, capitalised words for truth and for
nothing.  An integer with too many digits cannot be shown.

## Main definitions

* `Json.shown` — a value as a part of a list.
* `Json.display` — a value as a part of a sentence.
* `Json.typeName` — the name of a value's type.
-/

namespace Redline.Json

mutual

/-- A value as a part of a list or an object. -/
def shown : Json → Except Fault String
  | .null => .ok "None"
  | .bool value => .ok (if value then "True" else "False")
  | .int value => Numeral.write value
  | .float value => .ok value.text
  | .str value => .ok (Text.quotedString value)
  | .arr items => do .ok ("[" ++ (← shownItems items) ++ "]")
  | .obj fields => do .ok ("\x7b" ++ (← shownFields fields) ++ "\x7d")

/-- Items with commas between them. -/
def shownItems : List Json → Except Fault String
  | [] => .ok ""
  | [item] => shown item
  | item :: items => do .ok ((← shown item) ++ ", " ++ (← shownItems items))

/-- Fields with commas between them. -/
def shownFields : List (String × Json) → Except Fault String
  | [] => .ok ""
  | [(key, value)] => do .ok (Text.quotedString key ++ ": " ++ (← shown value))
  | (key, value) :: fields => do
    .ok (Text.quotedString key ++ ": " ++ (← shown value) ++ ", " ++ (← shownFields fields))

end

/-- A value as a part of a sentence. -/
def display : Json → Except Fault String
  | .str value => .ok value
  | value => shown value

/-- The name of a value's type in a message. -/
def typeName : Json → String
  | .null => "NoneType"
  | .bool _ => "bool"
  | .int _ => "int"
  | .float _ => "float"
  | .str _ => "str"
  | .arr _ => "list"
  | .obj _ => "dict"

end Redline.Json
