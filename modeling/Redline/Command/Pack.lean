import Redline.Command.Execute

/-!
# Packs in the plain notation

The program reads rule packs in the notation of structured values, in which a number with an exponent
is a text unless it has a point and the exponent a sign.  What has another notation is a text, and no
pack.

## Main definitions

* `Command.readPack` — the reader of the program.
-/

namespace Redline.Command

/-- Whether the exponent of a number is written with a sign. -/
def hasSignedExponent (t : Json.Token) : Bool :=
  match (t.text.dropWhile fun c => c != 'e' && c != 'E').drop 1 with
  | c :: _ => c == '+' || c == '-'
  | [] => false

/-- A number in a rule pack.  An exponent makes a number only behind a point and with a sign;
otherwise what is written there is a text. -/
def packNumber (t : Json.Token) : Except Json.Problem Json :=
  if t.exponent.isSome && (t.fraction.isEmpty || !hasSignedExponent t) then
    .ok (.str (String.ofList t.text))
  else Json.numberValue t

/-- Reads a rule pack: blanks hold nothing, and what is no value is a text. -/
def readPack : PackReader := fun text =>
  if Text.allBlank text.toList then .ok .null
  else
    match Json.parseWith packNumber text.toList with
    | .ok value => .ok value
    | .error .malformed => .ok (.str text)
    | .error (.longInteger digits) => .error (.longInteger digits)

end Redline.Command
