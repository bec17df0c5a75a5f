import Redline.Text.Digit

/-!
# Command lines

A command line is a row of operands and options.  An option has a long name behind two dashes, which
may be shortened as long as it stays clear which one is meant, and perhaps a letter behind one dash;
options with a letter take no value, and their letters may be written together.  A value follows its
option as an argument of its own, or behind an equals sign.  Behind two dashes alone everything is
an operand.

An argument that looks like an option but is none is an operand if it is a number below zero or
holds a blank.

## Main definitions

* `Spec` — an option that a command takes.
* `CommandLine.classify` — what an argument is.
* `CommandLine.read` — the options and operands of a command line.
* `CommandLine.readLeading` — those before the first operand.
-/

namespace Redline.CommandLine

open Redline.Text

/-- What an option asks for. -/
inductive Use where
  /-- An explanation of the command. -/
  | help
  | flag
  | value
deriving DecidableEq, Repr

/-- An option that a command takes. -/
structure Spec where
  name : String
  /-- The letter of the option. -/
  letter : Option Char := none
  use : Use
deriving DecidableEq, Repr

/-- Why a command line is refused. -/
inductive Problem where
  /-- It asks for an explanation only. -/
  | helpWanted
  /-- A shortened name fits more than one option. -/
  | ambiguous (argument : String)
  /-- An argument has no use. -/
  | unexpected (argument : String)
  /-- An option lacks its value. -/
  | valueMissing (option : String)
  /-- An option is given a value that it does not take. -/
  | valueUnwanted (option : String)
  /-- There are too few operands. -/
  | operandMissing
  /-- No command is named. -/
  | commandMissing
  /-- There is no command of that name. -/
  | commandUnknown (name : String)
deriving DecidableEq, Repr

/-- What an argument is. -/
inductive Token where
  | operand (text : String)
  /-- Two dashes alone. -/
  | divider
  /-- An option by its long name, with the value that is attached to it. -/
  | option (text : String) (spec : Spec) (attached : Option String)
  /-- An option by its letter, and the characters behind that. -/
  | letters (text : String) (spec : Spec) (others : List Char)
  /-- It looks like an option but is none. -/
  | unknown (text : String)
deriving DecidableEq, Repr

/-- The argument of a token. -/
def Token.text : Token → String
  | .operand text => text
  | .divider => "--"
  | .option text _ _ => text
  | .letters text _ _ => text
  | .unknown text => text

/-! ## Classification -/

/-- Whether the characters behind a dash make a number. -/
def isNumber (body : List Char) : Bool :=
  let body := if body.getLast? == some '\n' then body.dropLast else body
  let rest := body.dropWhile isDigit
  if rest.isEmpty then !body.isEmpty
  else match rest with
    | '.' :: fraction => !fraction.isEmpty && fraction.all isDigit
    | _ => false

/-- An argument that begins like an option but is none. -/
def noOption (text : String) : Token :=
  let isNegative := match text.toList with
    | '-' :: body => isNumber body
    | _ => false
  if isNegative || text.toList.contains ' ' then .operand text else .unknown text

/-- A text up to its first equals sign, and what is behind that. -/
def splitValue (body : List Char) : List Char × Option String :=
  let name := body.takeWhile (· != '=')
  match body.dropWhile (· != '=') with
  | [] => (name, none)
  | _ :: value => (name, some (String.ofList value))

/-- What an argument with a long name is. -/
def classifyLong (specs : List Spec) (text : String) (body : List Char) : Except Problem Token :=
  let (name, attached) := splitValue body
  match specs.find? fun s => s.name.toList == body with
  | some spec => .ok (.option text spec none)
  | none =>
    match specs.find? fun s => s.name.toList == name with
    | some spec => .ok (.option text spec attached)
    | none =>
      match specs.filter fun s => name.isPrefixOf s.name.toList with
      | [] => .ok (noOption text)
      | [spec] => .ok (.option text spec attached)
      | _ => .error (.ambiguous text)

/-- What an argument is that is not two dashes alone. -/
def classify (specs : List Spec) (text : String) : Except Problem Token :=
  match text.toList with
  | '-' :: '-' :: body => classifyLong specs text body
  | '-' :: letter :: others =>
    match specs.find? fun s => s.letter == some letter with
    | some spec => .ok (.letters text spec others)
    | none => .ok (noOption text)
  | _ => .ok (.operand text)

/-- What the arguments of a command line are. -/
def tokens (specs : List Spec) : List String → Except Problem (List Token)
  | [] => .ok []
  | text :: rest =>
    if text == "--" then .ok (.divider :: rest.map .operand)
    else do
      let token ← classify specs text
      let others ← tokens specs rest
      .ok (token :: others)

/-! ## Reading -/

/-- What has been read of a command line. -/
structure Reading where
  /-- The options and their values, the last one first. -/
  values : List (String × String) := []
  operands : List String := []
  /-- What has no use. -/
  unexpected : List String := []
deriving DecidableEq, Repr

namespace Reading

/-- The value of an option, the last one that was given. -/
def value? (r : Reading) (name : String) : Option String := r.values.lookup name

/-- Adds an option. -/
def put (name value : String) (r : Reading) : Reading :=
  { r with values := (name, value) :: r.values }

/-- Adds what has no use. -/
def refuse (text : String) (r : Reading) : Reading :=
  { r with unexpected := r.unexpected ++ [text] }

/-- Adds an operand; beyond the given number of them it has no use. -/
def addOperand (slots : Nat) (text : String) (r : Reading) : Reading :=
  if r.operands.length < slots then { r with operands := r.operands ++ [text] }
  else r.refuse text

/-- Two dashes alone have no use at the very end, unless they follow an operand. -/
def divide (afterOperand : Bool) (rest : List Token) (r : Reading) : Reading :=
  if rest.isEmpty && !afterOperand then r.refuse "--" else r

end Reading

/-- The options behind the first one of a row of letters.  A row that goes on with a dash or an
equals sign is refused; a letter that is no option has no use. -/
def letterRow (specs : List Spec) (spec : Spec) :
    List Char → Except Problem (List Spec × List String)
  | [] => .ok ([spec], [])
  | c :: others =>
    if c == '-' || c == '=' then .error (.valueUnwanted spec.name)
    else
      match specs.find? fun s => s.letter == some c with
      | some next => do
        let (specs, unexpected) ← letterRow specs next others
        .ok (spec :: specs, unexpected)
      | none => .ok ([spec], [String.ofList ('-' :: c :: others)])

/-- Takes an option that stands without a value. -/
def takeFlag (spec : Spec) (r : Reading) : Except Problem Reading :=
  match spec.use with
  | .help => .error .helpWanted
  | .flag => .ok (r.put spec.name "")
  | .value => .error (.valueMissing spec.name)

/-- Takes a row of letters. -/
def takeLetters (specs : List Spec) (spec : Spec) (others : List Char) (r : Reading) :
    Except Problem Reading := do
  let (flags, unexpected) ← letterRow specs spec others
  let r ← flags.foldlM (fun r flag => takeFlag flag r) r
  .ok (unexpected.foldl (fun r text => r.refuse text) r)

/-- Takes an option with a value attached to it. -/
def takeAttached (spec : Spec) (value : String) (r : Reading) : Except Problem Reading :=
  match spec.use with
  | .value => .ok (r.put spec.name value)
  | _ => .error (.valueUnwanted spec.name)

/-- Reads tokens up to the first operand, and returns the tokens from there on. -/
def readLeading (specs : List Spec) (r : Reading) :
    List Token → Except Problem (Reading × List Token)
  | [] => .ok (r, [])
  | .operand text :: rest => .ok (r, .operand text :: rest)
  | .divider :: rest => .ok (r, .divider :: rest)
  | .unknown text :: rest => readLeading specs (r.refuse text) rest
  | .letters _ spec others :: rest => do
    readLeading specs (← takeLetters specs spec others r) rest
  | .option _ spec (some value) :: rest => do
    readLeading specs (← takeAttached spec value r) rest
  | .option _ spec none :: .operand value :: rest =>
    if spec.use = .value then readLeading specs (r.put spec.name value) rest
    else do
      let r ← takeFlag spec r
      .ok (r, .operand value :: rest)
  | .option _ spec none :: rest => do
    readLeading specs (← takeFlag spec r) rest

/-- Reads tokens; `afterOperand` says whether the one before was an operand. -/
def readTokens (specs : List Spec) (slots : Nat) (afterOperand : Bool) (r : Reading) :
    List Token → Except Problem Reading
  | [] => .ok r
  | .operand text :: rest => readTokens specs slots true (r.addOperand slots text) rest
  | .divider :: rest => readTokens specs slots false (r.divide afterOperand rest) rest
  | .unknown text :: rest => readTokens specs slots false (r.refuse text) rest
  | .letters _ spec others :: rest => do
    readTokens specs slots false (← takeLetters specs spec others r) rest
  | .option _ spec (some value) :: rest => do
    readTokens specs slots false (← takeAttached spec value r) rest
  | .option _ spec none :: .operand value :: rest =>
    if spec.use = .value then readTokens specs slots false (r.put spec.name value) rest
    else do
      let r ← takeFlag spec r
      readTokens specs slots true (r.addOperand slots value) rest
  | .option _ spec none :: rest => do
    readTokens specs slots false (← takeFlag spec r) rest

/-- Reads the arguments of a command that takes the given number of operands. -/
def read (specs : List Spec) (slots : Nat) (arguments : List String) : Except Problem Reading := do
  let r ← readTokens specs slots false {} (← tokens specs arguments)
  if r.operands.length < slots then .error .operandMissing else .ok r

end Redline.CommandLine
