import Redline.Json.Display
import Redline.Plan.Action

/-!
# Violations

A plan that breaks a rule is rejected with the first violation found: which rule, and the path of
the field that breaks it.  Wording and details are functions of the violation.

## Main definitions

* `Violation` — the rules that a plan can break.
* `Rejection` — a violation and where it was found.
* `Violation.message`, `Rejection.details` — what the author of the plan is told.
-/

namespace Redline

/-- What a style belongs to. -/
inductive StyleOwner where
  | paragraph (index : Nat)
  | heading (index : Nat)
  | action (kind : ActionKind)
deriving DecidableEq, Repr

/-- A style's owner in a message. -/
def StyleOwner.name : StyleOwner → String
  | .paragraph index => s!"Paragraph block at index {index}"
  | .heading index => s!"Heading block at index {index}"
  | .action kind => s!"{kind.name} action"

/-- A text of limited length outside the blocks. -/
inductive LimitedText where
  | anchor (kind : ActionKind)
  | headingText (kind : ActionKind)
  | searchText
  | replacementText
  | operationTarget (index : Nat)
  | operationContent (index : Nat)
deriving DecidableEq, Repr

/-- A text of limited length in a message. -/
def LimitedText.name : LimitedText → String
  | .anchor kind => s!"{kind.name} action anchor"
  | .headingText kind => s!"{kind.name} action heading_text"
  | .searchText => "correct_text action search_text"
  | .replacementText => "correct_text action replacement_text"
  | .operationTarget index => s!"Operation at index {index} target_block_id"
  | .operationContent index => s!"Operation at index {index} content"

/-- Whether the length of a text that is too long is reported. -/
def LimitedText.reportsLength : LimitedText → Bool
  | .anchor _ | .headingText _ | .operationTarget _ => true
  | _ => false

/-- A rule that is broken. -/
inductive Violation where
  | planNotObject
  | wrongVersion (version : Json)
  | actionsMissing
  | tooManyActions (limit : Int) (count : Nat)
  | unexpectedFields (names : List String)
  | actionNotObject (index : Nat)
  | wrongActionType (index : Nat) (type : Json)
  | blankAnchor (kind : ActionKind)
  | tooLong (what : LimitedText) (limit : Int) (length : Nat)
  | styleMissing (owner : StyleOwner)
  | styleNotObject (owner : StyleOwner)
  | wrongColor (owner : StyleOwner) (color : Json)
  | wrongAlignment (owner : StyleOwner) (alignment : Json)
  | wrongBold (owner : StyleOwner) (bold : Json)
  | blocksMissing (kind : ActionKind)
  | blocksEmpty (kind : ActionKind)
  | tooManyBlocks (kind : ActionKind) (limit : Int) (count : Nat)
  | blockNotObject (index : Nat)
  | wrongBlockType (index : Nat) (type : Json)
  | blockTextMissing (owner : StyleOwner)
  | blockTooLong (owner : StyleOwner) (limit : Int) (length : Nat)
  | lineBreakInParagraph (owner : StyleOwner)
  | wrongLevel (owner : StyleOwner) (level : Json)
  | wrongHeadingTarget (target : Json)
  | specificHeadingMissing
  | wrongFormatTarget (target : Json)
  | searchMissing
  | searchEmpty
  | replacementMissing
  | wrongMatchCase
  | wrongLocation (location : Json)
  | insertHeadingMissing
  | positionMissing (position : Json)
  | blockPlanNotObject
  | operationsMissing
  | operationsEmpty
  | operationNotObject (index : Nat)
  | wrongOperation (index : Nat) (action : Json)
  | blankTarget (index : Nat)
  | contentMissing (index : Nat)
  | wrongReason (index : Nat)
  | responseNotObject
  | planMissing
  | planWithoutActions
deriving Repr

namespace Violation

/-- The names of all kinds of actions, between quotes. -/
def actionNames : String :=
  ", ".intercalate (ActionKind.all.map fun kind => s!"\"{kind.name}\"")

/-- The value that the wording quotes: what was given, or the limit that it exceeds. -/
def quoted : Violation → Option Json
  | .wrongVersion value | .wrongActionType _ value | .wrongColor _ value
  | .wrongAlignment _ value | .wrongBlockType _ value | .wrongOperation _ value => some value
  | .tooManyActions limit _ | .tooManyBlocks _ limit _ | .tooLong _ limit _
  | .blockTooLong _ limit _ => some (.int limit)
  | _ => none

/-- The wording; `shown` stands for the value that it quotes. -/
def wording (shown : String) : Violation → String
  | .planNotObject => "EditPlan must be an object"
  | .wrongVersion _ => s!"EditPlan version must be \"1.0\", got: {shown}"
  | .actionsMissing => "EditPlan must have an actions array"
  | .tooManyActions _ _ => s!"EditPlan exceeds maximum actions ({shown})"
  | .unexpectedFields names =>
    s!"EditPlan contains unexpected fields: " ++ ", ".intercalate names
  | .actionNotObject index => s!"Action at index {index} must be an object"
  | .wrongActionType index _ =>
    s!"Action at index {index} has invalid type: {shown}. Only {actionNames} are supported."
  | .blankAnchor kind => s!"{kind.name} action must have a non-empty anchor string"
  | .tooLong what _ _ => s!"{what.name} exceeds maximum length ({shown})"
  | .styleMissing owner => s!"{owner.name} must have a style object"
  | .styleNotObject owner => s!"{owner.name} style must be an object"
  | .wrongColor owner _ => s!"{owner.name} has invalid color format: {shown}"
  | .wrongAlignment owner _ => s!"{owner.name} has invalid alignment: {shown}"
  | .wrongBold owner _ => s!"{owner.name} bold must be a boolean"
  | .blocksMissing kind => s!"{kind.name} action must have a blocks array"
  | .blocksEmpty kind => s!"{kind.name} action must have at least one block"
  | .tooManyBlocks kind _ _ =>
    s!"{kind.name} action exceeds maximum blocks per action ({shown})"
  | .blockNotObject index => s!"Block at index {index} must be an object"
  | .wrongBlockType index _ =>
    s!"Block at index {index} has invalid type: {shown}. " ++
      "Only \"paragraph\" and \"heading\" are supported."
  | .blockTextMissing owner => s!"{owner.name} must have a text property (string)"
  | .blockTooLong owner _ _ => s!"{owner.name} exceeds maximum text length ({shown})"
  | .lineBreakInParagraph owner =>
    s!"{owner.name} contains newline characters. Paragraphs must be single blocks."
  | .wrongLevel owner _ => s!"{owner.name} must have a level between 1 and 3"
  | .wrongHeadingTarget _ => "update_heading_style action target must be \"all\" or \"specific\""
  | .specificHeadingMissing =>
    "update_heading_style action with target \"specific\" must have a non-empty heading_text"
  | .wrongFormatTarget _ =>
    "update_text_format action target must be \"all\", \"headings\", or \"paragraphs\""
  | .searchMissing => "correct_text action must have a search_text string"
  | .searchEmpty => "correct_text action search_text cannot be empty"
  | .replacementMissing => "correct_text action must have a replacement_text string"
  | .wrongMatchCase => "correct_text action case_sensitive must be a boolean if provided"
  | .wrongLocation _ =>
    "insert_text action location must be \"start\", \"end\", \"after_heading\", or \"at_position\""
  | .insertHeadingMissing =>
    "insert_text action must have heading_text when location is 'after_heading'"
  | .positionMissing _ =>
    "insert_text action must have position (integer) when location is 'at_position'"
  | .blockPlanNotObject => "Semantic edit plan must be an object"
  | .operationsMissing => "Semantic edit plan must have an ops array"
  | .operationsEmpty => "Semantic edit plan must have at least one operation"
  | .operationNotObject index => s!"Operation at index {index} must be an object"
  | .wrongOperation index _ =>
    s!"Operation at index {index} has invalid action: {shown}. " ++
      "Only \"insert_after\", \"insert_before\", and \"replace\" are supported."
  | .blankTarget index => s!"Operation at index {index} must have a non-empty target_block_id"
  | .contentMissing index => s!"Operation at index {index} must have a content string"
  | .wrongReason index => s!"Operation at index {index} reason must be a string"
  | .responseNotObject => "Invalid planner response: expected an object"
  | .planMissing => "Invalid planner response: missing edit_plan or ops field"
  | .planWithoutActions => "EditPlan has no actions and no semantic ops accompany it"

/-- What the author of the plan is told, unless the value that it quotes cannot be shown. -/
def message (v : Violation) : Except Fault String :=
  match v.quoted with
  | some value => value.display.map fun shown => v.wording shown
  | none => .ok (v.wording "")

/-- What the details say beside the path. -/
def facts : Violation → Json.Fields
  | .wrongVersion value | .wrongActionType _ value | .wrongColor _ value
  | .wrongAlignment _ value | .wrongBold _ value | .wrongBlockType _ value
  | .wrongLevel _ value | .wrongHeadingTarget value | .wrongFormatTarget value
  | .wrongLocation value | .positionMissing value | .wrongOperation _ value => [("value", value)]
  | .tooManyActions _ count | .tooManyBlocks _ _ count => [("count", .int count)]
  | .unexpectedFields names => [("fields", .arr (names.map .str))]
  | .tooLong what _ length => if what.reportsLength then [("length", .int length)] else []
  | .blockTooLong _ _ length => [("length", .int length)]
  | _ => []

end Violation

/-- A broken rule and where. -/
structure Rejection where
  /-- The field that breaks it; a dollar sign stands for the whole. -/
  path : String
  violation : Violation
deriving Repr

/-- The details of a rejection, the path first. -/
def Rejection.details (r : Rejection) : Json.Fields :=
  ("path", .str r.path) :: r.violation.facts

end Redline
