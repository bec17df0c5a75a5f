import Redline.Plan.Operation
import Redline.Plan.Violation
import Redline.Rules.Basic
import Redline.Text.Blank

/-!
# Reading plans

A plan comes as a structured value from outside.  It is read field by field into its own types, and
the first rule that it breaks rejects it as a whole.  Reading looks at the value and the rules only.

## Main definitions

* `readAction`, `readEditPlan` — edit plans.
* `readOperation`, `readBlockPlan` — block plans.
-/

namespace Redline

namespace Check

/-- Rejects a plan. -/
def reject {α : Type} (path : String) (violation : Violation) : Except Rejection α :=
  .error ⟨path, violation⟩

/-- A text that is more than blanks. -/
def visibleText? : Json → Option String
  | .str text => if Text.allBlank text.toList then none else some text
  | _ => none

/-- Holds a text to the limit of length. -/
def limited (rules : Rules) (path : String) (what : LimitedText) (text : String) :
    Except Rejection String :=
  if (text.length : Int) > rules.maxChars then
    reject path (.tooLong what rules.maxChars text.length)
  else .ok text

/-! ## Styles and blocks -/

/-- The color of a style. -/
def readColor (rules : Rules) (owner : StyleOwner) (path : String) :
    Json → Except Rejection (Option String)
  | .null => .ok none
  | .str color =>
    if Color.isValid rules.namedColors color then .ok (some color)
    else reject path (.wrongColor owner (.str color))
  | value => reject path (.wrongColor owner value)

/-- The alignment of a style. -/
def readAlignment (owner : StyleOwner) (path : String) : Json → Except Rejection (Option String)
  | .null => .ok none
  | .str name =>
    if alignmentNames.contains name then .ok (some name)
    else reject path (.wrongAlignment owner (.str name))
  | value => reject path (.wrongAlignment owner value)

/-- The weight of a style. -/
def readBold (owner : StyleOwner) (path : String) : Json → Except Rejection (Option Bool)
  | .null => .ok none
  | .bool bold => .ok (some bold)
  | value => reject path (.wrongBold owner value)

/-- A style that may be missing. -/
def readStyle? (rules : Rules) (owner : StyleOwner) (path : String) :
    Json → Except Rejection (Option Style)
  | .null => .ok none
  | .obj fields => do
    let style := Json.obj fields
    let color ← readColor rules owner s!"{path}.color" (style.getD "color")
    let alignment ← readAlignment owner s!"{path}.alignment" (style.getD "alignment")
    let bold ← readBold owner s!"{path}.bold" (style.getD "bold")
    .ok (some ⟨color, alignment, bold⟩)
  | _ => reject path (.styleNotObject owner)

/-- A style that has to be there. -/
def readStyle (rules : Rules) (kind : ActionKind) (path : String) (value : Json) :
    Except Rejection Style := do
  match ← readStyle? rules (.action kind) path value with
  | some style => .ok style
  | none => reject path (.styleMissing (.action kind))

/-- The text of a block: not empty, and within the limit. -/
def readBlockText (rules : Rules) (owner : StyleOwner) (path : String) :
    Json → Except Rejection String
  | .str text =>
    if text.isEmpty then reject path (.blockTextMissing owner)
    else if (text.length : Int) > rules.maxChars then
      reject path (.blockTooLong owner rules.maxChars text.length)
    else .ok text
  | _ => reject path (.blockTextMissing owner)

/-- Whether a text holds a line end. -/
def hasLineBreak (text : String) : Bool := text.toList.any fun c => c == '\n' || c == '\r'

/-- The level of a heading. -/
def readLevel (owner : StyleOwner) (path : String) : Json → Except Rejection Int
  | .int level =>
    if level < 1 || level > 3 then reject path (.wrongLevel owner (.int level)) else .ok level
  | value => reject path (.wrongLevel owner value)

/-- A block. -/
def readBlock (rules : Rules) (index : Nat) (path : String) (value : Json) :
    Except Rejection Block := do
  if value.fields?.isNone then reject path (.blockNotObject index)
  else
    let type := value.getD "type"
    match type.str? with
    | some "paragraph" => do
      let owner := StyleOwner.paragraph index
      let text ← readBlockText rules owner s!"{path}.text" (value.getD "text")
      if hasLineBreak text then reject s!"{path}.text" (.lineBreakInParagraph owner)
      else
        let style ← readStyle? rules owner s!"{path}.style" (value.getD "style")
        .ok (.paragraph text style)
    | some "heading" => do
      let owner := StyleOwner.heading index
      let text ← readBlockText rules owner s!"{path}.text" (value.getD "text")
      let level ← readLevel owner s!"{path}.level" (value.getD "level")
      let style ← readStyle? rules owner s!"{path}.style" (value.getD "style")
      .ok (.heading text level style)
    | _ => reject s!"{path}.type" (.wrongBlockType index type)

/-- Reads the items of a list in order; `read` gets the position of each. -/
def readEach {α : Type} (read : Nat → Json → Except Rejection α) (index : Nat) :
    List Json → Except Rejection (List α)
  | [] => .ok []
  | item :: items => do
    let first ← read index item
    let others ← readEach read (index + 1) items
    .ok (first :: others)

/-- The blocks of an action. -/
def readBlocks (rules : Rules) (kind : ActionKind) (path : String) :
    Json → Except Rejection (List Block)
  | .arr items =>
    if items.isEmpty then reject path (.blocksEmpty kind)
    else if (items.length : Int) > rules.maxBlocks then
      reject path (.tooManyBlocks kind rules.maxBlocks items.length)
    else readEach (fun index => readBlock rules index s!"{path}[{index}]") 0 items
  | _ => reject path (.blocksMissing kind)

/-! ## Actions -/

/-- The anchor of an action. -/
def readAnchor (rules : Rules) (kind : ActionKind) (path : String) (action : Json) :
    Except Rejection String :=
  match visibleText? (action.getD "anchor") with
  | some anchor => limited rules s!"{path}.anchor" (.anchor kind) anchor
  | none => reject s!"{path}.anchor" (.blankAnchor kind)

/-- A heading text that has to be there. -/
def requireHeadingText (rules : Rules) (kind : ActionKind) (missing : Violation) (path : String)
    (action : Json) : Except Rejection Unit :=
  match visibleText? (action.getD "heading_text") with
  | some text => do
    let _ ← limited rules s!"{path}.heading_text" (.headingText kind) text
    .ok ()
  | none => reject s!"{path}.heading_text" missing

/-- The fields of a replacement of a section. -/
def readReplaceSection (rules : Rules) (path : String) (action : Json) :
    Except Rejection Action := do
  let anchor ← readAnchor rules .replaceSection path action
  let blocks ← readBlocks rules .replaceSection s!"{path}.blocks" (action.getD "blocks")
  .ok (.replaceSection anchor blocks)

/-- A name that is one of a few. -/
def readName {α : Type} (ofName : String → α) (isKnown : α → Bool) (path : String)
    (violation : Json → Violation) (value : Json) : Except Rejection α :=
  match value.str? with
  | some name =>
    if isKnown (ofName name) then .ok (ofName name) else reject path (violation value)
  | none => reject path (violation value)

/-- The fields of a change of headings. -/
def readUpdateHeadingStyle (rules : Rules) (path : String) (action : Json) :
    Except Rejection Action := do
  let target ← readName HeadingTarget.ofName HeadingTarget.isKnown s!"{path}.target"
    .wrongHeadingTarget (action.getD "target")
  if target = .specific then
    requireHeadingText rules .updateHeadingStyle .specificHeadingMissing path action
  let style ← readStyle rules .updateHeadingStyle s!"{path}.style" (action.getD "style")
  .ok (.updateHeadingStyle target (action.getD "heading_text") style)

/-- The fields of a change of paragraphs. -/
def readUpdateTextFormat (rules : Rules) (path : String) (action : Json) :
    Except Rejection Action := do
  let target ← readName FormatTarget.ofName FormatTarget.isKnown s!"{path}.target"
    .wrongFormatTarget (action.getD "target")
  let style ← readStyle rules .updateTextFormat s!"{path}.style" (action.getD "style")
  .ok (.updateTextFormat target style)

/-- Whether the case matters to a search. -/
def readMatchCase (path : String) : Json → Except Rejection (Option Bool)
  | .null => .ok none
  | .bool matchCase => .ok (some matchCase)
  | _ => reject path .wrongMatchCase

/-- The fields of a correction. -/
def readCorrectText (rules : Rules) (path : String) (action : Json) :
    Except Rejection Action := do
  match (action.getD "search_text").str? with
  | none => reject s!"{path}.search_text" .searchMissing
  | some search =>
    if search.isEmpty then reject s!"{path}.search_text" .searchEmpty
    else
      let search ← limited rules s!"{path}.search_text" .searchText search
      match (action.getD "replacement_text").str? with
      | none => reject s!"{path}.replacement_text" .replacementMissing
      | some replacement => do
        let replacement ←
          limited rules s!"{path}.replacement_text" .replacementText replacement
        let matchCase ←
          readMatchCase s!"{path}.case_sensitive" (action.getD "case_sensitive")
        .ok (.correctText search replacement matchCase)

/-- A position that has to be there. -/
def requirePosition (path : String) : Json → Except Rejection Unit
  | .int _ => .ok ()
  | value => reject path (.positionMissing value)

/-- The fields of an insertion. -/
def readInsertText (rules : Rules) (path : String) (action : Json) : Except Rejection Action := do
  let anchor ← readAnchor rules .insertText path action
  let location ← readName InsertLocation.ofName InsertLocation.isKnown s!"{path}.location"
    .wrongLocation (action.getD "location")
  if location = .afterHeading then
    requireHeadingText rules .insertText .insertHeadingMissing path action
  if location = .atPosition then
    requirePosition s!"{path}.position" (action.getD "position")
  let blocks ← readBlocks rules .insertText s!"{path}.blocks" (action.getD "blocks")
  .ok (.insertText anchor location (action.getD "heading_text") (action.getD "position") blocks)

/-- The fields of an action of a known kind. -/
def readFields (rules : Rules) (path : String) (action : Json) :
    ActionKind → Except Rejection Action
  | .replaceSection => readReplaceSection rules path action
  | .updateHeadingStyle => readUpdateHeadingStyle rules path action
  | .updateTextFormat => readUpdateTextFormat rules path action
  | .correctText => readCorrectText rules path action
  | .insertText => readInsertText rules path action

/-- An action at the given position of a plan. -/
def readAction (rules : Rules) (index : Nat) (action : Json) : Except Rejection Action :=
  let path := s!"actions[{index}]"
  if action.fields?.isNone then reject path (.actionNotObject index)
  else
    match (action.getD "type").str?.bind ActionKind.ofName? with
    | some kind => readFields rules path action kind
    | none => reject s!"{path}.type" (.wrongActionType index (action.getD "type"))

/-! ## Edit plans -/

/-- The fields that a plan may have. -/
def planFields : List String := ["version", "actions"]

/-- The actions of a plan and the fields it has beside them. -/
def readActions (rules : Rules) (plan : Json.Fields) : List Json → Except Rejection EditPlan
  | [] => .ok ⟨[]⟩
  | items => do
    if (items.length : Int) > rules.maxActions then
      reject "actions" (.tooManyActions rules.maxActions items.length)
    else
      let actions ← readEach (readAction rules) 0 items
      let unexpected := (plan.map (·.1)).filter fun key => !planFields.contains key
      if unexpected.isEmpty then .ok ⟨actions⟩
      else reject "$" (.unexpectedFields unexpected)

/-- An edit plan.  A plan without actions accompanies a block plan and is looked at no further. -/
def readEditPlan (rules : Rules) (value : Json) : Except Rejection EditPlan :=
  match value with
  | .obj fields =>
    let version := value.getD "version"
    if version.str? ≠ some EditPlan.version then reject "version" (.wrongVersion version)
    else
      match value.getD "actions" with
      | .arr items => readActions rules fields items
      | _ => reject "actions" .actionsMissing
  | _ => reject "$" .planNotObject

/-! ## Block plans -/

/-- The reason of an operation, empty when there is none. -/
def readReason (index : Nat) (path : String) (op : Json) : Except Rejection String :=
  match op.get? "reason" with
  | none => .ok ""
  | some (.str reason) => .ok reason
  | some _ => reject s!"{path}.reason" (.wrongReason index)

/-- An operation at the given position of a block plan. -/
def readOperation (rules : Rules) (index : Nat) (op : Json) : Except Rejection Operation :=
  let path := s!"ops[{index}]"
  if op.fields?.isNone then reject path (.operationNotObject index)
  else
    match (op.getD "action").str?.bind OperationKind.ofName? with
    | none => reject s!"{path}.action" (.wrongOperation index (op.getD "action"))
    | some kind =>
      match visibleText? (op.getD "target_block_id") with
      | none => reject s!"{path}.target_block_id" (.blankTarget index)
      | some target => do
        let target ← limited rules s!"{path}.target_block_id" (.operationTarget index) target
        match (op.getD "content").str? with
        | none => reject s!"{path}.content" (.contentMissing index)
        | some content => do
          let content ← limited rules s!"{path}.content" (.operationContent index) content
          let reason ← readReason index path op
          .ok ⟨kind, target, content, reason⟩

/-- A block plan. -/
def readBlockPlan (rules : Rules) (value : Json) : Except Rejection BlockPlan :=
  match value with
  | .obj _ =>
    match value.getD "ops" with
    | .arr [] => reject "ops" .operationsEmpty
    | .arr items => do
      let operations ← readEach (readOperation rules) 0 items
      .ok ⟨operations⟩
    | _ => reject "ops" .operationsMissing
  | _ => reject "$" .blockPlanNotObject

end Check

end Redline
