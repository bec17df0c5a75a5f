import Redline.Anchor
import Redline.Plan.Action
import Redline.Plan.Draft

/-!
# Running edit plans

The actions of a plan are run one by one.  An action queues its effects and flushes the host once;
the first action that fails ends the run, and what the actions before it have done stays done.

## Main definitions

* `Execution.perform` — queues the effects of an action.
* `Execution.runAction` — runs one action.
* `Execution.run` — runs a plan.
* `RunOutcome` — how a run ended.
-/

namespace Redline

/-- An action and the type it is run as. -/
structure TypedAction where
  type : Json
  action : Action
deriving Repr

/-- The actions of a plan, each run as what it is. -/
def EditPlan.typed (plan : EditPlan) : List TypedAction :=
  plan.actions.map fun action => ⟨.str action.kind.name, action⟩

/-- How a run ended. -/
inductive RunOutcome where
  | success (message : String)
  /-- It failed; the runner adds details of its own. -/
  | failed (cause : Failure) (added : Json.Fields)
deriving Repr

namespace RunOutcome

/-- Whether a run succeeded. -/
def ok : RunOutcome → Bool
  | .success _ => true
  | .failed _ _ => false

/-- The report of an outcome. -/
def toJson : RunOutcome → Json
  | .success message => .obj [("ok", .bool true), ("message", .str message)]
  | .failed cause added => cause.refusal.toJson added

end RunOutcome

namespace Execution

open Redline.Text

/-- What a run goes by. -/
structure Setting where
  rules : Rules
  scorer : Heading.Scorer

/-! ## Styles and blocks -/

/-- Queues the look of a paragraph; a color without digits and an alignment without a name change
nothing. -/
def queueStyle (setting : Setting) (paragraph : Handle) (style : Style) : Editing Unit := do
  match style.color with
  | some color =>
    if !color.isEmpty then
      match ← Editing.lift (Color.rgb? setting.rules.namedColors color) with
      | some digits =>
        if !digits.isEmpty then Host.queue (.setColor paragraph digits)
      | none => pure ()
  | none => pure ()
  match style.alignment with
  | some alignment => if !alignment.isEmpty then Host.queue (.setAlignment paragraph alignment)
  | none => pure ()
  match style.bold with
  | some bold => Host.queue (.setBold paragraph bold)
  | none => pure ()

/-- The text of a block. -/
def blockText : Block → String
  | .paragraph text _ => text
  | .heading text _ _ => text

/-- The style of a block's paragraph. -/
def blockStyleName (rules : Rules) : Block → String
  | .paragraph _ _ => rules.normalStyle
  | .heading _ level _ => rules.headingStyle level

/-- The look of a block. -/
def blockLook : Block → Option Style
  | .paragraph _ style => style
  | .heading _ _ style => style

/-- Queues the style and the look of a new block. -/
def queueBlockStyle (setting : Setting) (paragraph : Handle) (block : Block) : Editing Unit := do
  Host.queue (.setStyle paragraph (blockStyleName setting.rules block))
  match blockLook block with
  | some style => queueStyle setting paragraph style
  | none => pure ()

/-- Inserts blocks one behind the other, the first one by `insert`. -/
def insertBlocks (setting : Setting) (insert : String → Editing Handle) :
    List Block → Editing Unit
  | [] => pure ()
  | block :: rest => do
    let paragraph ← insert (blockText block)
    queueBlockStyle setting paragraph block
    insertBlocks setting (fun text => Host.insertParagraph text paragraph .after) rest

/-! ## Places -/

/-- The best heading for a text. -/
def requireHeading (setting : Setting) (text : String) : Editing Passage := do
  match Heading.best? setting.rules setting.scorer (← Host.paragraphs) text with
  | some (heading, _) => pure heading
  | none => Editing.failure (.headingMissing text)

/-- A range that has to hold a paragraph. -/
def requireRange (range : List Handle) (anchor : String) : Editing (List Handle) :=
  if range.isEmpty then Editing.failure (.emptyRange anchor) else pure range

/-- A heading text as it was given, empty when there is none. -/
def headingText (value : Json) : Except Fault String :=
  match value with
  | .str text => .ok text
  | _ =>
    if value.isTruthy then
      .error (.noMember s!"'{value.typeName}' object has no attribute 'strip'")
    else .ok ""

/-- The passage that a position of the whole text lies in, when the texts stand one behind the other
with one character between them; `offset` is where the first one begins. -/
def passageAt (position : Rat) (offset : Nat) : List Passage → Option Passage
  | [] => none
  | p :: rest =>
    let stop := offset + p.text.length
    if (offset : Rat) ≤ position ∧ position ≤ (stop : Rat) then some p
    else passageAt position (stop + 1) rest

/-- The position that was given, below zero when there is none. -/
def givenPosition (value : Json) : Except Fault (Option Rat) :=
  match value with
  | .null => .ok (some (-1))
  | .bool _ | .int _ | .float _ => .ok value.number?
  | _ =>
    .error
      (.wrongType s!"'>=' not supported between instances of '{value.typeName}' and 'int'")

/-! ## Actions -/

/-- The range that a replacement of a section takes out. -/
def replacedRange (setting : Setting) (anchor : String) : Editing (List Handle) := do
  if anchor = setting.rules.selectionAnchor then
    match ← Anchor.latestSelection setting.rules with
    | some range => pure range
    | none => Editing.failure (.selectionMissing anchor)
  else
    let found ← Anchor.resolve setting.rules anchor
    match found.heading with
    | some heading => Anchor.sectionRange setting.rules heading.handle
    | none => pure found.range

/-- Replaces a section by blocks. -/
def replaceSection (setting : Setting) (anchor : String) (blocks : List Block) :
    Editing Unit := do
  if anchor = setting.rules.defaultAnchor then
    Host.queue .clearBody
    insertBlocks setting (fun text => Host.insertParagraphInBody text .start) blocks
  else
    let range ← requireRange (← replacedRange setting anchor) anchor
    let remnant ← Host.clearRange range
    insertBlocks setting (fun text => Host.insertParagraph text remnant .before) blocks
    Host.queue (.delete remnant)

/-- Where new text goes at an end of what an anchor stands for. -/
def insertAtEdge (setting : Setting) (anchor : String) (edge : Edge) :
    Editing (String → Editing Handle) := do
  if anchor = setting.rules.defaultAnchor then
    pure fun text => Host.insertParagraphInBody text edge
  else
    let range ← requireRange (← Anchor.resolve setting.rules anchor).range anchor
    match edge, range.head?, range.getLast? with
    | .start, some first, _ => pure fun text => Host.insertParagraph text first .before
    | .stop, _, some last => pure fun text => Host.insertParagraph text last .after
    | _, _, _ => Editing.failure (.emptyRange anchor)

/-- Fails at a position that lies outside the text, as far as that can be told. -/
def failOutside {α : Type} (position : Json) : Editing α := do
  let shown ← Editing.lift position.display
  Editing.failure (.positionOutside position shown)

/-- Where new text goes. -/
def insertionPoint (setting : Setting) (anchor : String) (location : InsertLocation)
    (heading position : Json) : Editing (String → Editing Handle) := do
  match location with
  | .start => insertAtEdge setting anchor .start
  | .stop => insertAtEdge setting anchor .stop
  | .afterHeading => do
    let found ← requireHeading setting (← Editing.lift (headingText heading))
    pure fun text => Host.insertParagraph text found.handle .after
  | .atPosition => do
    let given ← Editing.lift (givenPosition position)
    let target ← match given with
      | some p => if 0 ≤ p then pure (passageAt p 0 (← Host.paragraphs)) else pure none
      | none => pure none
    match target with
    | some passage => pure fun text => Host.insertParagraph text passage.handle .after
    | none => failOutside position
  | .other name => Editing.failure (.unknownLocation name)

/-- Inserts blocks. -/
def insertText (setting : Setting) (anchor : String) (location : InsertLocation)
    (heading position : Json) (blocks : List Block) : Editing Unit := do
  let insert ← insertionPoint setting anchor location heading position
  insertBlocks setting insert blocks

/-- Replaces every occurrence of a text, the last one first, so that the places of those before it
stay what they are. -/
def correctText (search replacement : String) (matchCase : Bool) : Editing Unit := do
  let found ← Host.search (.literal search.toList matchCase false)
  if found.isEmpty then Editing.failure (.textMissing search)
  else found.reverse.forM fun m => Host.queue (.replace m replacement)

/-- Gives a style to one heading or to all. -/
def updateHeadingStyle (setting : Setting) (target : HeadingTarget) (heading : Json)
    (style : Style) : Editing Unit := do
  let targets ← match target with
    | .specific => do pure [← requireHeading setting (← Editing.lift (headingText heading))]
    | _ => do pure (Heading.headings setting.rules (← Host.paragraphs))
  targets.forM fun p => queueStyle setting p.handle style

/-- Whether a paragraph is meant by a target. -/
def isMeant (rules : Rules) (target : FormatTarget) (p : Passage) : Bool :=
  match target with
  | .headings => rules.isHeading p.style
  | .paragraphs => !rules.isHeading p.style
  | _ => true

/-- Gives a style to the paragraphs that are meant by a target. -/
def updateTextFormat (setting : Setting) (target : FormatTarget) (style : Style) :
    Editing Unit := do
  let passages ← Host.paragraphs
  (passages.filter (isMeant setting.rules target)).forM fun p => queueStyle setting p.handle style

/-- The name of an action's form in a message. -/
def formName (kind : ActionKind) : String :=
  match kind with
  | .replaceSection => "ReplaceSectionAction"
  | .updateHeadingStyle => "UpdateHeadingStyleAction"
  | .updateTextFormat => "UpdateTextFormatAction"
  | .correctText => "CorrectTextAction"
  | .insertText => "InsertTextAction"

/-- An action that is run as something else lacks a part. -/
def lacks (action : Action) (part : String) : Fault :=
  .noMember s!"'{formName action.kind}' object has no attribute '{part}'"

/-- Queues the effects of an action that is run as one of the given kind.  Where the kinds differ,
the action takes part with the parts it has. -/
def perform (setting : Setting) (kind : ActionKind) (action : Action) : Editing Unit :=
  match kind, action with
  | .replaceSection, .replaceSection anchor blocks => replaceSection setting anchor blocks
  | .replaceSection, .insertText anchor _ _ _ blocks => replaceSection setting anchor blocks
  | .replaceSection, other => Editing.fault (lacks other "anchor")
  | .insertText, .insertText anchor location heading position blocks =>
    insertText setting anchor location heading position blocks
  | .insertText, other => Editing.fault (lacks other "location")
  | .correctText, .correctText search replacement matchCase =>
    correctText search replacement (matchCase.getD false)
  | .correctText, other => Editing.fault (lacks other "search_text")
  | .updateHeadingStyle, .updateHeadingStyle target heading style =>
    updateHeadingStyle setting target heading style
  | .updateHeadingStyle, .updateTextFormat target style =>
    if target.name = "specific" then Editing.fault (lacks action "heading_text")
    else updateHeadingStyle setting .all .null style
  | .updateHeadingStyle, other => Editing.fault (lacks other "target")
  | .updateTextFormat, .updateTextFormat target style => updateTextFormat setting target style
  | .updateTextFormat, .updateHeadingStyle target _ style =>
    updateTextFormat setting (.ofName target.name) style
  | .updateTextFormat, other => do
    let _ ← Host.paragraphs
    Editing.fault (lacks other "target")

/-! ## Runs -/

/-- Does the work of an action; a fault becomes a failure of that action. -/
def asAction (type : String) (work : Editing Unit) : Editing Unit :=
  tryCatch work fun
    | .fault f => Editing.failure (.actionFailed type f)
    | mishap => throw mishap

/-- Fails at an action of an unknown type, as far as the type can be told. -/
def failUnknown {α : Type} (type : Json) : Editing α := do
  let shown ← Editing.lift type.display
  Editing.failure (.unknownAction shown)

/-- Runs one action: its effects, then one flush. -/
def runAction (setting : Setting) (typed : TypedAction) : Editing Unit := do
  match typed.type with
  | .arr _ | .obj _ => Editing.fault (.wrongType "a name is expected")
  | _ =>
    match typed.type.str?.bind ActionKind.ofName? with
    | none => failUnknown typed.type
    | some kind =>
      asAction kind.name do
        perform setting kind typed.action
        let _ ← Host.flush

/-- Runs actions in order; the first one has the given position.  After a failure nothing stays
queued. -/
def runActions (setting : Setting) (index : Nat) : List TypedAction → Editing (Option RunOutcome)
  | [] => pure none
  | typed :: rest => do
    let ended ← tryCatch (do runAction setting typed; pure none) fun
      | .failure failure => do
        let _ ← Host.discard
        pure (some (RunOutcome.failed failure
          [("action_index", .int index), ("action_type", typed.type)]))
      | mishap => throw mishap
    match ended with
    | some outcome => pure (some outcome)
    | none => runActions setting (index + 1) rest

/-- Runs actions on an open document. -/
def run (setting : Setting) (actions : List TypedAction) : Editing RunOutcome := do
  if !(← get).isOpen then pure (.failed .hostUnavailable [])
  else
    match ← runActions setting 0 actions with
    | some outcome => pure outcome
    | none => pure (.success s!"Successfully executed {actions.length} action(s)")

end Execution

end Redline
