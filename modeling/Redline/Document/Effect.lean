import Redline.Document.Basic
import Redline.Fault
import Redline.Number.Numeral

/-!
# Effects

A change of a document that has been asked for but not made yet.  An effect describes itself, and it
is applied as one step that either succeeds or fails; a failing effect checks first and changes
nothing, but for texts that can be written only in part.

## Main definitions

* `Match` — a place where a text was found.
* `Effect` — the changes.
* `Effect.description` — how an effect is named in messages.
* `Effect.apply` — the change itself.
* `PendingEffect`, `Progress` — effects that were queued, and how far a row of them got.
* `Document.applyAll` — effects one after the other, up to the first that fails.
-/

namespace Redline

open Redline.Text

/-- A place where a text was found: the characters of a paragraph's run text from `start` to
`stop`. -/
structure Match where
  paragraph : Handle
  start : Nat
  stop : Nat
  text : List Char
deriving DecidableEq, Repr

/-- A change of a document. -/
inductive Effect where
  /-- Puts a paragraph that was made for it beside another one. -/
  | insertBeside (new : Handle) (text : String) (side : Side) (anchor : Handle)
  /-- Puts a paragraph that was made for it at an end of the body. -/
  | insertInBody (new : Handle) (text : String) (edge : Edge)
  | setText (paragraph : Handle) (text : String)
  | setStyle (paragraph : Handle) (style : String)
  | setColor (paragraph : Handle) (color : String)
  | setBold (paragraph : Handle) (bold : Bool)
  | setAlignment (paragraph : Handle) (alignment : String)
  | replace (found : Match) (text : String)
  /-- Empties a range down to its first paragraph. -/
  | clearRange (keep : Handle) (others : List Handle)
  | clearBody
  | delete (paragraph : Handle)
  /-- Wraps a range in a content control that was made for it. -/
  | wrap (control first : Handle) (others : List Handle) (tag : String)
  | setTag (control : Handle) (tag : String)
  | setAppearance (control : Handle) (appearance : String)
deriving DecidableEq, Repr

namespace Effect

/-- The beginning of a text between quotes. -/
def excerpt (text : List Char) : String := String.ofList (quoted (text.take 30))

/-- How an effect is named in messages. -/
def description : Effect → String
  | .insertBeside _ text side _ => s!"insert paragraph {side.name} {excerpt text.toList}"
  | .insertInBody _ text edge => s!"insert paragraph at body {edge.name} {excerpt text.toList}"
  | .setText _ text => s!"set text {excerpt text.toList}"
  | .setStyle _ style => s!"set style {quotedString style}"
  | .setColor _ color => s!"set font color {color}"
  | .setBold _ bold => if bold then "set bold True" else "set bold False"
  | .setAlignment _ alignment => s!"set alignment {alignment}"
  | .replace found _ => s!"replace {excerpt found.text}"
  | .clearRange _ others => s!"clear range of {others.length + 1} paragraph(s)"
  | .clearBody => "clear body"
  | .delete _ => "delete paragraph"
  | .wrap _ _ others tag =>
    s!"wrap {others.length + 1} paragraph(s) in marker {quotedString tag}"
  | .setTag _ tag => s!"set marker tag {quotedString tag}"
  | .setAppearance _ appearance => s!"set marker appearance {quotedString appearance}"

/-! ## Colors of runs -/

/-- One channel of a color, to the base 16. -/
def channel (digits : List Char) : Except Fault Int :=
  match Numeral.hexadecimal? digits with
  | some n => .ok n
  | none => .error (.notInteger 16 (String.ofList digits))

/-- Two capital digits to the base 16. -/
def twoDigits (n : Int) : List Char := (Binary64.hexDigits 2 n.toNat).map Char.toUpper

/-- The six digits of a color: two characters for each of the first two channels, all others for the
third. -/
def runColor (color : List Char) : Except Fault String := do
  let red ← channel (color.take 2)
  let green ← channel ((color.drop 2).take 2)
  let blue ← channel (color.drop 4)
  if [red, green, blue].all fun n => 0 ≤ n && n ≤ 255 then
    .ok (String.ofList (twoDigits red ++ twoDigits green ++ twoDigits blue))
  else .error .colorRange

/-! ## Application -/

/-- A changed document, and the fault if there was one. -/
abbrev Outcome := Document × Option Fault

/-- Success. -/
def done (d : Document) : Outcome := (d, none)

/-- A fault that left the document as it was. -/
def fails (d : Document) (fault : Fault) : Outcome := (d, some fault)

/-- Goes on with a value that may be a fault. -/
def withValue {α : Type} (d : Document) (value : Except Fault α) (next : α → Outcome) : Outcome :=
  match value with
  | .ok a => next a
  | .error fault => fails d fault

/-- The new paragraph or control of an effect as it has become by now. -/
def newTree (d : Document) (new : Handle) : Forest :=
  match d.loose.find? (·.isRoot new) with
  | some part => part.tree
  | none => .nil

/-- What is put beside an element that stands nowhere stands nowhere as well. -/
def setAside (new : Handle) (d : Document) : Document :=
  { d with loose := d.loose.map fun part =>
      if part.isRoot new then { part with fresh := false } else part }

/-- Nothing can be put beside a part that has never stood in the document. -/
def besideNothing : Fault :=
  .wrongType "Only processing instructions and comments can be siblings of the root element"

/-- Puts a new paragraph beside another one. -/
def applyInsertBeside (new : Handle) (side : Side) (anchor : Handle) (d : Document) : Outcome :=
  match d.standing anchor with
  | .fresh => fails d besideNothing
  | .removed => done (setAside new d)
  | .placed =>
    let tree := newTree d new
    let d := d.dropLoose new
    match side with
    | .before => done (d.place anchor tree .nil)
    | .after => done (d.place anchor .nil tree)

/-- Puts a new paragraph at an end of the body. -/
def applyInsertInBody (new : Handle) (edge : Edge) (d : Document) : Outcome :=
  let tree := newTree d new
  let d := d.dropLoose new
  match edge with
  | .start => done { d with body := tree ++ d.body }
  | .stop => done { d with body := d.body ++ tree }

/-- The content of a paragraph whose text is set: its start marks, one run, its end marks.  When the
text cannot be written as a whole, what was written of it is left alone. -/
def textContent (text : List Char) (content : Forest) : Forest :=
  if isWritable text then content.startMarks ++ (Forest.runOf text ++ content.endMarks)
  else Forest.runOf text

/-- Sets the text of a paragraph. -/
def applySetText (paragraph : Handle) (text : String) (d : Document) : Outcome :=
  (d.modifyInside paragraph (textContent text.toList),
    if isWritable text.toList then none else some .forbiddenCharacter)

/-- Changes the style or the alignment of a paragraph. -/
def restyle (change : String → Option Alignment → String × Option Alignment) :
    Element → Forest → Element × Forest
  | .paragraph h style alignment, inside =>
    let (style, alignment) := change style alignment
    (.paragraph h style alignment, inside)
  | e, inside => (e, inside)

/-- Sets the style of a paragraph. -/
def applySetStyle (paragraph : Handle) (style : String) (d : Document) : Outcome :=
  withValue d (d.styles.resolve style) fun name =>
    done (d.modify paragraph (restyle fun _ alignment => (name, alignment)))

/-- Sets the color of a paragraph's runs. -/
def applySetColor (paragraph : Handle) (color : String) (d : Document) : Outcome :=
  withValue d (runColor color.toList) fun digits =>
    done (d.modifyInside paragraph
      (·.formatRuns fun format => { format with color := some digits }))

/-- Sets the weight of a paragraph's runs. -/
def applySetBold (paragraph : Handle) (bold : Bool) (d : Document) : Outcome :=
  done (d.modifyInside paragraph (·.formatRuns fun format => { format with bold := some bold }))

/-- Sets the alignment of a paragraph. -/
def applySetAlignment (paragraph : Handle) (alignment : String) (d : Document) : Outcome :=
  match Alignment.ofName? alignment with
  | some alignment =>
    done (d.modify paragraph (restyle fun style _ => (style, some alignment)))
  | none => fails d (.unknownAlignment alignment)

/-- Replaces a match, if its text still stands there. -/
def applyReplace (found : Match) (text : String) (d : Document) : Outcome :=
  let content := d.inside found.paragraph
  if (content.runText.drop found.start).take (found.stop - found.start) ≠ found.text then
    fails d (.staleMatch found.start found.stop)
  else
    let (content, sound) := content.spliceRuns found.start found.stop text.toList
    (d.modifyInside found.paragraph fun _ => content,
      if sound then none else some .forbiddenCharacter)

/-- A list without repetitions, each item at its last place. -/
def lastPlaces : List Handle → List Handle
  | [] => []
  | h :: rest => if rest.contains h then lastPlaces rest else h :: lastPlaces rest

/-- Empties a range down to its first paragraph.  The marks of the range go beside that paragraph,
starts in front of it and ends behind it, so that what is put in front of it lies between them. -/
def applyClearRange (keep : Handle) (others : List Handle) (d : Document) : Outcome :=
  let range := lastPlaces (keep :: others)
  let starts := Forest.join (range.map fun h => (d.inside h).startMarks)
  let ends := Forest.join (range.map fun h => (d.inside h).endMarks)
  if d.standing keep = .fresh ∧ (starts ≠ .nil ∨ ends ≠ .nil) then fails d besideNothing
  else
    let bare := range.foldl (fun d h => d.modifyInside h (·.withoutMarks)) d
    let marked := if d.standing keep = .placed then bare.place keep starts ends else bare
    let emptied := marked.modifyInside keep fun _ => .nil
    done (others.foldl (fun d h => d.removeParagraph h) emptied)

/-- Empties the body. -/
def applyClearBody (d : Document) : Outcome :=
  done { d with
    body := .nil
    loose := d.loose ++ d.body.trees.map fun tree => ⟨false, tree⟩ }

/-- Deletes a paragraph; the only one of a cell is emptied. -/
def applyDelete (paragraph : Handle) (d : Document) : Outcome :=
  if d.standing paragraph ≠ .placed then fails d .alreadyRemoved
  else done (d.removeParagraph paragraph)

/-- Wraps a range of paragraphs that stand directly in the body. -/
def applyWrap (control first : Handle) (others : List Handle) (d : Document) : Outcome :=
  let range := first :: others
  if range.all d.body.ownParagraphs.contains then
    let content := Forest.join ((lastPlaces range).filterMap d.tree?)
    let tree := newTree d control
    let d := d.dropLoose control
    let d := d.place first tree .nil
    let d := range.foldl (fun d h => d.mapTrees (·.erase h)) d
    done (d.modifyInside control fun _ => content)
  else fails d .notTopLevel

/-- Changes the properties of a content control. -/
def reproperty (change : ControlProperties → ControlProperties) :
    Element → Forest → Element × Forest
  | .control h (some properties), inside => (.control h (some (change properties)), inside)
  | e, inside => (e, inside)

/-- Whether a content control has a place for its properties. -/
def hasProperties (d : Document) (control : Handle) : Bool :=
  match d.tree? control with
  | some (.cons (.control _ (some _)) _ _) => true
  | _ => false

/-- Sets a property of a content control. -/
def applySetProperty (control : Handle) (text : String)
    (change : ControlProperties → ControlProperties) (d : Document) : Outcome :=
  if !hasProperties d control then
    fails d (.noMember "'NoneType' object has no attribute 'find'")
  else if !isWritable text.toList then fails d .forbiddenCharacter
  else done (d.modify control (reproperty change))

/-- Makes a change. -/
def apply : Effect → Document → Outcome
  | .insertBeside new _ side anchor => applyInsertBeside new side anchor
  | .insertInBody new _ edge => applyInsertInBody new edge
  | .setText paragraph text => applySetText paragraph text
  | .setStyle paragraph style => applySetStyle paragraph style
  | .setColor paragraph color => applySetColor paragraph color
  | .setBold paragraph bold => applySetBold paragraph bold
  | .setAlignment paragraph alignment => applySetAlignment paragraph alignment
  | .replace found text => applyReplace found text
  | .clearRange keep others => applyClearRange keep others
  | .clearBody => applyClearBody
  | .delete paragraph => applyDelete paragraph
  | .wrap control first others _ => applyWrap control first others
  | .setTag control tag =>
    applySetProperty control tag fun properties => { properties with tag := some tag }
  | .setAppearance control appearance =>
    applySetProperty control appearance fun properties =>
      { properties with appearance := some appearance }

/-- The member of a closed document that an effect asks for in vain; the others do without. -/
def closedMember? : Effect → Option String
  | .insertInBody .. | .clearBody | .wrap .. => some "element"
  | .setText .. | .setStyle .. | .setBold .. | .replace .. | .clearRange .. => some "_body"
  | .setAlignment _ alignment => (Alignment.ofName? alignment).map fun _ => "_body"
  | .setColor _ color =>
    match runColor color.toList with
    | .ok _ => some "_body"
    | .error _ => none
  | _ => none

end Effect

/-- An effect that was queued. -/
structure PendingEffect where
  effect : Effect
  /-- Whether it has been applied. -/
  applied : Bool
deriving DecidableEq, Repr

/-- An effect that has been applied. -/
def PendingEffect.made (effect : Effect) : PendingEffect := ⟨effect, true⟩

/-- An effect that has not been applied. -/
def PendingEffect.unmade (effect : Effect) : PendingEffect := ⟨effect, false⟩

/-- How far a row of effects got. -/
structure Progress where
  document : Document
  /-- The effects of the row. -/
  queue : List PendingEffect
  /-- How many effects were applied. -/
  applied : Nat
  /-- The effect that failed, and why. -/
  failed : Option (Effect × Fault)

/-- All effects of a row have been applied. -/
def Progress.complete (d : Document) (effects : List Effect) : Progress :=
  ⟨d, effects.map .made, effects.length, none⟩

namespace Document

/-- Applies effects one after the other, up to the first that fails. -/
def applyAll (step : Effect → Document → Effect.Outcome) (d : Document) : List Effect → Progress
  | [] => ⟨d, [], 0, none⟩
  | effect :: rest =>
    match step effect d with
    | (d, some fault) => ⟨d, (effect :: rest).map .unmade, 0, some (effect, fault)⟩
    | (d, none) =>
      let progress := applyAll step d rest
      { progress with
        queue := .made effect :: progress.queue
        applied := progress.applied + 1 }

end Document

end Redline
