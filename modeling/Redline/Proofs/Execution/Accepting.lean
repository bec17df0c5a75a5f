import Redline.Proofs.Anchor.Missing
import Redline.Proofs.Execution.Correct
import Redline.Proofs.Execution.Refusals
import Redline.Proofs.Execution.Replace
import Redline.Proofs.Landing
import Redline.Proofs.Number.Values
import Redline.Proofs.Plan.Checked

/-!
# Checked actions

Whatever a checked action queues under the standard rules, on a document that suits it, succeeds when
it is flushed.  What can go wrong comes before that: something the action asks for is not in the
document, or a row of digits is too long for an integer.

## Main definitions

* `Document.Suits` — a document that knows the styles of an action's blocks, and in which no run keeps
  a return when a text is corrected.
* `Execution.Beyond` — a position that lies outside a document.
* `Execution.Overlong` — an action meets a row of digits that is too long.
* `Execution.Absent` — an action asks for something that is not in the document.
* `Execution.Excused` — what may stop a checked action.
* `Execution.Places` — a place for new paragraphs.
* `Execution.Ends` — what comes of a checked action.
-/

namespace Redline

open Editing Redline.Text

/-- A channel of the style's color has too many digits. -/
def Style.Overlong (style : Style) (n : Nat) : Prop :=
  ∃ color ∈ style.color, ∃ row, Color.Channel color row ∧ row.length = n ∧ Numeral.maxDigits < n

/-- The styles of an action. -/
def Action.styles : Action → List Style
  | .replaceSection _ blocks | .insertText _ _ _ _ blocks =>
    blocks.filterMap Execution.blockLook
  | .updateHeadingStyle _ _ style | .updateTextFormat _ style => [style]
  | .correctText .. => []

/-- The styles of these blocks can be given to paragraphs. -/
def Stylesheet.KnowsBlocks (sheet : Stylesheet) (rules : Rules) (blocks : List Block) : Prop :=
  ∀ block ∈ blocks, sheet.Knows (Execution.blockStyleName rules block)

/-- The document knows the styles of the action's blocks, and no run keeps a return when a text that
the action corrects gives way in it. -/
def Document.Suits (rules : Rules) (d : Document) : Action → Prop
  | .replaceSection _ blocks | .insertText _ _ _ _ blocks => d.styles.KnowsBlocks rules blocks
  | .correctText search _ matchCase => d.SparesReturns search.toList (matchCase.getD false)
  | .updateHeadingStyle .. | .updateTextFormat .. => True

namespace Execution

/-- No passage covers the position. -/
def Beyond (d : Document) (n : Int) : Prop :=
  0 ≤ n → passageAt n 0 d.passages = none

/-- An action meets a row of digits that is too long, and that is the fault: the row stands in a color
of its own or in the tag of a marked selection, or it would be the numeral of a position that lies
outside the document. -/
inductive Overlong (rules : Rules) (d : Document) : Action → Fault → Prop
  | style {action : Action} {style : Style} {n : Nat} : style ∈ action.styles → style.Overlong n →
      Overlong rules d action (.longInteger n)
  | selection {blocks : List Block} {marker : Marker} {row : List Char} :
      marker ∈ d.body.markers → marker.tag.toList = rules.selectionPrefix.toList ++ row →
      Numeral.IsRow row → Numeral.maxDigits < row.length →
      Overlong rules d (.replaceSection rules.selectionAnchor blocks) (.longInteger row.length)
  | position {anchor : String} {heading : Json} {n : Int} {blocks : List Block} :
      Beyond d n → Numeral.bound ≤ n.natAbs →
      Overlong rules d (.insertText anchor .atPosition heading (.int n) blocks) .unwrittenInteger

/-- An action asks for something that is not in the document, which the failure tells. -/
inductive Absent (setting : Setting) (d : Document) : Action → Failure → Prop
  | selection {blocks : List Block} :
      d.range? setting.rules setting.rules.selectionAnchor = none →
      Absent setting d (.replaceSection setting.rules.selectionAnchor blocks)
        (.selectionMissing setting.rules.selectionAnchor)
  | range {anchor : String} {blocks : List Block} {tried : List String}
      {refusals : List (String × String)} :
      anchor ≠ setting.rules.defaultAnchor → d.range? setting.rules anchor = none →
      Absent setting d (.replaceSection anchor blocks) (.anchorUnresolved anchor tried refusals)
  | emptyRange {anchor : String} {blocks : List Block} :
      anchor ≠ setting.rules.defaultAnchor → d.range? setting.rules anchor = some [] →
      Absent setting d (.replaceSection anchor blocks) (.emptyRange anchor)
  | edge {anchor : String} {location : InsertLocation} {heading position : Json}
      {blocks : List Block} {tried : List String} {refusals : List (String × String)} :
      anchor ≠ setting.rules.defaultAnchor →
      Strategy.all.findSome? (d.attempt? setting.rules anchor) = none →
      Absent setting d (.insertText anchor location heading position blocks)
        (.anchorUnresolved anchor tried refusals)
  | emptyEdge {anchor : String} {location : InsertLocation} {heading position : Json}
      {blocks : List Block} {found : Resolution} :
      anchor ≠ setting.rules.defaultAnchor →
      Strategy.all.findSome? (d.attempt? setting.rules anchor) = some found → found.range = [] →
      Absent setting d (.insertText anchor location heading position blocks) (.emptyRange anchor)
  | headingPlace {anchor text : String} {position : Json} {blocks : List Block} :
      Heading.best? setting.rules setting.scorer d.passages text = none →
      Absent setting d (.insertText anchor .afterHeading (.str text) position blocks)
        (.headingMissing text)
  | position {anchor : String} {heading : Json} {n : Int} {blocks : List Block} :
      Beyond d n → n.natAbs < Numeral.bound →
      Absent setting d (.insertText anchor .atPosition heading (.int n) blocks)
        (.positionOutside (.int n) (toString n))
  | headingStyle {text : String} {style : Style} :
      Heading.best? setting.rules setting.scorer d.passages text = none →
      Absent setting d (.updateHeadingStyle .specific (.str text) style) (.headingMissing text)
  | text {search replacement : String} {matchCase : Option Bool} :
      (∀ p ∈ d.paragraphs, ¬ Occurs (matchCase.getD false) search.toList p.content.runText) →
      Absent setting d (.correctText search replacement matchCase) (.textMissing search)

/-- What is absent is not put down to a fault. -/
theorem Absent.cause {setting : Setting} {d : Document} {action : Action} {f : Failure}
    (h : Absent setting d action f) : f.refusal.cause = none := by
  cases h <;> rfl

/-- A row of digits that is too long is a value that cannot be used. -/
theorem Overlong.family {rules : Rules} {d : Document} {action : Action} {fault : Fault}
    (h : Overlong rules d action fault) : fault.family = .value := by
  cases h <;> rfl

/-- What may stop a checked action before its flush. -/
inductive Excused (setting : Setting) (d : Document) (action : Action) : Mishap → Prop
  | absent {f : Failure} : Absent setting d action f → Excused setting d action (.failure f)
  | overlong {f : Fault} : Overlong setting.rules d action f →
      Excused setting d action (.fault f)

variable {scorer : Heading.Scorer} {host mid left : Host} {mishap : Mishap} {style : Style}
  {block : Block} {blocks : List Block} {looks : List Look} {sheet : Stylesheet}

/-! ## Looks -/

theorem isSome_ofName? : ∀ name ∈ alignmentNames, (Alignment.ofName? name).isSome := by
  decide

/-- The digits of a checked style's color can be told unless it is too long. -/
theorem colorDigits_cases (scorer : Heading.Scorer) (hs : style.Checked .standard) :
    (∃ digits, colorDigits ⟨.standard, scorer⟩ style = .ok digits) ∨
      ∃ n, style.Overlong n ∧ colorDigits ⟨.standard, scorer⟩ style = .error (.longInteger n) := by
  rw [colorDigits]
  cases hcolor : style.color with
  | none => exact .inl ⟨none, rfl⟩
  | some color =>
    by_cases he : color.isEmpty = true
    · exact .inl ⟨none, by simp [he]⟩
    · simp only [he, Bool.false_eq_true, if_false]
      rcases Color.rgb?_of_isValid Color.proper_standardColors (hs.color color hcolor) with
        ⟨digits, hdigits⟩ | ⟨row, hrow, hlong, herror⟩
      · exact .inl ⟨_, hdigits⟩
      · exact .inr ⟨_, ⟨color, hcolor, row, hrow, rfl, hlong⟩, herror⟩

/-- A color that is too long has no digits, whatever the rules. -/
theorem colorDigits_of_overlong {setting : Setting} {n : Nat} (h : style.Overlong n)
    (digits : Option String) : colorDigits setting style ≠ .ok digits := by
  obtain ⟨color, hcolor, row, hrow, rfl, hlong⟩ := h
  obtain ⟨red, green, blue, hread, -⟩ := id hrow
  have hne : color ≠ "" := by
    rintro rfl
    cases (show Color.read "" = .name "" by decide).symm.trans hread
  have hcolor : style.color = some color := hcolor
  simp only [colorDigits, hcolor, String.isEmpty_iff, hne, if_false]
  exact Color.rgb?_of_channel hrow hlong digits

theorem known_of_styleLooks (hs : style.Checked .standard) {digits : Option String}
    (hd : colorDigits ⟨.standard, scorer⟩ style = .ok digits) :
    ∀ look ∈ styleLooks digits style, look.Known sheet := by
  intro look hlook
  simp only [styleLooks, List.mem_append, List.mem_map, Option.mem_toList] at hlook
  rcases hlook with ⟨x, hx, rfl⟩ | ⟨name, hname, rfl⟩ | ⟨bold, _, rfl⟩
  · exact ⟨x, by
      simpa using (digits_of_colorDigits hd (Option.eq_some_of_filter_eq_some hx)).runColor_eq⟩
  · exact Option.isSome_iff_exists.1
      (isSome_ofName? name (hs.alignment name (Option.eq_some_of_filter_eq_some hname)))
  · trivial

/-! ## Blocks -/

theorem checked_of_mem_blockLook (hb : block.Checked .standard) (hs : style ∈ blockLook block) :
    style.Checked .standard := by
  cases hb with
  | paragraph _ hstyle => exact hstyle style hs
  | heading _ _ _ hstyle => exact hstyle style hs

theorem isWritable_blockText (hb : block.Checked .standard) :
    isWritable (blockText block).toList = true := by
  cases hb with
  | paragraph htext _ => exact htext
  | heading htext _ _ _ => exact htext

theorem known_of_blockLooks (hb : block.Checked .standard)
    (hk : sheet.Knows (blockStyleName .standard block))
    (h : blockLooks ⟨.standard, scorer⟩ block = some looks) : ∀ look ∈ looks, look.Known sheet := by
  have hstyle : (Look.style (blockStyleName .standard block)).Known sheet := hk
  rw [blockLooks] at h
  cases hlook : blockLook block with
  | none =>
    simp only [hlook, Option.some.injEq] at h
    subst h
    simpa using hstyle
  | some style =>
    simp only [hlook] at h
    obtain ⟨digits, hdigits, rfl⟩ := Option.map_eq_some_iff.1 h
    exact List.forall_mem_cons.2 ⟨hstyle,
      known_of_styleLooks (checked_of_mem_blockLook hb hlook) (toOption_eq_some.1 hdigits)⟩

theorem known_of_items (hb : ∀ block ∈ blocks, block.Checked .standard)
    (hk : sheet.KnowsBlocks .standard blocks) {n : Nat}
    {items : List (String × List Look)} (hi : List.Forall₂ (fun block item =>
      itemOf blockText (blockLooks ⟨.standard, scorer⟩) block = some item) blocks items) :
    ∀ i ∈ Document.insertions sheet n items, ∀ look ∈ i.looks, look.Known sheet := by
  induction hi generalizing n with
  | nil => simp [Document.insertions]
  | cons hitem _ ih =>
    obtain ⟨hblock, hrest⟩ := List.forall_mem_cons.1 hb
    obtain ⟨hstyle, hstyles⟩ := List.forall_mem_cons.1 hk
    obtain ⟨_, looks, hlooks, rfl⟩ := itemOf_eq_some.1 hitem
    exact List.forall_mem_cons.2
      ⟨known_of_blockLooks hblock hstyle hlooks, ih hrest hstyles⟩

theorem style_mem_blockLooks {setting : Setting} (h : blockLooks setting block = some looks) :
    Look.style (blockStyleName setting.rules block) ∈ looks := by
  rw [blockLooks] at h
  cases hlook : blockLook block with
  | none =>
    simp only [hlook, Option.some.injEq] at h
    exact h ▸ List.mem_cons_self
  | some style =>
    simp only [hlook] at h
    obtain ⟨digits, -, rfl⟩ := Option.map_eq_some_iff.1 h
    exact List.mem_cons_self

/-- Blocks whose paragraphs have got their looks are of styles that the document knows. -/
theorem knowsBlocks_of_dressed {setting : Setting} {n : Nat} {items : List (String × List Look)}
    {news : List Paragraph}
    (hi : List.Forall₂ (fun block item =>
      itemOf blockText (blockLooks setting) block = some item) blocks items)
    (hn : Document.Dressed sheet (Document.insertions sheet n items) news) :
    sheet.KnowsBlocks setting.rules blocks := by
  induction hi generalizing n news with
  | nil => exact fun _ hblock => absurd hblock List.not_mem_nil
  | cons hitem _ ih =>
    obtain ⟨_, looks, hlooks, rfl⟩ := itemOf_eq_some.1 hitem
    obtain ⟨q, rest, hq, hrest, rfl⟩ := List.forall₂_cons_left_iff.1 hn
    have hknown : (Look.style (blockStyleName setting.rules _)).Known sheet :=
      Look.known_of_giveAll hq _ (style_mem_blockLooks hlooks)
    exact List.forall_mem_cons.2 ⟨hknown, ih hrest⟩

theorem queueStyle_error (hs : style.Checked .standard) {h : Handle}
    (hrun : (queueStyle ⟨.standard, scorer⟩ h style).runOn host = (.error mishap, left)) :
    ∃ n, style.Overlong n ∧ mishap = .fault (.longInteger n) := by
  rw [queueStyle_eq, runOn_bind] at hrun
  rcases colorDigits_cases scorer hs with ⟨digits, hdigits⟩ | ⟨n, hlong, herror⟩
  · simp [hdigits, queueLooks_run] at hrun
  · simp only [herror, lift, runOn_fault, Prod.mk.injEq, Except.error.injEq] at hrun
    exact ⟨n, hlong, hrun.1.symm⟩

theorem queueBlockStyle_error (hb : block.Checked .standard) {h : Handle}
    (hrun : (queueBlockStyle ⟨.standard, scorer⟩ h block).runOn host = (.error mishap, left)) :
    ∃ style ∈ blockLook block, ∃ n, style.Overlong n ∧ mishap = .fault (.longInteger n) := by
  rw [queueBlockStyle, runOn_bind, Host.runOn_queue] at hrun
  cases hlook : blockLook block with
  | none => simp [hlook] at hrun
  | some style =>
    simp only [hlook] at hrun
    exact ⟨style, rfl, queueStyle_error (checked_of_mem_blockLook hb hlook) hrun⟩

/-- Only a color can stop the insertion of checked blocks. -/
theorem insertBlocks_error {insert : String → Editing Handle} (hi : Host.Inserting insert)
    (hb : ∀ block ∈ blocks, block.Checked .standard) (hopen : host.isOpen = true)
    (h : (insertBlocks ⟨.standard, scorer⟩ insert blocks).runOn host = (.error mishap, left)) :
    ∃ style ∈ blocks.filterMap blockLook, ∃ n,
      style.Overlong n ∧ mishap = .fault (.longInteger n) := by
  rw [insertBlocks_eq_insertEach] at h
  rcases insertEach_error hi (prepares_queueBlockStyle _) h with
    ⟨_, _, hrefused⟩ | ⟨block, hblock, _, _, _, hfail⟩
  · obtain ⟨_, block, hblock, hw⟩ := hrefused hopen
    simp [isWritable_blockText (hb block hblock)] at hw
  · obtain ⟨style, hstyle, hlong⟩ := queueBlockStyle_error (hb block hblock) hfail
    exact ⟨style, List.mem_filterMap.2 ⟨block, hblock, hstyle⟩, hlong⟩

theorem insertParagraphInBody_eq_ok (hopen : host.isOpen = true) {text : String} {edge : Edge}
    {h : Handle} :
    (Host.insertParagraphInBody text edge).runOn host = (.ok h, mid) ↔
      isWritable text.toList = true ∧ h = ⟨host.document.nextHandle⟩ ∧
        mid = host.queueing (host.document.make text) [.insertInBody h text edge] := by
  simp only [Host.insertParagraphInBody, bind_eq_ok, makeParagraph_eq_ok hopen, Host.runOn_queue,
    runOn_pure, Host.queueing]
  grind

/-- Inserting texts at an end of the body. -/
theorem insertEach_inBody_eq_ok {α : Type} {text : α → String} {dress : Handle → α → Editing Unit}
    {looksOf : α → Option (List Look)} {edge : Edge}
    (hdress : ∀ h a host after, (dress h a).runOn host = (.ok (), after) ↔
      ∃ l, looksOf a = some l ∧ after = host.queueing host.document (l.map (·.effect h)))
    (hopen : host.isOpen = true) {as : List α}
    (h : (insertEach text dress (fun text => Host.insertParagraphInBody text edge) as).runOn host =
      (.ok (), mid)) :
    ∃ items, List.Forall₂ (fun a item => itemOf text looksOf a = some item) as items ∧
      mid = host.queueing (host.document.makeAll (items.map Prod.fst))
        (Document.bodyChain edge
          (Document.insertions host.document.styles host.document.nextHandle items)) := by
  cases as with
  | nil =>
    obtain rfl := (Prod.mk.inj h).2
    exact ⟨[], .nil, by simp [Document.makeAll, Document.insertions, Document.bodyChain,
      Host.queueing]⟩
  | cons a rest =>
    simp only [insertEach, bind_eq_ok, insertParagraphInBody_eq_ok hopen, hdress] at h
    obtain ⟨_, _, ⟨hw, rfl, rfl⟩, _, _, ⟨l, hl, rfl⟩, hrest⟩ := h
    rw [Host.queueing_queueing, insertEach_eq_ok hdress (by simpa using hopen)] at hrest
    obtain ⟨items, hitems, rfl⟩ := hrest
    refine ⟨(text a, l) :: items, .cons (itemOf_eq_some.2 ⟨hw, l, hl, rfl⟩) hitems, ?_⟩
    rw [Host.queueing_queueing]
    rfl

/-! ## Places -/

/-- A place for new paragraphs. -/
inductive Places (d : Document) : (String → Editing Handle) → Prop
  | beside {h : Handle} (side : Side) : h ∈ d.body.listed →
      Places d fun text => Host.insertParagraph text h side
  | inBody (edge : Edge) : Places d fun text => Host.insertParagraphInBody text edge

theorem Places.inserting {d : Document} {insert : String → Editing Handle}
    (h : Places d insert) : Host.Inserting insert := by
  cases h with
  | beside side _ => exact Host.inserting_insertParagraph _ side
  | inBody edge => exact Host.inserting_insertParagraphInBody edge

/-- Checked blocks are inserted at a place. -/
theorem queued_insertBlocks {insert : String → Editing Handle} (hh : host.Ready)
    (hp : Places host.document insert) (hb : ∀ block ∈ blocks, block.Checked .standard)
    (hk : host.document.styles.KnowsBlocks .standard blocks)
    (h : (insertBlocks ⟨.standard, scorer⟩ insert blocks).runOn host = (.ok (), mid)) :
    Queued host mid := by
  rw [insertBlocks_eq_insertEach] at h
  cases hp with
  | beside side hl =>
    obtain ⟨items, hitems, rfl⟩ := (insertEach_eq_ok queueBlockStyle_eq_ok hh.isOpen).1 h
    exact ⟨_, _, rfl, Document.accepts_chain (hh.wellFormed.makeAll _)
      (by simpa using known_of_items hb hk hitems) side (by simpa using hl)
      (Document.awaits_makeAll _ items)⟩
  | inBody edge =>
    obtain ⟨items, hitems, rfl⟩ := insertEach_inBody_eq_ok queueBlockStyle_eq_ok hh.isOpen h
    exact ⟨_, _, rfl, Document.accepts_bodyChain edge (hh.wellFormed.makeAll _)
      (by simpa using known_of_items hb hk hitems) (Document.awaits_makeAll _ items)⟩

/-! ## Insertion points -/

theorem mem_listed_of_mem_passages {d : Document} {p : Passage} (hp : p ∈ d.passages) :
    p.handle ∈ d.body.listed :=
  d.map_handle_passages ▸ List.mem_map_of_mem hp

theorem mem_of_bestFrom {text : String} {best : Option Passage} {score : Heading.Score}
    {passages : List Passage} {p : Passage}
    (h : (Heading.bestFrom scorer text best score passages).1 = some p) :
    best = some p ∨ p ∈ passages := by
  induction passages generalizing best score with
  | nil => exact .inl h
  | cons q rest ih =>
    rw [Heading.bestFrom] at h
    split at h
    · exact .inr (by simp [Option.some.inj h])
    · split at h
      · rcases ih h with hq | hrest
        · exact .inr (by simp [Option.some.inj hq])
        · exact .inr (List.mem_cons_of_mem _ hrest)
      · exact (ih h).imp_right (List.mem_cons_of_mem _)

theorem mem_of_best? {rules : Rules} {passages : List Passage} {text : String} {p : Passage}
    {score : Heading.Score} (h : Heading.best? rules scorer passages text = some (p, score)) :
    p ∈ passages := by
  have hbest : (Heading.bestFrom scorer text none .zero (Heading.headings rules passages)).1 =
      some p := by
    unfold Heading.best? at h
    split at h
    · next heq =>
      rw [heq]
      split at h
      · exact congrArg some (Prod.mk.inj (Option.some.inj h)).1
      · split at h
        · cases h
        · exact congrArg some (Prod.mk.inj (Option.some.inj h)).1
    · cases h
  exact List.mem_of_mem_filter ((mem_of_bestFrom hbest).resolve_left nofun)

theorem mem_of_passageAt {position : Rat} {offset : Nat} {passages : List Passage} {p : Passage}
    (h : passageAt position offset passages = some p) : p ∈ passages := by
  induction passages generalizing offset with
  | nil => cases h
  | cons q rest ih =>
    simp only [passageAt] at h
    split at h
    · simp [Option.some.inj h]
    · exact List.mem_cons_of_mem _ (ih h)

theorem failOutside_error {α : Type} (position : Json) (host : Host) :
    ∃ mishap, (failOutside position : Editing α).runOn host = (.error mishap, host) := by
  rw [failOutside]
  rcases position.display with fault | shown
  · exact ⟨.fault fault, rfl⟩
  · exact ⟨.failure (.positionOutside position shown), rfl⟩

/-- A position outside a document is told when its numeral can be written. -/
theorem failOutside_excused {α : Type} {setting : Setting} {d : Document} {n : Int} {heading : Json}
    (hn : Beyond d n) (anchor : String) (blocks : List Block) (host : Host) : ∃ mishap,
    Excused setting d (.insertText anchor .atPosition heading (.int n) blocks) mishap ∧
      (failOutside (.int n) : Editing α).runOn host = (.error mishap, host) := by
  have hdisplay : (Json.int n).display = Numeral.write n := rfl
  rw [failOutside, hdisplay]
  rcases Nat.lt_or_ge n.natAbs Numeral.bound with hshort | hlong
  · rw [Numeral.write_of_lt hshort]
    exact ⟨_, .absent (.position hn hshort), rfl⟩
  · rw [Numeral.write_of_le hlong]
    exact ⟨_, .overlong (.position hn hlong), rfl⟩

section
variable (hh : host.Ready) {setting : Setting} {anchor : String}
include hh

theorem requireHeading_cases (setting : Setting) (text : String) :
    (∃ p ∈ host.document.passages, (requireHeading setting text).runOn host = (.ok p, host)) ∨
      Heading.best? setting.rules setting.scorer host.document.passages text = none ∧
      (requireHeading setting text).runOn host =
        (.error (.failure (.headingMissing text)), host) := by
  simp only [requireHeading, runOn_bind, hh.paragraphs]
  cases hbest : Heading.best? setting.rules setting.scorer host.document.passages text with
  | none => exact .inr ⟨rfl, rfl⟩
  | some found => exact .inl ⟨found.1, mem_of_best? hbest, rfl⟩

theorem insertAtEdge_cases (anchor : String) (edge : Edge) (location : InsertLocation)
    (heading position : Json) (blocks : List Block) :
    (∃ insert, (insertAtEdge setting anchor edge).runOn host = (.ok insert, host) ∧
      Places host.document insert) ∨
    ∃ f left, Absent setting host.document (.insertText anchor location heading position blocks) f ∧
      (insertAtEdge setting anchor edge).runOn host = (.error (.failure f), left) := by
  rw [insertAtEdge]
  by_cases hd : anchor = setting.rules.defaultAnchor
  · rw [if_pos hd]
    exact .inl ⟨_, rfl, .inBody edge⟩
  · rw [if_neg hd, runOn_bind]
    rcases hresolve : (Anchor.resolve setting.rules anchor).runOn host with ⟨early | found, last⟩
    · obtain ⟨hnone, rfl⟩ := hh.resolve_error hd hresolve
      exact .inr ⟨_, last, .edge hd hnone, rfl⟩
    · obtain ⟨hfound, rfl⟩ := (hh.resolve hd).1 hresolve
      obtain ⟨strategy, _, hattempt⟩ := List.exists_of_findSome?_eq_some hfound
      have hsub := Document.range_subset_of_attempt? hh.wellFormed hattempt
      cases hrange : found.range with
      | nil =>
        exact .inr ⟨_, last, .emptyEdge hd hfound hrange,
          by simp [requireRange, runOn_bind, hrange]⟩
      | cons first others =>
        rw [hrange] at hsub
        obtain ⟨final, hfinal⟩ : ∃ final, (first :: others).getLast? = some final :=
          Option.isSome_iff_exists.1 (by simp)
        refine .inl ?_
        cases edge with
        | start =>
          exact ⟨_, by simp [requireRange, hrange], .beside .before (hsub List.mem_cons_self)⟩
        | stop =>
          exact ⟨_, by simp [requireRange, hrange, hfinal],
            .beside .after (hsub (List.mem_of_getLast? hfinal))⟩

/-- The place that a checked insertion asks for is found, or there is an excuse. -/
theorem insertionPoint_cases {location : InsertLocation} {heading position : Json}
    (blocks : List Block) (hk : location.isKnown = true)
    (hheading : location = .afterHeading → ∃ text, heading = .str text)
    (hposition : location = .atPosition → ∃ n, position = .int n) :
    (∃ insert, (insertionPoint setting anchor location heading position).runOn host =
      (.ok insert, host) ∧ Places host.document insert) ∨
    ∃ mishap left,
      Excused setting host.document (.insertText anchor location heading position blocks) mishap ∧
      (insertionPoint setting anchor location heading position).runOn host =
        (.error mishap, left) := by
  have hedge (edge : Edge) (location : InsertLocation) :
      (∃ insert, (insertAtEdge setting anchor edge).runOn host = (.ok insert, host) ∧
        Places host.document insert) ∨
      ∃ mishap left,
        Excused setting host.document (.insertText anchor location heading position blocks) mishap ∧
        (insertAtEdge setting anchor edge).runOn host = (.error mishap, left) :=
    (insertAtEdge_cases hh anchor edge location heading position blocks).imp_right
      fun ⟨f, left, habsent, hrun⟩ => ⟨.failure f, left, .absent habsent, hrun⟩
  cases location with
  | start => exact hedge .start .start
  | stop => exact hedge .stop .stop
  | other name => cases hk
  | afterHeading =>
    obtain ⟨text, rfl⟩ := hheading rfl
    simp only [insertionPoint, headingText, runOn_bind, runOn_lift_ok]
    rcases requireHeading_cases hh setting text with ⟨p, hp, hfound⟩ | ⟨hnone, hmissing⟩
    · exact .inl ⟨_, by rw [hfound]; rfl, .beside .after (mem_listed_of_mem_passages hp)⟩
    · exact .inr ⟨_, host, .absent (.headingPlace hnone), by rw [hmissing]⟩
  | atPosition =>
    obtain ⟨n, rfl⟩ := hposition rfl
    simp only [insertionPoint, givenPosition, Json.number?, runOn_bind, runOn_lift_ok]
    by_cases hn : (0 : Rat) ≤ (n : Rat)
    · simp only [if_pos hn, runOn_bind, hh.paragraphs, runOn_pure]
      cases hat : passageAt n 0 host.document.passages with
      | none =>
        obtain ⟨mishap, hexcused, hrun⟩ := failOutside_excused (fun _ => hat) anchor blocks host
        exact .inr ⟨mishap, host, hexcused, hrun⟩
      | some p =>
        have hl := mem_listed_of_mem_passages (mem_of_passageAt hat)
        exact .inl ⟨_, by simp, .beside .after hl⟩
    · simp only [if_neg hn]
      have hbelow : ¬0 ≤ n := fun h => hn (by exact_mod_cast h)
      obtain ⟨mishap, hexcused, hrun⟩ := failOutside_excused
        (fun h => absurd h hbelow) anchor blocks host
      exact .inr ⟨mishap, host, hexcused, hrun⟩

end

/-! ## Actions -/

theorem queued_replaceSection (hh : host.Ready) {anchor : String}
    (hb : ∀ block ∈ blocks, block.Checked .standard)
    (hk : host.document.styles.KnowsBlocks .standard blocks)
    (h : (replaceSection ⟨.standard, scorer⟩ anchor blocks).runOn host = (.ok (), mid)) :
    Queued host mid := by
  by_cases hd : anchor = Rules.standard.defaultAnchor
  · rw [replaceSection, if_pos hd, runOn_bind, Host.runOn_queue, insertBlocks_eq_insertEach] at h
    obtain ⟨items, hitems, rfl⟩ :=
      insertEach_inBody_eq_ok queueBlockStyle_eq_ok (by exact hh.isOpen) h
    refine ⟨_, _, Host.queueing_queueing .., ?_⟩
    exact Document.accepts_clearBody .start (hh.wellFormed.makeAll _)
      (by simpa using known_of_items hb hk hitems) (Document.awaits_makeAll _ items)
  · obtain ⟨first, others, hrange, items, hitems, rfl⟩ := (replaceSection_eq_ok hh hd).1 h
    have hsub := Document.range?_sublist hh.wellFormed hrange
    exact ⟨_, _, rfl, Document.accepts_replacement (hh.wellFormed.makeAll _)
      (by simpa using known_of_items hb hk hitems) (hh.wellFormed.nodup_listed.sublist hsub)
      (by simpa using hsub.subset) (Document.awaits_makeAll _ items)⟩

theorem excused_of_insertBlocks {action : Action} {insert : String → Editing Handle} {d : Document}
    (hi : Host.Inserting insert) (hb : ∀ block ∈ blocks, block.Checked .standard)
    (hopen : mid.isOpen = true) (hstyles : action.styles = blocks.filterMap blockLook)
    (h : (insertBlocks ⟨.standard, scorer⟩ insert blocks).runOn mid = (.error mishap, left)) :
    Excused ⟨.standard, scorer⟩ d action mishap := by
  obtain ⟨style, hstyle, n, hlong, rfl⟩ := insertBlocks_error hi hb hopen h
  exact .overlong (.style (hstyles ▸ hstyle) hlong)

theorem replaceSection_error (hh : host.Ready) {anchor : String}
    (hb : ∀ block ∈ blocks, block.Checked .standard)
    (h : (replaceSection ⟨.standard, scorer⟩ anchor blocks).runOn host = (.error mishap, left)) :
    Excused ⟨.standard, scorer⟩ host.document (.replaceSection anchor blocks) mishap := by
  by_cases hd : anchor = Rules.standard.defaultAnchor
  · rw [replaceSection, if_pos hd, runOn_bind, Host.runOn_queue] at h
    exact excused_of_insertBlocks (Host.inserting_insertParagraphInBody .start) hb
      (by exact hh.isOpen) rfl h
  · rw [replaceSection, if_neg hd, runOn_bind] at h
    rcases hrange : (replacedRange ⟨.standard, scorer⟩ anchor).runOn host with ⟨early | range, last⟩
    · simp only [hrange, Prod.mk.injEq, Except.error.injEq] at h
      obtain ⟨rfl, rfl⟩ := h
      obtain ⟨hnone, ⟨rfl, rfl⟩ | rfl | ⟨rfl, marker, hmarker, row, htag, hrow, hlong, rfl⟩⟩ :=
        hh.replacedRange_error hh.wellFormed.nodup_listed hd hrange
      · exact .absent (.selection hnone)
      · exact .absent (.range hd hnone)
      · exact .overlong (.selection hmarker htag hrow hlong)
    · obtain ⟨hrange', rfl⟩ := (hh.replacedRange hh.wellFormed.nodup_listed hd).1 hrange
      simp only [hrange] at h
      cases range with
      | nil =>
        simp only [requireRange, List.isEmpty_nil, if_true, runOn_bind, runOn_failure,
          Prod.mk.injEq, Except.error.injEq] at h
        exact h.1 ▸ .absent (.emptyRange hd hrange')
      | cons first others =>
        simp only [requireRange, List.isEmpty_cons, Bool.false_eq_true, if_false, pure_bind,
          runOn_bind, clearRange_run] at h
        -- The range is there and its clearing is queued: only the blocks can still be refused.
        rcases hblocks : (insertBlocks ⟨.standard, scorer⟩
            (fun text => Host.insertParagraph text first .before) blocks).runOn
              (last.queueing last.document [.clearRange first others]) with ⟨late | _, ready⟩
        · simp only [hblocks, Prod.mk.injEq, Except.error.injEq] at h
          obtain ⟨rfl, rfl⟩ := h
          exact excused_of_insertBlocks (Host.inserting_insertParagraph first .before) hb
            (by exact hh.isOpen) rfl hblocks
        · simp [hblocks] at h

section
variable (hh : host.Ready) {anchor : String} {location : InsertLocation} {heading position : Json}
  (hk : location.isKnown = true) (hheading : location = .afterHeading → ∃ text, heading = .str text)
  (hposition : location = .atPosition → ∃ n, position = .int n)
  (hb : ∀ block ∈ blocks, block.Checked .standard)
include hh hk hheading hposition hb

theorem queued_insertText (hs : host.document.styles.KnowsBlocks .standard blocks)
    (h : (insertText ⟨.standard, scorer⟩ anchor location heading position blocks).runOn host =
      (.ok (), mid)) : Queued host mid := by
  rw [insertText, runOn_bind] at h
  rcases insertionPoint_cases hh blocks hk hheading hposition with
    ⟨insert, hfound, hp⟩ | ⟨f, last, _, hmissing⟩
  · rw [hfound] at h
    exact queued_insertBlocks hh hp hb hs h
  · simp [hmissing] at h

theorem insertText_error
    (h : (insertText ⟨.standard, scorer⟩ anchor location heading position blocks).runOn host =
      (.error mishap, left)) :
    Excused ⟨.standard, scorer⟩ host.document
      (.insertText anchor location heading position blocks) mishap := by
  rw [insertText, runOn_bind] at h
  rcases insertionPoint_cases hh blocks hk hheading hposition with
    ⟨insert, hfound, hp⟩ | ⟨f, last, hf, hmissing⟩
  · rw [hfound] at h
    exact excused_of_insertBlocks hp.inserting hb hh.isOpen rfl h
  · simp only [hmissing, Prod.mk.injEq, Except.error.injEq] at h
    exact h.1 ▸ hf

end

/-! ## Ends -/

/-- When the work succeeds, it has queued effects that all succeed; when it does not, there is an
excuse for the action it belongs to. -/
structure Ends (scorer : Heading.Scorer) (action : Action) (host : Host) (work : Editing Unit) :
    Prop where
  queued : ∀ mid, work.runOn host = (.ok (), mid) → Queued host mid
  excused : ∀ mishap left, work.runOn host = (.error mishap, left) →
    Excused ⟨.standard, scorer⟩ host.document action mishap

namespace Ends

variable {action : Action} {work other : Editing Unit}

theorem of_queued (h : work.runOn host = (.ok (), mid)) (hq : Queued host mid) :
    Ends scorer action host work := by
  refine ⟨fun ready hready => ?_, fun mishap left herror => ?_⟩
  · exact (Prod.mk.inj (h.symm.trans hready)).2 ▸ hq
  · simp [h] at herror

theorem of_excused (h : work.runOn host = (.error mishap, left))
    (he : Excused ⟨.standard, scorer⟩ host.document action mishap) :
    Ends scorer action host work := by
  refine ⟨fun ready hready => ?_, fun mishap left herror => ?_⟩
  · simp [h] at hready
  · exact Except.error.inj (Prod.mk.inj (h.symm.trans herror)).1 ▸ he

theorem congr (h : work.runOn host = other.runOn host) (ho : Ends scorer action host other) :
    Ends scorer action host work :=
  ⟨fun ready hready => ho.queued ready (h ▸ hready),
    fun mishap left herror => ho.excused mishap left (h ▸ herror)⟩

end Ends

theorem ends_correctText (hh : host.Ready) {search replacement : String} {matchCase : Option Bool}
    (hreturn : host.document.SparesReturns search.toList (matchCase.getD false)) (hs : search ≠ "")
    (hw : isWritable replacement.toList = true) :
    Ends scorer (.correctText search replacement matchCase) host
      (correctText search replacement (matchCase.getD false)) := by
  have hs : search.toList ≠ [] := by simpa using hs
  by_cases hfound : ∃ p ∈ host.document.paragraphs,
      Occurs (matchCase.getD false) search.toList p.content.runText
  · obtain ⟨r, hr, hbecomes⟩ :=
      Document.becomes_all_corrections (matchCase.getD false) hh.wellFormed hreturn hs hw
    refine .of_queued (correctText_found hh.toAnswers hs hfound)
      ⟨host.document, _, rfl, _, hbecomes, ?_⟩
    exact hh.wellFormed.edited fun p hp => (hr p hp).toIsEdit
  · have hnone : ∀ p ∈ host.document.paragraphs,
        ¬ Occurs (matchCase.getD false) search.toList p.content.runText :=
      fun p hp ho => hfound ⟨p, hp, ho⟩
    exact .of_excused (correctText_missing hh.toAnswers hs hnone) (.absent (.text hnone))

theorem queueAllLooks_run (looks : List Look) (targets : List Passage) (host : Host) :
    (targets.forM fun p => queueLooks p.handle looks).runOn host =
      (.ok (), host.queueing host.document
        ((targets.map (·.handle)).flatMap fun h => looks.map (·.effect h))) := by
  induction targets generalizing host with
  | nil => simp [Host.queueing]
  | cons p rest ih =>
    change (queueLooks p.handle looks >>= fun _ => rest.forM _).runOn host = _
    rw [runOn_bind, queueLooks_run]
    exact (ih _).trans (by simp)

/-- A color whose digits cannot be told stops the work at the first paragraph. -/
theorem queueStyles_error {setting : Setting} {targets : List Passage} (hne : targets ≠ [])
    {f : Fault} (hf : colorDigits setting style = .error f) :
    (targets.forM fun p => queueStyle setting p.handle style).runOn host =
      (.error (.fault f), host) := by
  cases targets with
  | nil => exact absurd rfl hne
  | cons p rest =>
    have hfirst : (queueStyle setting p.handle style).runOn host = (.error (.fault f), host) := by
      rw [queueStyle_eq, runOn_bind, hf]
      rfl
    change (queueStyle _ _ _ >>= fun _ => rest.forM _).runOn host = _
    rw [runOn_bind, hfirst]

/-- Paragraphs of the document are given a checked style, unless its color is too long. -/
theorem ends_queueStyles (scorer : Heading.Scorer) (hh : host.Ready)
    (hs : style.Checked .standard) {action : Action} (hstyle : style ∈ action.styles)
    {targets : List Passage} (ht : targets ⊆ host.document.passages) :
    Ends scorer action host
      (targets.forM fun p => queueStyle ⟨.standard, scorer⟩ p.handle style) := by
  rcases colorDigits_cases scorer hs with ⟨digits, hdigits⟩ | ⟨n, hlong, herror⟩
  · refine .congr ?_ (.of_queued (queueAllLooks_run (styleLooks digits style) targets host)
      ⟨_, _, rfl, Document.accepts_looks hh.wellFormed (known_of_styleLooks hs hdigits) ?_⟩)
    · simp only [queueStyle_eq, hdigits]
      rfl
    · intro h hmem
      obtain ⟨p, hp, rfl⟩ := List.mem_map.1 hmem
      exact mem_listed_of_mem_passages (ht hp)
  · by_cases hne : targets = []
    · subst hne
      exact .of_queued rfl ⟨host.document, [], by simp [Host.queueing], _, rfl, hh.wellFormed⟩
    · exact .of_excused (queueStyles_error hne herror) (.overlong (.style hstyle hlong))

theorem ends_updateHeadingStyle (hh : host.Ready) {target : HeadingTarget} {heading : Json}
    (hheading : target = .specific → ∃ text, heading = .str text) (hs : style.Checked .standard) :
    Ends scorer (.updateHeadingStyle target heading style) host
      (updateHeadingStyle ⟨.standard, scorer⟩ target heading style) := by
  have hmine : style ∈ (Action.updateHeadingStyle target heading style).styles :=
    List.mem_cons_self
  by_cases ht : target = .specific
  · subst ht
    obtain ⟨text, rfl⟩ := hheading rfl
    rcases requireHeading_cases hh ⟨.standard, scorer⟩ text with ⟨p, hp, hfound⟩ | ⟨hnone, hmissing⟩
    · refine .congr ?_ (ends_queueStyles scorer hh hs hmine
        (List.cons_subset.2 ⟨hp, List.nil_subset _⟩))
      simp [updateHeadingStyle, headingText, runOn_bind, hfound]
    · have hrun : (updateHeadingStyle ⟨.standard, scorer⟩ .specific (.str text) style).runOn host =
          (.error (.failure (.headingMissing text)), host) := by
        simp [updateHeadingStyle, headingText, runOn_bind, hmissing]
      exact .of_excused hrun (.absent (.headingStyle hnone))
  · have hsub : Heading.headings .standard host.document.passages ⊆ host.document.passages :=
      List.filter_subset_self _
    refine .congr ?_ (ends_queueStyles scorer hh hs hmine hsub)
    cases target with
    | specific => exact absurd rfl ht
    | _ => simp only [updateHeadingStyle, runOn_bind, hh.paragraphs, runOn_pure]

theorem ends_updateTextFormat (hh : host.Ready) {target : FormatTarget}
    (hs : style.Checked .standard) : Ends scorer (.updateTextFormat target style) host
      (updateTextFormat ⟨.standard, scorer⟩ target style) := by
  have hsub : host.document.passages.filter (isMeant .standard target) ⊆ host.document.passages :=
    List.filter_subset_self _
  refine .congr ?_ (ends_queueStyles scorer hh hs List.mem_cons_self hsub)
  simp only [updateTextFormat, runOn_bind, hh.paragraphs]

/-- Every checked action, run as what it is on a document that suits it, queues effects that all
succeed or has an excuse. -/
theorem ends_perform (scorer : Heading.Scorer) {action : Action} (hh : host.Ready)
    (hc : action.Checked .standard) (hs : host.document.Suits .standard action) :
    Ends scorer action host (perform ⟨.standard, scorer⟩ action.kind action) := by
  cases hc with
  | replaceSection hb =>
    exact ⟨fun _ => queued_replaceSection hh hb hs, fun _ _ => replaceSection_error hh hb⟩
  | insertText hk hheading hposition hb =>
    exact ⟨fun _ => queued_insertText hh hk hheading hposition hb hs,
      fun _ _ => insertText_error hh hk hheading hposition hb⟩
  | correctText hsearch hw => exact ends_correctText hh hs hsearch hw
  | updateHeadingStyle hheading hstyle => exact ends_updateHeadingStyle hh hheading hstyle
  | updateTextFormat hstyle => exact ends_updateTextFormat hh hstyle

end Execution

end Redline
