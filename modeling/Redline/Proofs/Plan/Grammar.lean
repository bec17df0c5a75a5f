import Mathlib.Data.List.Forall2
import Redline.Plan.Check

/-!
# The grammar of edit plans

What a value has to be to be an edit plan, said twice and without a word on reading: the grammar
says which values are plans, field by field, and a value gives a plan when its fields hold what the
plan is made of.  A value is a plan exactly if it gives one.

## Main definitions

* `Json.IsStyle`, `Json.IsBlock`, `Json.IsAction`, `Json.IsEditPlan` — the grammar.
* `Json.GivesStyle`, `Json.GivesBlock`, `Json.GivesAction`, `Json.GivesPlan` — a value and what it
  is read as.
-/

namespace Redline

/-- The text is not longer than texts may be. -/
def Rules.Admits (rules : Rules) (text : String) : Prop := (text.length : Int) ≤ rules.maxChars

instance (rules : Rules) (text : String) : Decidable (rules.Admits text) :=
  inferInstanceAs (Decidable ((text.length : Int) ≤ rules.maxChars))

namespace Json

/-! ## Which values are plans -/

/-- A text that is more than blanks and not too long. -/
def IsVisible (rules : Rules) (value : Json) : Prop :=
  ∃ text, value = .str text ∧ Text.allBlank text.toList = false ∧ rules.Admits text

/-- A text that is not empty and not too long. -/
def IsText (rules : Rules) (value : Json) : Prop :=
  ∃ text, value = .str text ∧ text ≠ "" ∧ rules.Admits text

/-- A style: an object whose fields hold nothing or what is known of looks. -/
structure IsStyle (rules : Rules) (value : Json) : Prop where
  object : ∃ fields, value = .obj fields
  color : value.getD "color" = .null ∨
    ∃ color, value.getD "color" = .str color ∧ Color.isValid rules.namedColors color = true
  alignment : value.getD "alignment" = .null ∨
    ∃ name ∈ ["left", "center", "right", "justify"], value.getD "alignment" = .str name
  bold : value.getD "bold" = .null ∨ ∃ bold, value.getD "bold" = .bool bold

/-- A paragraph or a heading; its style may be missing. -/
inductive IsBlock (rules : Rules) (value : Json) : Prop
  | paragraph (text : String) : value.getD "type" = .str "paragraph" →
      value.getD "text" = .str text → text ≠ "" → rules.Admits text →
      '\n' ∉ text.toList → '\r' ∉ text.toList →
      (value.getD "style" = .null ∨ (value.getD "style").IsStyle rules) → IsBlock rules value
  | heading (level : Int) : value.getD "type" = .str "heading" →
      (value.getD "text").IsText rules → value.getD "level" = .int level → 1 ≤ level → level ≤ 3 →
      (value.getD "style" = .null ∨ (value.getD "style").IsStyle rules) → IsBlock rules value

/-- A list of blocks that is neither empty nor too long. -/
def AreBlocks (rules : Rules) (value : Json) : Prop :=
  ∃ items, value = .arr items ∧ items ≠ [] ∧ (items.length : Int) ≤ rules.maxBlocks ∧
    ∀ item ∈ items, item.IsBlock rules

/-- An action of one of the five types. -/
inductive IsAction (rules : Rules) (value : Json) : Prop
  | replaceSection : value.getD "type" = .str "replace_section" →
      (value.getD "anchor").IsVisible rules → (value.getD "blocks").AreBlocks rules →
      IsAction rules value
  | updateHeadingStyle (target : String) : value.getD "type" = .str "update_heading_style" →
      target ∈ ["all", "specific"] → value.getD "target" = .str target →
      (target = "specific" → (value.getD "heading_text").IsVisible rules) →
      (value.getD "style").IsStyle rules → IsAction rules value
  | updateTextFormat (target : String) : value.getD "type" = .str "update_text_format" →
      target ∈ ["all", "headings", "paragraphs"] → value.getD "target" = .str target →
      (value.getD "style").IsStyle rules → IsAction rules value
  | correctText (replacement : String) : value.getD "type" = .str "correct_text" →
      (value.getD "search_text").IsText rules →
      value.getD "replacement_text" = .str replacement → rules.Admits replacement →
      (value.getD "case_sensitive" = .null ∨ ∃ b, value.getD "case_sensitive" = .bool b) →
      IsAction rules value
  | insertText (location : String) : value.getD "type" = .str "insert_text" →
      (value.getD "anchor").IsVisible rules →
      location ∈ ["start", "end", "after_heading", "at_position"] →
      value.getD "location" = .str location →
      (location = "after_heading" → (value.getD "heading_text").IsVisible rules) →
      (location = "at_position" → ∃ n, value.getD "position" = .int n) →
      (value.getD "blocks").AreBlocks rules → IsAction rules value

/-- An edit plan: the version and a list of actions.  Only a plan with actions is held to the limit
of their number and to having no other fields. -/
def IsEditPlan (rules : Rules) (value : Json) : Prop :=
  ∃ fields items, value = .obj fields ∧ value.getD "version" = .str "1.0" ∧
    value.getD "actions" = .arr items ∧
    (items = [] ∨ ((items.length : Int) ≤ rules.maxActions ∧
      (∀ field ∈ fields, field.1 = "version" ∨ field.1 = "actions") ∧
      ∀ item ∈ items, item.IsAction rules))

/-! ## What values give -/

/-- The value of an optional truth value. -/
def ofBool? (b : Option Bool) : Json := (b.map Json.bool).getD .null

/-- The fields of the value hold the style. -/
structure GivesStyle (rules : Rules) (value : Json) (style : Style) : Prop where
  object : ∃ fields, value = .obj fields
  color : value.getD "color" = ofString? style.color
  alignment : value.getD "alignment" = ofString? style.alignment
  bold : value.getD "bold" = ofBool? style.bold
  valid : ∀ color ∈ style.color, Color.isValid rules.namedColors color = true
  known : ∀ name ∈ style.alignment, name ∈ alignmentNames

/-- The value holds the style, or nothing if there is none. -/
def GivesStyle? (rules : Rules) (value : Json) : Option Style → Prop
  | none => value = .null
  | some style => value.GivesStyle rules style

/-- The fields of the value hold the block. -/
inductive GivesBlock (rules : Rules) (value : Json) : Block → Prop
  | paragraph {text : String} {style : Option Style} : value.getD "type" = .str "paragraph" →
      value.getD "text" = .str text → text ≠ "" → rules.Admits text →
      Check.hasLineBreak text = false → (value.getD "style").GivesStyle? rules style →
      GivesBlock rules value (.paragraph text style)
  | heading {text : String} {level : Int} {style : Option Style} :
      value.getD "type" = .str "heading" → value.getD "text" = .str text → text ≠ "" →
      rules.Admits text → value.getD "level" = .int level → 1 ≤ level → level ≤ 3 →
      (value.getD "style").GivesStyle? rules style →
      GivesBlock rules value (.heading text level style)

/-- The value is a list that holds the blocks. -/
def GivesBlocks (rules : Rules) (value : Json) (blocks : List Block) : Prop :=
  ∃ items, value = .arr items ∧ items ≠ [] ∧ (items.length : Int) ≤ rules.maxBlocks ∧
    List.Forall₂ (GivesBlock rules) items blocks

/-- The fields of the value hold the parts of the action, apart from its type. -/
inductive GivesParts (rules : Rules) (value : Json) : Action → Prop
  | replaceSection {anchor : String} {blocks : List Block} :
      value.getD "anchor" = .str anchor → (Json.str anchor).IsVisible rules →
      (value.getD "blocks").GivesBlocks rules blocks →
      GivesParts rules value (.replaceSection anchor blocks)
  | updateHeadingStyle {target : HeadingTarget} {heading : Json} {style : Style} :
      target.isKnown = true → value.getD "target" = .str target.name →
      value.getD "heading_text" = heading → (target = .specific → heading.IsVisible rules) →
      (value.getD "style").GivesStyle rules style →
      GivesParts rules value (.updateHeadingStyle target heading style)
  | updateTextFormat {target : FormatTarget} {style : Style} : target.isKnown = true →
      value.getD "target" = .str target.name → (value.getD "style").GivesStyle rules style →
      GivesParts rules value (.updateTextFormat target style)
  | correctText {search replacement : String} {matchCase : Option Bool} :
      value.getD "search_text" = .str search → search ≠ "" → rules.Admits search →
      value.getD "replacement_text" = .str replacement → rules.Admits replacement →
      value.getD "case_sensitive" = ofBool? matchCase →
      GivesParts rules value (.correctText search replacement matchCase)
  | insertText {anchor : String} {location : InsertLocation} {heading position : Json}
      {blocks : List Block} :
      value.getD "anchor" = .str anchor → (Json.str anchor).IsVisible rules →
      location.isKnown = true → value.getD "location" = .str location.name →
      value.getD "heading_text" = heading → (location = .afterHeading → heading.IsVisible rules) →
      value.getD "position" = position → (location = .atPosition → ∃ n, position = .int n) →
      (value.getD "blocks").GivesBlocks rules blocks →
      GivesParts rules value (.insertText anchor location heading position blocks)

/-- The fields of the value hold the action. -/
structure GivesAction (rules : Rules) (value : Json) (action : Action) : Prop where
  type : value.getD "type" = .str action.kind.name
  parts : value.GivesParts rules action

/-- The fields of the value hold the plan. -/
def GivesPlan (rules : Rules) (value : Json) (plan : EditPlan) : Prop :=
  ∃ fields items, value = .obj fields ∧ value.getD "version" = .str EditPlan.version ∧
    value.getD "actions" = .arr items ∧
    (items = [] ∨ ((items.length : Int) ≤ rules.maxActions ∧
      ∀ field ∈ fields, field.1 ∈ Check.planFields)) ∧
    List.Forall₂ (GivesAction rules) items plan.actions

/-! ## Values and their fields -/

variable {value : Json} {key text : String}

theorem str?_eq_some_iff : value.str? = some text ↔ value = .str text := by
  cases value <;> simp [str?]

/-- Only objects have fields that are texts. -/
theorem fields?_of_getD_str (h : value.getD key = .str text) : value.fields?.isNone = false := by
  cases value <;> simp_all [getD, get?, fields?]

end Json

/-! ## Names -/

theorem HeadingTarget.ofName_name {target : HeadingTarget} (h : target.isKnown = true) :
    ofName target.name = target := by
  cases target <;> first | rfl | cases h

theorem FormatTarget.ofName_name {target : FormatTarget} (h : target.isKnown = true) :
    ofName target.name = target := by
  cases target <;> first | rfl | cases h

theorem InsertLocation.ofName_name {location : InsertLocation} (h : location.isKnown = true) :
    ofName location.name = location := by
  cases location <;> first | rfl | cases h

theorem ActionKind.ofName?_name (kind : ActionKind) : ofName? kind.name = some kind := by
  cases kind <;> decide

theorem ActionKind.name_of_ofName? {name : String} {kind : ActionKind}
    (h : ofName? name = some kind) : kind.name = name := by
  simpa using List.find?_some h

/-! ## Values of the grammar give plans -/

namespace Json

variable {rules : Rules} {value : Json}

theorem isStyle_iff : value.IsStyle rules ↔ ∃ style, value.GivesStyle rules style := by
  constructor
  · rintro ⟨hobject, hcolor, halignment, hbold⟩
    have hcolor : ∃ color, value.getD "color" = ofString? color ∧
        ∀ c ∈ color, Color.isValid rules.namedColors c = true := by
      rcases hcolor with h | ⟨c, h, hvalid⟩
      · exact ⟨none, h, by simp⟩
      · exact ⟨some c, h, by simpa using hvalid⟩
    have halignment : ∃ alignment, value.getD "alignment" = ofString? alignment ∧
        ∀ name ∈ alignment, name ∈ alignmentNames := by
      rcases halignment with h | ⟨name, hname, h⟩
      · exact ⟨none, h, by simp⟩
      · exact ⟨some name, h, by simpa [alignmentNames] using hname⟩
    have hbold : ∃ bold, value.getD "bold" = ofBool? bold := by
      rcases hbold with h | ⟨b, h⟩
      · exact ⟨none, h⟩
      · exact ⟨some b, h⟩
    obtain ⟨color, hcolor, hvalid⟩ := hcolor
    obtain ⟨alignment, halignment, hknown⟩ := halignment
    obtain ⟨bold, hbold⟩ := hbold
    exact ⟨⟨color, alignment, bold⟩, hobject, hcolor, halignment, hbold, hvalid, hknown⟩
  · rintro ⟨⟨color, alignment, bold⟩, hobject, hcolor, halignment, hbold, hvalid, hknown⟩
    refine ⟨hobject, ?_, ?_, ?_⟩
    · cases color with
      | none => exact .inl hcolor
      | some c => exact .inr ⟨c, hcolor, hvalid c rfl⟩
    · cases alignment with
      | none => exact .inl halignment
      | some name => exact .inr ⟨name, hknown name rfl, halignment⟩
    · cases bold with
      | none => exact .inl hbold
      | some b => exact .inr ⟨b, hbold⟩

theorem isStyle?_iff :
    value = .null ∨ value.IsStyle rules ↔ ∃ style, value.GivesStyle? rules style := by
  constructor
  · rintro (h | h)
    · exact ⟨none, h⟩
    · obtain ⟨style, hstyle⟩ := isStyle_iff.1 h
      exact ⟨some style, hstyle⟩
  · rintro ⟨_ | style, h⟩
    · exact .inl h
    · exact .inr (isStyle_iff.2 ⟨style, h⟩)

theorem hasLineBreak_eq_false_iff {text : String} :
    Check.hasLineBreak text = false ↔ '\n' ∉ text.toList ∧ '\r' ∉ text.toList := by
  simp only [Check.hasLineBreak, List.any_eq_false, Bool.or_eq_true, beq_iff_eq, not_or]
  exact ⟨fun h => ⟨fun hn => (h _ hn).1 rfl, fun hr => (h _ hr).2 rfl⟩,
    fun h c hc => ⟨fun he => h.1 (he ▸ hc), fun he => h.2 (he ▸ hc)⟩⟩

theorem isBlock_iff : value.IsBlock rules ↔ ∃ block, value.GivesBlock rules block := by
  constructor
  · intro h
    cases h with
    | paragraph text htype htext hne hlength hline hreturn hstyle =>
      obtain ⟨style, hstyle⟩ := isStyle?_iff.1 hstyle
      exact ⟨_, .paragraph htype htext hne hlength
        (hasLineBreak_eq_false_iff.2 ⟨hline, hreturn⟩) hstyle⟩
    | heading level htype htext hlevel hone hthree hstyle =>
      obtain ⟨text, htext, hne, hlength⟩ := htext
      obtain ⟨style, hstyle⟩ := isStyle?_iff.1 hstyle
      exact ⟨_, .heading htype htext hne hlength hlevel hone hthree hstyle⟩
  · rintro ⟨block, h⟩
    cases h with
    | paragraph htype htext hne hlength hbreak hstyle =>
      obtain ⟨hline, hreturn⟩ := hasLineBreak_eq_false_iff.1 hbreak
      exact .paragraph _ htype htext hne hlength hline hreturn (isStyle?_iff.2 ⟨_, hstyle⟩)
    | heading htype htext hne hlength hlevel hone hthree hstyle =>
      exact .heading _ htype ⟨_, htext, hne, hlength⟩ hlevel hone hthree
        (isStyle?_iff.2 ⟨_, hstyle⟩)

/-- Every item gives something exactly if the list gives a list. -/
theorem forall_iff_exists_forall₂ {α : Type} {gives : Json → α → Prop} {items : List Json} :
    (∀ item ∈ items, ∃ a, gives item a) ↔ ∃ results, List.Forall₂ gives items results := by
  induction items with
  | nil => simp
  | cons item rest ih =>
    rw [List.forall_mem_cons, ih]
    constructor
    · rintro ⟨⟨a, ha⟩, results, hresults⟩
      exact ⟨a :: results, .cons ha hresults⟩
    · rintro ⟨_, h⟩
      cases h with
      | cons ha hresults => exact ⟨⟨_, ha⟩, _, hresults⟩

/-- Whatever is given is given by one of the items. -/
theorem exists_mem_of_forall₂ {α : Type} {gives : Json → α → Prop} {items : List Json}
    {results : List α} (h : List.Forall₂ gives items results) {a : α} (ha : a ∈ results) :
    ∃ item ∈ items, gives item a := by
  induction h with
  | nil => cases ha
  | cons hfirst _ ih =>
    rcases List.mem_cons.1 ha with rfl | ha
    · exact ⟨_, List.mem_cons_self, hfirst⟩
    · obtain ⟨item, hitem, hgives⟩ := ih ha
      exact ⟨item, List.mem_cons_of_mem _ hitem, hgives⟩

theorem areBlocks_iff : value.AreBlocks rules ↔ ∃ blocks, value.GivesBlocks rules blocks := by
  simp only [AreBlocks, GivesBlocks, isBlock_iff, forall_iff_exists_forall₂]
  constructor
  · rintro ⟨items, hitems, hne, hmany, blocks, hblocks⟩
    exact ⟨blocks, items, hitems, hne, hmany, hblocks⟩
  · rintro ⟨blocks, items, hitems, hne, hmany, hblocks⟩
    exact ⟨items, hitems, hne, hmany, blocks, hblocks⟩

theorem isAction_iff : value.IsAction rules ↔ ∃ action, value.GivesAction rules action := by
  constructor
  · intro h
    cases h with
    | replaceSection htype hanchor hblocks =>
      obtain ⟨blocks, hblocks⟩ := areBlocks_iff.1 hblocks
      have hvisible := hanchor
      obtain ⟨anchor, hanchor, -⟩ := hanchor
      rw [hanchor] at hvisible
      exact ⟨.replaceSection anchor blocks, htype, .replaceSection hanchor hvisible hblocks⟩
    | updateHeadingStyle name htype hknown hname hheading hstyle =>
      obtain ⟨style, hstyle⟩ := isStyle_iff.1 hstyle
      refine ⟨.updateHeadingStyle (.ofName name) _ style, htype,
        .updateHeadingStyle ?_ ?_ rfl (fun ht => ?_) hstyle⟩
      · rcases List.mem_pair.1 hknown with rfl | rfl <;> rfl
      · rw [HeadingTarget.name_ofName, hname]
      · exact hheading (by rw [← HeadingTarget.name_ofName name, ht]; rfl)
    | updateTextFormat name htype hknown hname hstyle =>
      obtain ⟨style, hstyle⟩ := isStyle_iff.1 hstyle
      refine ⟨.updateTextFormat (.ofName name) style, htype, .updateTextFormat ?_ ?_ hstyle⟩
      · simp only [List.mem_cons, List.not_mem_nil, or_false] at hknown
        rcases hknown with rfl | rfl | rfl <;> rfl
      · rw [FormatTarget.name_ofName, hname]
    | correctText replacement htype hsearch hreplacement hlength hcase =>
      obtain ⟨search, hsearch, hne, hlength'⟩ := hsearch
      obtain ⟨matchCase, hcase⟩ : ∃ b, value.getD "case_sensitive" = ofBool? b := by
        rcases hcase with h | ⟨b, h⟩
        · exact ⟨none, h⟩
        · exact ⟨some b, h⟩
      exact ⟨.correctText search replacement matchCase, htype,
        .correctText hsearch hne hlength' hreplacement hlength hcase⟩
    | insertText name htype hanchor hknown hname hheading hposition hblocks =>
      obtain ⟨blocks, hblocks⟩ := areBlocks_iff.1 hblocks
      have hvisible := hanchor
      obtain ⟨anchor, hanchor, -⟩ := hanchor
      rw [hanchor] at hvisible
      refine ⟨.insertText anchor (.ofName name) _ _ blocks, htype,
        .insertText hanchor hvisible ?_ ?_ rfl (fun hl => ?_) rfl (fun hl => ?_) hblocks⟩
      · simp only [List.mem_cons, List.not_mem_nil, or_false] at hknown
        rcases hknown with rfl | rfl | rfl | rfl <;> rfl
      · rw [InsertLocation.name_ofName, hname]
      · exact hheading (by rw [← InsertLocation.name_ofName name, hl]; rfl)
      · exact hposition (by rw [← InsertLocation.name_ofName name, hl]; rfl)
  · rintro ⟨action, htype, hparts⟩
    cases hparts with
    | replaceSection hanchor hvisible hblocks =>
      exact .replaceSection htype (hanchor ▸ hvisible) (areBlocks_iff.2 ⟨_, hblocks⟩)
    | @updateHeadingStyle target heading style hknown hname htext hheading hstyle =>
      subst htext
      refine .updateHeadingStyle target.name htype ?_ hname (fun ht => hheading ?_)
        (isStyle_iff.2 ⟨_, hstyle⟩)
      · cases target <;> simp_all [HeadingTarget.name, HeadingTarget.isKnown]
      · rw [← HeadingTarget.ofName_name hknown, ht]
        rfl
    | @updateTextFormat target style hknown hname hstyle =>
      refine .updateTextFormat target.name htype ?_ hname (isStyle_iff.2 ⟨_, hstyle⟩)
      cases target <;> simp_all [FormatTarget.name, FormatTarget.isKnown]
    | @correctText _ _ matchCase hsearch hne hlength hreplacement hlength' hcase =>
      refine .correctText _ htype ⟨_, hsearch, hne, hlength⟩ hreplacement hlength' ?_
      cases matchCase with
      | none => exact .inl hcase
      | some b => exact .inr ⟨b, hcase⟩
    | @insertText _ location _ _ _ hanchor hvisible hknown hname htext hheading hplace hposition
        hblocks =>
      subst htext hplace
      refine .insertText location.name htype (hanchor ▸ hvisible) ?_ hname (fun hl => hheading ?_)
        (fun hl => hposition ?_) (areBlocks_iff.2 ⟨_, hblocks⟩)
      · cases location <;> simp_all [InsertLocation.name, InsertLocation.isKnown]
      · rw [← InsertLocation.ofName_name hknown, hl]
        rfl
      · rw [← InsertLocation.ofName_name hknown, hl]
        rfl

theorem isEditPlan_iff : value.IsEditPlan rules ↔ ∃ plan, value.GivesPlan rules plan := by
  have hfields : ∀ fields : Json.Fields, (∀ field ∈ fields, field.1 ∈ Check.planFields) ↔
      ∀ field ∈ fields, field.1 = "version" ∨ field.1 = "actions" := by
    simp [Check.planFields]
  constructor
  · rintro ⟨fields, items, hobject, hversion, hactions, hcase⟩
    have hall : ∀ item ∈ items, ∃ action, item.GivesAction rules action := by
      rcases hcase with rfl | ⟨-, -, h⟩
      · simp
      · exact fun item hi => isAction_iff.1 (h item hi)
    obtain ⟨actions, hgives⟩ := forall_iff_exists_forall₂.1 hall
    refine ⟨⟨actions⟩, fields, items, hobject, hversion, hactions, ?_, hgives⟩
    exact hcase.imp_right fun h => ⟨h.1, (hfields fields).2 h.2.1⟩
  · rintro ⟨plan, fields, items, hobject, hversion, hactions, hcase, hgives⟩
    have hall := forall_iff_exists_forall₂.2 ⟨plan.actions, hgives⟩
    refine ⟨fields, items, hobject, hversion, hactions, hcase.imp_right fun h => ?_⟩
    exact ⟨h.1, (hfields fields).1 h.2, fun item hi => isAction_iff.2 (hall item hi)⟩

end Json

end Redline
