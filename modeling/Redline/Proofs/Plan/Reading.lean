import Redline.Plan.Draft
import Redline.Proofs.Editing
import Redline.Proofs.Plan.Grammar

/-!
# Reading the grammar

Reading finds in a value exactly what the value gives, so it accepts exactly the values of the
grammar.  Each reader has one law that says so, which follows from those of the readers it calls.
What a value of the grammar gives can also be taken apart without any check, and comes out the same.

## Main results

* `Check.readEditPlan_eq_ok_iff` — a value is read as a plan exactly if it gives the plan.
* `Check.readEditPlan_accepts_grammar` — a value is read as some plan exactly if the grammar has it.
-/

namespace Redline

open Editing

open Json

/-! ## Reading what a value gives -/

namespace Check

variable {rules : Rules} {value : Json} {path : String}

theorem reject_ne_ok {α : Type} {violation : Violation} {a : α} :
    reject path violation ≠ .ok a := nofun

theorem limited_eq_ok_iff {what : LimitedText} {text read : String} :
    limited rules path what text = .ok read ↔ text = read ∧ rules.Admits text := by
  unfold limited Rules.Admits
  by_cases hlong : (text.length : Int) > rules.maxChars
  · rw [if_pos hlong]
    exact iff_of_false reject_ne_ok fun h => absurd h.2 (by omega)
  · rw [if_neg hlong, Except.ok.injEq]
    exact (and_iff_left (by omega)).symm

theorem visibleText?_eq_some_iff {text : String} :
    visibleText? value = some text ↔ value = .str text ∧ Text.allBlank text.toList = false := by
  cases value with
  | str found =>
    by_cases hblank : Text.allBlank found.toList = true
    · simp only [visibleText?, if_pos hblank, Json.str.injEq, reduceCtorEq, false_iff, not_and]
      rintro rfl
      simp [hblank]
    · simp only [visibleText?, if_neg hblank, Json.str.injEq, Option.some.injEq]
      refine (and_iff_left_of_imp ?_).symm
      rintro rfl
      simpa using hblank
  | _ => simp [visibleText?]

theorem readName_eq_ok_iff {α : Type} {ofName : String → α} {isKnown : α → Bool}
    {violation : Json → Violation} {a : α} :
    readName ofName isKnown path violation value = .ok a ↔
      ∃ name, value = .str name ∧ ofName name = a ∧ isKnown a = true := by
  cases value with
  | str name =>
    by_cases hknown : isKnown (ofName name) = true
    · simp only [readName, Json.str?, if_pos hknown, Except.ok.injEq, Json.str.injEq,
        exists_eq_left']
      refine (and_iff_left_of_imp ?_).symm
      rintro rfl
      exact hknown
    · simp only [readName, Json.str?, if_neg hknown, reject_ne_ok, Json.str.injEq, false_iff]
      rintro ⟨_, rfl, rfl, h⟩
      exact hknown h
  | _ => simp [readName, Json.str?, reject_ne_ok]

/-- Reading the items of a list is reading each of them. -/
theorem readEach_eq_ok_iff {α : Type} {read : Nat → Json → Except Rejection α}
    {gives : Json → α → Prop} {items : List Json} {index : Nat} {results : List α}
    (hread : ∀ i, ∀ item ∈ items, ∀ a, read i item = .ok a ↔ gives item a) :
    readEach read index items = .ok results ↔ List.Forall₂ gives items results := by
  induction items generalizing index results with
  | nil => simp [readEach, List.forall₂_nil_left_iff, eq_comm]
  | cons item rest ih =>
    have hfirst := hread index item List.mem_cons_self
    have hrest (found) : readEach read (index + 1) rest = .ok found ↔
        List.Forall₂ gives rest found :=
      ih fun i item hi => hread i item (List.mem_cons_of_mem _ hi)
    simp only [readEach, except_bind_eq_ok, Except.ok.injEq, hfirst, hrest,
      List.forall₂_cons_left_iff]
    constructor
    · rintro ⟨a, ha, others, hothers, rfl⟩
      exact ⟨a, others, ha, hothers, rfl⟩
    · rintro ⟨a, others, ha, hothers, rfl⟩
      exact ⟨a, ha, others, hothers, rfl⟩

/-- What is asked for under a condition is there when the condition holds. -/
theorem required_eq_ok_iff {α : Type} {p : Prop} [Decidable p] {asked : Except Rejection Unit}
    {next : Unit → Except Rejection α} {a : α} :
    (if p then asked >>= next else next ()) = .ok a ↔ (p → asked = .ok ()) ∧ next () = .ok a := by
  by_cases hp : p
  · rw [if_pos hp, except_bind_eq_ok]
    constructor
    · rintro ⟨_, hasked, hnext⟩
      exact ⟨fun _ => hasked, hnext⟩
    · rintro ⟨hasked, hnext⟩
      exact ⟨_, hasked hp, hnext⟩
  · simp [hp]

/-! ### Styles and blocks -/

/-- A reader of values of one kind, which reads nothing as nothing, finds what it is given. -/
theorem optional_eq_ok_iff {α : Type} {wrap : α → Json} {known : α → Prop}
    {read : Json → Except Rejection (Option α)} (hnull : read .null = .ok none)
    (hknown : ∀ a, known a → read (wrap a) = .ok (some a))
    (hunknown : ∀ a found, ¬ known a → read (wrap a) ≠ .ok found)
    (hother : ∀ value found, value ≠ .null → (∀ a, value ≠ wrap a) → read value ≠ .ok found)
    {found : Option α} :
    read value = .ok found ↔ value = (found.map wrap).getD .null ∧ ∀ a ∈ found, known a := by
  constructor
  · intro h
    by_cases hn : value = .null
    · subst hn
      obtain rfl := Except.ok.inj (hnull.symm.trans h)
      simp
    · by_cases hw : ∃ a, value = wrap a
      · obtain ⟨a, rfl⟩ := hw
        by_cases ha : known a
        · obtain rfl := Except.ok.inj ((hknown a ha).symm.trans h)
          simpa using ha
        · exact absurd h (hunknown a found ha)
      · exact absurd h (hother value found hn (by simpa using hw))
  · rintro ⟨rfl, h⟩
    cases found with
    | none => exact hnull
    | some a => exact hknown a (h a rfl)

theorem ofString?_eq (text : Option String) : ofString? text = (text.map Json.str).getD .null := by
  cases text <;> rfl

theorem readColor_eq_ok_iff {owner : StyleOwner} {color : Option String} :
    readColor rules owner path value = .ok color ↔
      value = ofString? color ∧ ∀ c ∈ color, Color.isValid rules.namedColors c = true := by
  rw [ofString?_eq]
  refine optional_eq_ok_iff rfl (fun c hc => ?_) (fun c found hc => ?_) fun value found hn hs => ?_
  · rw [readColor, if_pos hc]
  · rw [readColor, if_neg hc]
    exact reject_ne_ok
  · cases value with
    | null => exact absurd rfl hn
    | str text => exact absurd rfl (hs text)
    | _ => exact reject_ne_ok

theorem readAlignment_eq_ok_iff {owner : StyleOwner} {alignment : Option String} :
    readAlignment owner path value = .ok alignment ↔
      value = ofString? alignment ∧ ∀ name ∈ alignment, name ∈ alignmentNames := by
  rw [ofString?_eq]
  refine optional_eq_ok_iff rfl (fun c hc => ?_) (fun c found hc => ?_) fun value found hn hs => ?_
  · rw [readAlignment, if_pos (by simpa using hc)]
  · rw [readAlignment, if_neg (by simpa using hc)]
    exact reject_ne_ok
  · cases value with
    | null => exact absurd rfl hn
    | str text => exact absurd rfl (hs text)
    | _ => exact reject_ne_ok

/-- A truth value or nothing is read as what it is, and all else is refused. -/
theorem optionalBool_eq_ok_iff {read : Json → Except Rejection (Option Bool)}
    (hnull : read .null = .ok none) (hbool : ∀ b, read (.bool b) = .ok (some b))
    (hother : ∀ value found, value ≠ .null → (∀ b, value ≠ .bool b) → read value ≠ .ok found)
    {found : Option Bool} : read value = .ok found ↔ value = ofBool? found := by
  have h : read value = .ok found ↔
      value = (found.map Json.bool).getD .null ∧ ∀ b ∈ found, True :=
    optional_eq_ok_iff hnull (fun b _ => hbool b) (fun _ _ hb => absurd trivial hb) hother
  simpa [ofBool?] using h

theorem readBold_eq_ok_iff {owner : StyleOwner} {bold : Option Bool} :
    readBold owner path value = .ok bold ↔ value = ofBool? bold := by
  refine optionalBool_eq_ok_iff rfl (fun _ => rfl) fun value found hn hb => ?_
  cases value with
  | null => exact absurd rfl hn
  | bool b => exact absurd rfl (hb b)
  | _ => exact reject_ne_ok

theorem readMatchCase_eq_ok_iff {matchCase : Option Bool} :
    readMatchCase path value = .ok matchCase ↔ value = ofBool? matchCase := by
  refine optionalBool_eq_ok_iff rfl (fun _ => rfl) fun value found hn hb => ?_
  cases value with
  | null => exact absurd rfl hn
  | bool b => exact absurd rfl (hb b)
  | _ => exact reject_ne_ok

theorem readStyle?_eq_ok_iff {owner : StyleOwner} {style : Option Style} :
    readStyle? rules owner path value = .ok style ↔ value.GivesStyle? rules style := by
  cases value with
  | null =>
    cases style with
    | none => simp [readStyle?, GivesStyle?]
    | some style =>
      refine iff_of_false (by simp [readStyle?]) ?_
      rintro ⟨⟨_, h⟩, _⟩
      cases h
  | obj fields =>
    simp only [readStyle?, except_bind_eq_ok, readColor_eq_ok_iff, readAlignment_eq_ok_iff,
      readBold_eq_ok_iff]
    constructor
    · rintro ⟨color, ⟨hcolor, hvalid⟩, alignment, ⟨halignment, hknown⟩, bold, hbold, h⟩
      obtain rfl := Except.ok.inj h
      exact ⟨⟨fields, rfl⟩, hcolor, halignment, hbold, hvalid, hknown⟩
    · intro h
      cases style with
      | none => cases h
      | some style =>
        exact ⟨_, ⟨h.color, h.valid⟩, _, ⟨h.alignment, h.known⟩, _, h.bold, rfl⟩
  | _ =>
    refine iff_of_false reject_ne_ok fun h => ?_
    cases style with
    | none => cases h
    | some style =>
      obtain ⟨_, h⟩ := h.object
      cases h

theorem readStyle_eq_ok_iff {kind : ActionKind} {style : Style} :
    readStyle rules kind path value = .ok style ↔ value.GivesStyle rules style := by
  simp only [readStyle, except_bind_eq_ok, readStyle?_eq_ok_iff]
  constructor
  · rintro ⟨_ | found, hgives, h⟩
    · exact absurd h reject_ne_ok
    · obtain rfl := Except.ok.inj h
      exact hgives
  · intro h
    exact ⟨some style, h, rfl⟩

theorem readBlockText_eq_ok_iff {owner : StyleOwner} {text : String} :
    readBlockText rules owner path value = .ok text ↔
      value = .str text ∧ text ≠ "" ∧ rules.Admits text := by
  cases value with
  | str found =>
    unfold Rules.Admits
    by_cases hempty : found.isEmpty = true
    · refine iff_of_false (by rw [readBlockText, if_pos hempty]; exact reject_ne_ok) ?_
      rintro ⟨h, hne, _⟩
      exact hne (Json.str.inj h ▸ String.isEmpty_iff.1 hempty)
    · by_cases hlong : (found.length : Int) > rules.maxChars
      · refine iff_of_false ?_ ?_
        · rw [readBlockText, if_neg hempty, if_pos hlong]
          exact reject_ne_ok
        · rintro ⟨h, _, hle⟩
          obtain rfl := Json.str.inj h
          omega
      · rw [readBlockText, if_neg hempty, if_neg hlong, Except.ok.injEq, Json.str.injEq]
        refine (and_iff_left_of_imp ?_).symm
        rintro rfl
        exact ⟨fun h => hempty (String.isEmpty_iff.2 h), by omega⟩
  | _ => simp [readBlockText, reject_ne_ok]

theorem readLevel_eq_ok_iff {owner : StyleOwner} {level : Int} :
    readLevel owner path value = .ok level ↔ value = .int level ∧ 1 ≤ level ∧ level ≤ 3 := by
  cases value with
  | int found =>
    by_cases hout : (found < 1 || found > 3) = true
    · refine iff_of_false (by rw [readLevel, if_pos hout]; exact reject_ne_ok) ?_
      rintro ⟨h, hone, hthree⟩
      obtain rfl := Json.int.inj h
      simp only [Bool.or_eq_true, decide_eq_true_eq] at hout
      omega
    · rw [readLevel, if_neg hout, Except.ok.injEq, Json.int.injEq]
      refine (and_iff_left_of_imp ?_).symm
      rintro rfl
      simp only [Bool.or_eq_true, decide_eq_true_eq] at hout
      omega
  | _ => simp [readLevel, reject_ne_ok]

theorem readBlock_eq_ok_iff {index : Nat} {block : Block} :
    readBlock rules index path value = .ok block ↔ value.GivesBlock rules block := by
  constructor
  · intro h
    unfold readBlock at h
    split at h
    · exact absurd h reject_ne_ok
    · simp only at h
      split at h
      · next htype =>
        obtain ⟨text, htext, h⟩ := except_bind_eq_ok.1 h
        obtain ⟨htext, hne, hlength⟩ := readBlockText_eq_ok_iff.1 htext
        split at h
        · exact absurd h reject_ne_ok
        · next hbreak =>
          obtain ⟨style, hstyle, h⟩ := except_bind_eq_ok.1 h
          obtain rfl := Except.ok.inj h
          exact .paragraph (str?_eq_some_iff.1 htype) htext hne hlength (by simpa using hbreak)
            (readStyle?_eq_ok_iff.1 hstyle)
      · next htype =>
        obtain ⟨text, htext, h⟩ := except_bind_eq_ok.1 h
        obtain ⟨htext, hne, hlength⟩ := readBlockText_eq_ok_iff.1 htext
        obtain ⟨level, hlevel, h⟩ := except_bind_eq_ok.1 h
        obtain ⟨hlevel, hone, hthree⟩ := readLevel_eq_ok_iff.1 hlevel
        obtain ⟨style, hstyle, h⟩ := except_bind_eq_ok.1 h
        obtain rfl := Except.ok.inj h
        exact .heading (str?_eq_some_iff.1 htype) htext hne hlength hlevel hone hthree
          (readStyle?_eq_ok_iff.1 hstyle)
      · exact absurd h reject_ne_ok
  · intro h
    cases h with
    | paragraph htype htext hne hlength hbreak hstyle =>
      have hobject : ¬ value.fields?.isNone = true := by simp [fields?_of_getD_str htype]
      rw [readBlock, if_neg hobject]
      simp only [htype, Json.str?]
      refine except_bind_eq_ok.2 ⟨_, readBlockText_eq_ok_iff.2 ⟨htext, hne, hlength⟩, ?_⟩
      rw [if_neg (by simp [hbreak])]
      exact except_bind_eq_ok.2 ⟨_, readStyle?_eq_ok_iff.2 hstyle, rfl⟩
    | heading htype htext hne hlength hlevel hone hthree hstyle =>
      have hobject : ¬ value.fields?.isNone = true := by simp [fields?_of_getD_str htype]
      rw [readBlock, if_neg hobject]
      simp only [htype, Json.str?]
      refine except_bind_eq_ok.2 ⟨_, readBlockText_eq_ok_iff.2 ⟨htext, hne, hlength⟩, ?_⟩
      refine except_bind_eq_ok.2 ⟨_, readLevel_eq_ok_iff.2 ⟨hlevel, hone, hthree⟩, ?_⟩
      exact except_bind_eq_ok.2 ⟨_, readStyle?_eq_ok_iff.2 hstyle, rfl⟩

theorem readBlocks_eq_ok_iff {kind : ActionKind} {blocks : List Block} :
    readBlocks rules kind path value = .ok blocks ↔ value.GivesBlocks rules blocks := by
  cases value with
  | arr items =>
    simp only [GivesBlocks, Json.arr.injEq, exists_eq_left']
    by_cases hempty : items.isEmpty = true
    · refine iff_of_false (by rw [readBlocks, if_pos hempty]; exact reject_ne_ok) fun h => ?_
      exact h.1 (List.isEmpty_iff.1 hempty)
    · by_cases hmany : (items.length : Int) > rules.maxBlocks
      · refine iff_of_false ?_ fun h => by omega
        rw [readBlocks, if_neg hempty, if_pos hmany]
        exact reject_ne_ok
      · have hread : readEach (fun index => readBlock rules index s!"{path}[{index}]") 0 items =
            .ok blocks ↔ List.Forall₂ (GivesBlock rules) items blocks :=
          readEach_eq_ok_iff fun _ _ _ _ => readBlock_eq_ok_iff
        rw [readBlocks, if_neg hempty, if_neg hmany, hread]
        exact ⟨fun h => ⟨by simpa using hempty, by omega, h⟩, fun h => h.2.2⟩
  | _ => simp [readBlocks, GivesBlocks, reject_ne_ok]

/-! ### Actions -/

theorem readAnchor_eq_ok_iff {kind : ActionKind} {anchor : String} :
    readAnchor rules kind path value = .ok anchor ↔
      value.getD "anchor" = .str anchor ∧ (Json.str anchor).IsVisible rules := by
  unfold readAnchor
  cases hvisible : visibleText? (value.getD "anchor") with
  | none =>
    refine iff_of_false reject_ne_ok ?_
    rintro ⟨hanchor, text, htext, hblank, -⟩
    simp [visibleText?_eq_some_iff.2 ⟨hanchor.trans htext, hblank⟩] at hvisible
  | some text =>
    obtain ⟨htext, hblank⟩ := visibleText?_eq_some_iff.1 hvisible
    simp only [limited_eq_ok_iff, htext, Json.IsVisible, Json.str.injEq]
    constructor
    · rintro ⟨rfl, hlength⟩
      exact ⟨rfl, text, rfl, hblank, hlength⟩
    · rintro ⟨rfl, _, rfl, -, hlength⟩
      exact ⟨rfl, hlength⟩

theorem requireHeadingText_eq_ok_iff {kind : ActionKind} {missing : Violation} :
    requireHeadingText rules kind missing path value = .ok () ↔
      (value.getD "heading_text").IsVisible rules := by
  unfold requireHeadingText
  cases hvisible : visibleText? (value.getD "heading_text") with
  | none =>
    refine iff_of_false reject_ne_ok ?_
    rintro ⟨text, htext, hblank, -⟩
    simp [visibleText?_eq_some_iff.2 ⟨htext, hblank⟩] at hvisible
  | some text =>
    obtain ⟨htext, hblank⟩ := visibleText?_eq_some_iff.1 hvisible
    simp only [except_bind_eq_ok, limited_eq_ok_iff, htext, Json.IsVisible, Json.str.injEq]
    constructor
    · rintro ⟨_, ⟨-, hlength⟩, -⟩
      exact ⟨text, rfl, hblank, hlength⟩
    · rintro ⟨_, rfl, -, hlength⟩
      exact ⟨text, ⟨rfl, hlength⟩, trivial⟩

theorem requirePosition_eq_ok_iff :
    requirePosition path value = .ok () ↔ ∃ n, value = .int n := by
  cases value <;> simp [requirePosition, reject_ne_ok]

section
variable {action : Action}

theorem readReplaceSection_eq_ok_iff :
    readReplaceSection rules path value = .ok action ↔
      action.kind = .replaceSection ∧ value.GivesParts rules action := by
  simp only [readReplaceSection, except_bind_eq_ok, readAnchor_eq_ok_iff, readBlocks_eq_ok_iff]
  constructor
  · rintro ⟨anchor, ⟨hanchor, hvisible⟩, blocks, hblocks, h⟩
    obtain rfl := Except.ok.inj h
    exact ⟨rfl, .replaceSection hanchor hvisible hblocks⟩
  · rintro ⟨hkind, hparts⟩
    cases hparts with
    | replaceSection hanchor hvisible hblocks => exact ⟨_, ⟨hanchor, hvisible⟩, _, hblocks, rfl⟩
    | _ => cases hkind

theorem readUpdateHeadingStyle_eq_ok_iff :
    readUpdateHeadingStyle rules path value = .ok action ↔
      action.kind = .updateHeadingStyle ∧ value.GivesParts rules action := by
  simp only [readUpdateHeadingStyle, except_bind_eq_ok, readName_eq_ok_iff]
  constructor
  · rintro ⟨target, ⟨name, hname, rfl, hknown⟩, h⟩
    obtain ⟨hheading, h⟩ := required_eq_ok_iff.1 h
    obtain ⟨style, hstyle, h⟩ := except_bind_eq_ok.1 h
    obtain rfl := Except.ok.inj h
    refine ⟨rfl, .updateHeadingStyle hknown ?_ rfl (fun ht => ?_)
      (readStyle_eq_ok_iff.1 hstyle)⟩
    · rw [hname, HeadingTarget.name_ofName]
    · exact requireHeadingText_eq_ok_iff.1 (hheading ht)
  · rintro ⟨hkind, hparts⟩
    cases hparts with
    | @updateHeadingStyle target heading style hknown hname htext hheading hstyle =>
      subst htext
      refine ⟨target, ⟨_, hname, HeadingTarget.ofName_name hknown, hknown⟩, ?_⟩
      refine required_eq_ok_iff.2 ⟨fun ht => requireHeadingText_eq_ok_iff.2 (hheading ht), ?_⟩
      exact except_bind_eq_ok.2 ⟨style, readStyle_eq_ok_iff.2 hstyle, rfl⟩
    | _ => cases hkind

theorem readUpdateTextFormat_eq_ok_iff :
    readUpdateTextFormat rules path value = .ok action ↔
      action.kind = .updateTextFormat ∧ value.GivesParts rules action := by
  simp only [readUpdateTextFormat, except_bind_eq_ok, readName_eq_ok_iff, readStyle_eq_ok_iff]
  constructor
  · rintro ⟨target, ⟨name, hname, rfl, hknown⟩, style, hstyle, h⟩
    obtain rfl := Except.ok.inj h
    refine ⟨rfl, .updateTextFormat hknown ?_ hstyle⟩
    rw [hname, FormatTarget.name_ofName]
  · rintro ⟨hkind, hparts⟩
    cases hparts with
    | @updateTextFormat target style hknown hname hstyle =>
      exact ⟨target, ⟨_, hname, FormatTarget.ofName_name hknown, hknown⟩, style, hstyle, rfl⟩
    | _ => cases hkind

theorem readCorrectText_eq_ok_iff :
    readCorrectText rules path value = .ok action ↔
      action.kind = .correctText ∧ value.GivesParts rules action := by
  constructor
  · intro h
    unfold readCorrectText at h
    split at h
    · exact absurd h reject_ne_ok
    · next search hsearch =>
      split at h
      · exact absurd h reject_ne_ok
      · next hne =>
        obtain ⟨_, hlimit, h⟩ := except_bind_eq_ok.1 h
        obtain ⟨rfl, hlength⟩ := limited_eq_ok_iff.1 hlimit
        split at h
        · exact absurd h reject_ne_ok
        · next replacement hreplacement =>
          obtain ⟨_, hlimit, h⟩ := except_bind_eq_ok.1 h
          obtain ⟨rfl, hlength'⟩ := limited_eq_ok_iff.1 hlimit
          obtain ⟨matchCase, hmatch, h⟩ := except_bind_eq_ok.1 h
          obtain rfl := Except.ok.inj h
          exact ⟨rfl, .correctText (str?_eq_some_iff.1 hsearch) (by simpa using hne) hlength
            (str?_eq_some_iff.1 hreplacement) hlength' (readMatchCase_eq_ok_iff.1 hmatch)⟩
  · rintro ⟨hkind, hparts⟩
    cases hparts with
    | correctText hsearch hne hlength hreplacement hlength' hmatch =>
      simp only [readCorrectText, hsearch, hreplacement, Json.str?]
      rw [if_neg (by simpa using hne)]
      refine except_bind_eq_ok.2 ⟨_, limited_eq_ok_iff.2 ⟨rfl, hlength⟩, ?_⟩
      refine except_bind_eq_ok.2 ⟨_, limited_eq_ok_iff.2 ⟨rfl, hlength'⟩, ?_⟩
      exact except_bind_eq_ok.2 ⟨_, readMatchCase_eq_ok_iff.2 hmatch, rfl⟩
    | _ => cases hkind

theorem readInsertText_eq_ok_iff :
    readInsertText rules path value = .ok action ↔
      action.kind = .insertText ∧ value.GivesParts rules action := by
  simp only [readInsertText, except_bind_eq_ok, readAnchor_eq_ok_iff, readName_eq_ok_iff]
  constructor
  · rintro ⟨anchor, ⟨hanchor, hvisible⟩, location, ⟨name, hname, rfl, hknown⟩, h⟩
    obtain ⟨hheading, h⟩ := required_eq_ok_iff.1 h
    obtain ⟨hposition, h⟩ := required_eq_ok_iff.1 h
    obtain ⟨blocks, hblocks, h⟩ := except_bind_eq_ok.1 h
    obtain rfl := Except.ok.inj h
    refine ⟨rfl, .insertText hanchor hvisible hknown ?_ rfl (fun hl => ?_) rfl (fun hl => ?_)
      (readBlocks_eq_ok_iff.1 hblocks)⟩
    · rw [hname, InsertLocation.name_ofName]
    · exact requireHeadingText_eq_ok_iff.1 (hheading hl)
    · exact requirePosition_eq_ok_iff.1 (hposition hl)
  · rintro ⟨hkind, hparts⟩
    cases hparts with
    | @insertText anchor location _ _ blocks hanchor hvisible hknown hname htext hheading hplace
        hposition hblocks =>
      subst htext hplace
      refine ⟨anchor, ⟨hanchor, hvisible⟩, location,
        ⟨_, hname, InsertLocation.ofName_name hknown, hknown⟩, ?_⟩
      refine required_eq_ok_iff.2 ⟨fun hl => requireHeadingText_eq_ok_iff.2 (hheading hl), ?_⟩
      refine required_eq_ok_iff.2 ⟨fun hl => requirePosition_eq_ok_iff.2 (hposition hl), ?_⟩
      exact except_bind_eq_ok.2 ⟨blocks, readBlocks_eq_ok_iff.2 hblocks, rfl⟩
    | _ => cases hkind

theorem readFields_eq_ok_iff {kind : ActionKind} :
    readFields rules path value kind = .ok action ↔
      action.kind = kind ∧ value.GivesParts rules action := by
  cases kind with
  | replaceSection => exact readReplaceSection_eq_ok_iff
  | updateHeadingStyle => exact readUpdateHeadingStyle_eq_ok_iff
  | updateTextFormat => exact readUpdateTextFormat_eq_ok_iff
  | correctText => exact readCorrectText_eq_ok_iff
  | insertText => exact readInsertText_eq_ok_iff

theorem readAction_eq_ok_iff {index : Nat} :
    readAction rules index value = .ok action ↔ value.GivesAction rules action := by
  constructor
  · intro h
    unfold readAction at h
    simp only at h
    split at h
    · exact absurd h reject_ne_ok
    · split at h
      · next kind hkind =>
        obtain ⟨name, hname, hkind⟩ := Option.bind_eq_some_iff.1 hkind
        obtain ⟨rfl, hparts⟩ := readFields_eq_ok_iff.1 h
        refine ⟨?_, hparts⟩
        rw [str?_eq_some_iff.1 hname, ActionKind.name_of_ofName? hkind]
      · exact absurd h reject_ne_ok
  · rintro ⟨htype, hparts⟩
    have hobject : ¬ value.fields?.isNone = true := by simp [fields?_of_getD_str htype]
    have hkind : (value.getD "type").str?.bind ActionKind.ofName? = some action.kind := by
      rw [htype, Json.str?, Option.bind_some, ActionKind.ofName?_name]
    simp only [readAction, if_neg hobject, hkind]
    exact readFields_eq_ok_iff.2 ⟨rfl, hparts⟩

end

/-! ### Plans -/

theorem readActions_eq_ok_iff {fields : Json.Fields} {items : List Json} {plan : EditPlan} :
    readActions rules fields items = .ok plan ↔
      (items = [] ∨ ((items.length : Int) ≤ rules.maxActions ∧
        ∀ field ∈ fields, field.1 ∈ planFields)) ∧
      List.Forall₂ (GivesAction rules) items plan.actions := by
  cases items with
  | nil =>
    simp only [readActions, Except.ok.injEq, true_or, true_and, List.forall₂_nil_left_iff]
    exact ⟨fun h => h ▸ rfl, fun h => by cases plan; simp_all⟩
  | cons item rest =>
    simp only [readActions, reduceCtorEq, false_or]
    by_cases hmany : ((item :: rest).length : Int) > rules.maxActions
    · rw [if_pos hmany]
      exact iff_of_false reject_ne_ok fun h => by omega
    · rw [if_neg hmany]
      have hread (actions) : readEach (readAction rules) 0 (item :: rest) = .ok actions ↔
          List.Forall₂ (GivesAction rules) (item :: rest) actions :=
        readEach_eq_ok_iff fun _ _ _ _ => readAction_eq_ok_iff
      simp only [except_bind_eq_ok, hread]
      by_cases hfields : ∀ field ∈ fields, field.1 ∈ planFields
      · have hnone : ((fields.map (·.1)).filter fun key => !planFields.contains key) = [] := by
          simpa using hfields
        simp only [hnone, List.isEmpty_nil, if_true]
        constructor
        · rintro ⟨actions, hactions, h⟩
          obtain rfl := Except.ok.inj h
          exact ⟨⟨by omega, hfields⟩, hactions⟩
        · rintro ⟨-, h⟩
          exact ⟨plan.actions, h, rfl⟩
      · -- An unknown field is refused even when every action has been read.
        have hsome : ((fields.map (·.1)).filter fun key => !planFields.contains key) ≠ [] := by
          simpa using hfields
        refine iff_of_false ?_ fun h => hfields h.1.2
        rintro ⟨actions, -, h⟩
        rw [if_neg (by simpa using hsome)] at h
        exact reject_ne_ok h

theorem readEditPlan_eq_ok_iff {plan : EditPlan} :
    readEditPlan rules value = .ok plan ↔ value.GivesPlan rules plan := by
  cases value with
  | obj fields =>
    by_cases hversion : (Json.obj fields).getD "version" = .str EditPlan.version
    · cases hactions : (Json.obj fields).getD "actions" with
      | arr items =>
        have hread : readEditPlan rules (.obj fields) = readActions rules fields items := by
          simp [readEditPlan, hversion, hactions, Json.str?]
        rw [hread, readActions_eq_ok_iff]
        constructor
        · rintro ⟨hlimits, hgives⟩
          exact ⟨fields, items, rfl, hversion, hactions, hlimits, hgives⟩
        · rintro ⟨_, _, h, -, hitems, hlimits, hgives⟩
          obtain rfl := Json.obj.inj h
          obtain rfl := Json.arr.inj (hactions.symm.trans hitems)
          exact ⟨hlimits, hgives⟩
      | _ =>
        refine iff_of_false ?_ ?_
        · simp [readEditPlan, hversion, hactions, Json.str?, reject_ne_ok]
        · rintro ⟨_, _, -, -, hitems, -⟩
          simp [hactions] at hitems
    · refine iff_of_false ?_ ?_
      · have hne : ((Json.obj fields).getD "version").str? ≠ some EditPlan.version :=
          fun h => hversion (str?_eq_some_iff.1 h)
        simp [readEditPlan, hne, reject_ne_ok]
      · rintro ⟨_, _, _, h, _⟩
        exact hversion h
  | _ => simp [readEditPlan, GivesPlan, reject_ne_ok]

end Check

/-! ## Taking apart what has been read

The fields of an action are taken apart without any check after it has been read.  What reading
has found is there, so taking apart finds the same. -/

namespace Draft

variable {rules : Rules} {value : Json}

/-- A field that holds something can be asked for. -/
theorem required_of_getD {key : String} {found : Json} (h : value.getD key = found)
    (hfound : found ≠ .null) : value.required key = .ok found := by
  cases value with
  | obj fields =>
    simp only [getD, get?] at h
    cases hlookup : fields.lookup key with
    | none => simp_all
    | some there => simp_all [required]
  | _ => exact absurd h.symm hfound

theorem optionalText?_ofString? (text : Option String) :
    optionalText? (ofString? text) = some text := by
  cases text <;> rfl

theorem optionalBool?_ofBool? (b : Option Bool) : optionalBool? (ofBool? b) = some b := by
  cases b <;> rfl

theorem lookOf_of_givesStyle {style : Style} (h : value.GivesStyle rules style) :
    ∃ look, lookOf value = .ok (some look) ∧ look.style? = some style := by
  obtain ⟨fields, rfl⟩ := h.object
  refine ⟨_, rfl, ?_⟩
  simp only [Look.style?, h.color, h.alignment, h.bold, optionalText?_ofString?,
    optionalBool?_ofBool?]
  rfl

theorem lookOf_of_givesStyle? {style : Option Style} (h : value.GivesStyle? rules style) :
    ∃ look, lookOf value = .ok look ∧ look.mapM Look.style? = some style := by
  cases style with
  | none =>
    obtain rfl : value = .null := h
    exact ⟨none, rfl, rfl⟩
  | some style =>
    obtain ⟨look, hlook, hstyle⟩ := lookOf_of_givesStyle h
    exact ⟨some look, hlook, by simp [hstyle]⟩

theorem requiredLook_of_gives {style : Style}
    (h : (value.getD "style").GivesStyle rules style) :
    ∃ look, requiredLook value = .ok look ∧ look.style? = some style := by
  obtain ⟨look, hlook, hstyle⟩ := lookOf_of_givesStyle h
  obtain ⟨fields, hobject⟩ := h.object
  refine ⟨look, ?_, hstyle⟩
  have hrequired := required_of_getD hobject nofun
  refine except_bind_eq_ok.2 ⟨_, hrequired, except_bind_eq_ok.2 ⟨_, hobject ▸ hlook, rfl⟩⟩

/-- A block that has been read has a field for the style or none. -/
theorem member_of_getD {key text : String} (h : value.getD key = .str text) (other : String) :
    ∃ found, value.member other = .ok found ∧ found.getD .null = value.getD other := by
  cases value with
  | obj fields => exact ⟨fields.lookup other, rfl, rfl⟩
  | _ => cases h

theorem pieceOf_of_gives {block : Block} (h : value.GivesBlock rules block) :
    ∃ piece, pieceOf value = .ok piece ∧ piece.block? = some block := by
  cases h with
  | @paragraph text style htype htext _ _ _ hstyle =>
    obtain ⟨look, hlook, hmap⟩ := lookOf_of_givesStyle? hstyle
    obtain ⟨found, hmember, hfound⟩ := member_of_getD htype "style"
    refine ⟨.paragraph (.str text) look, ?_, by simp [Piece.block?, Json.str?, hmap]⟩
    refine except_bind_eq_ok.2 ⟨_, hmember, except_bind_eq_ok.2 ⟨_, hfound ▸ hlook, ?_⟩⟩
    refine except_bind_eq_ok.2 ⟨_, required_of_getD htype (by simp), ?_⟩
    exact except_bind_eq_ok.2 ⟨_, required_of_getD htext (by simp), rfl⟩
  | @heading text level style htype htext _ _ hlevel _ _ hstyle =>
    obtain ⟨look, hlook, hmap⟩ := lookOf_of_givesStyle? hstyle
    obtain ⟨found, hmember, hfound⟩ := member_of_getD htype "style"
    refine ⟨.heading (.str text) level look, ?_, by simp [Piece.block?, Json.str?, hmap]⟩
    refine except_bind_eq_ok.2 ⟨_, hmember, except_bind_eq_ok.2 ⟨_, hfound ▸ hlook, ?_⟩⟩
    refine except_bind_eq_ok.2 ⟨_, required_of_getD htype (by simp), ?_⟩
    refine except_bind_eq_ok.2 ⟨_, required_of_getD htext (by simp), ?_⟩
    refine except_bind_eq_ok.2 ⟨_, required_of_getD hlevel (by simp), ?_⟩
    exact except_bind_eq_ok.2 ⟨level, rfl, rfl⟩

theorem piecesOf_of_gives {blocks : List Block}
    (h : (value.getD "blocks").GivesBlocks rules blocks) :
    ∃ pieces, piecesOf value = .ok pieces ∧ pieces.mapM Piece.block? = some blocks := by
  obtain ⟨items, hitems, -, -, hgives⟩ := h
  suffices hpieces : ∃ pieces, items.mapM pieceOf = .ok pieces ∧
      pieces.mapM Piece.block? = some blocks by
    obtain ⟨pieces, hpieces, hblocks⟩ := hpieces
    refine ⟨pieces, ?_, hblocks⟩
    refine except_bind_eq_ok.2 ⟨_, required_of_getD hitems (by simp), ?_⟩
    exact except_bind_eq_ok.2 ⟨items, rfl, hpieces⟩
  clear hitems
  induction hgives with
  | nil => exact ⟨[], rfl, rfl⟩
  | cons hfirst _ ih =>
    obtain ⟨piece, hpiece, hblock⟩ := pieceOf_of_gives hfirst
    obtain ⟨pieces, hpieces, hblocks⟩ := ih
    refine ⟨piece :: pieces, ?_, by simp [List.mapM_cons, hblock, hblocks]⟩
    rw [List.mapM_cons]
    exact except_bind_eq_ok.2 ⟨_, hpiece, except_bind_eq_ok.2 ⟨_, hpieces, rfl⟩⟩

/-- What has been read is taken apart into parts of the same action. -/
theorem ofJson_of_gives {action : Action} (h : value.GivesAction rules action) :
    ∃ draft, ofJson value = .ok draft ∧ draft.action? = some action := by
  have hstart {next} {draft : Draft} (hnext : next (Json.str action.kind.name) = .ok draft) :
      (value.required "type" >>= next) = .ok draft :=
    except_bind_eq_ok.2 ⟨_, required_of_getD h.type (by simp), hnext⟩
  have hkind : (Json.str action.kind.name).str?.bind ActionKind.ofName? = some action.kind := by
    rw [Json.str?, Option.bind_some, ActionKind.ofName?_name]
  cases h.parts with
  | @replaceSection anchor blocks hanchor _ hblocks =>
    obtain ⟨pieces, hpieces, hmap⟩ := piecesOf_of_gives hblocks
    refine ⟨.replaceSection (.str anchor) pieces, hstart ?_, by simp [action?, Json.str?, hmap]⟩
    simp only [hkind]
    refine except_bind_eq_ok.2 ⟨_, required_of_getD hanchor (by simp), ?_⟩
    exact except_bind_eq_ok.2 ⟨_, hpieces, rfl⟩
  | @updateHeadingStyle target heading style hknown htarget htext _ hstyle =>
    subst htext
    obtain ⟨look, hlook, hmap⟩ := requiredLook_of_gives hstyle
    refine ⟨.updateHeadingStyle (.str target.name) (value.getD "heading_text") look, hstart ?_,
      by simp [action?, Json.str?, hmap, HeadingTarget.ofName_name hknown]⟩
    simp only [hkind]
    refine except_bind_eq_ok.2 ⟨_, required_of_getD htarget (by simp), ?_⟩
    exact except_bind_eq_ok.2 ⟨_, hlook, rfl⟩
  | @updateTextFormat target style hknown htarget hstyle =>
    obtain ⟨look, hlook, hmap⟩ := requiredLook_of_gives hstyle
    refine ⟨.updateTextFormat (.str target.name) look, hstart ?_,
      by simp [action?, Json.str?, hmap, FormatTarget.ofName_name hknown]⟩
    simp only [hkind]
    refine except_bind_eq_ok.2 ⟨_, required_of_getD htarget (by simp), ?_⟩
    exact except_bind_eq_ok.2 ⟨_, hlook, rfl⟩
  | @correctText search replacement matchCase hsearch _ _ hreplacement _ hcase =>
    refine ⟨.correctText (.str search) (.str replacement) (value.getD "case_sensitive"), hstart ?_,
      by simp [action?, Json.str?, hcase, optionalBool?_ofBool?]⟩
    simp only [hkind]
    refine except_bind_eq_ok.2 ⟨_, required_of_getD hsearch (by simp), ?_⟩
    exact except_bind_eq_ok.2 ⟨_, required_of_getD hreplacement (by simp), rfl⟩
  | @insertText anchor location _ _ blocks hanchor _ hknown hlocation htext _ hplace _ hblocks =>
    subst htext hplace
    obtain ⟨pieces, hpieces, hmap⟩ := piecesOf_of_gives hblocks
    refine ⟨.insertText (.str anchor) (.str location.name) (value.getD "heading_text")
      (value.getD "position") pieces, hstart ?_,
      by simp [action?, Json.str?, hmap, InsertLocation.ofName_name hknown]⟩
    simp only [hkind]
    refine except_bind_eq_ok.2 ⟨_, required_of_getD hanchor (by simp), ?_⟩
    refine except_bind_eq_ok.2 ⟨_, required_of_getD hlocation (by simp), ?_⟩
    exact except_bind_eq_ok.2 ⟨_, hpieces, rfl⟩

end Draft

/-! ## Plans of the grammar -/

namespace Check

variable {rules : Rules} {value : Json}

/-- Reading accepts the grammar and nothing else, and the actions of what it accepts can be taken
apart: none of their parts is missing or of another type. -/
theorem readEditPlan_accepts_grammar (rules : Rules) (value : Json) :
    ((∃ plan, readEditPlan rules value = .ok plan) ↔ value.IsEditPlan rules) ∧
    ∀ plan, readEditPlan rules value = .ok plan →
      ∃ items, value.getD "actions" = .arr items ∧
        List.Forall₂ (fun item action => ∃ draft, Draft.ofJson item = .ok draft ∧
          draft.action? = some action) items plan.actions := by
  constructor
  · simp only [readEditPlan_eq_ok_iff, isEditPlan_iff]
  · intro plan h
    obtain ⟨_, items, -, -, hactions, -, hgives⟩ := readEditPlan_eq_ok_iff.1 h
    exact ⟨items, hactions, hgives.imp fun _ _ => Draft.ofJson_of_gives⟩

/-- A plan of one correction is read, and its action is taken apart. -/
theorem readEditPlan_accepts_correction :
    let value : Json := .obj [("version", .str "1.0"), ("actions", .arr [.obj
      [("type", .str "correct_text"), ("search_text", .str "teh"),
        ("replacement_text", .str "the"), ("case_sensitive", .null)]])]
    value.IsEditPlan {} ∧ ∃ items, value.getD "actions" = .arr items ∧
      List.Forall₂ (fun item action => ∃ draft, Draft.ofJson item = .ok draft ∧
        draft.action? = some action) items [.correctText "teh" "the" none] := by
  intro value
  have hread : readEditPlan {} value = .ok ⟨[.correctText "teh" "the" none]⟩ := by rfl
  have h := readEditPlan_accepts_grammar {} value
  exact ⟨h.1.1 ⟨_, hread⟩, h.2 _ hread⟩

end Check

end Redline
