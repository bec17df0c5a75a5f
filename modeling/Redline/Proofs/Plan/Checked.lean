import Redline.Plan.Response
import Redline.Proofs.Plan.Reading

/-!
# Plans that have been read

What a plan has passed when it has been read: colors that stand for something, alignments that there
are, levels within bounds, and the parts that its actions ask for.  Its texts are texts of the value
it was read from, so they can be written if those can.

## Main definitions

* `Json.Writable` — a value all of whose texts can be written.
* `Style.Checked`, `Block.Checked`, `Action.Checked` — what reading makes sure of.
* `ResponsePlan.Checked` — the same for a whole plan.
-/

namespace Redline

open Redline.Text Editing

/-- Every text of the value can be written into a document. -/
inductive Json.Writable : Json → Prop
  | null : Writable .null
  | bool (value : Bool) : Writable (.bool value)
  | int (value : Int) : Writable (.int value)
  | float (value : Binary64) : Writable (.float value)
  | str {text : String} : isWritable text.toList = true → Writable (.str text)
  | arr {items : List Json} : (∀ item ∈ items, Writable item) → Writable (.arr items)
  | obj {fields : Json.Fields} : (∀ field ∈ fields, Writable field.2) → Writable (.obj fields)

namespace Json.Writable

variable {value : Json} {fields : Json.Fields}

@[simp] theorem str_iff {text : String} :
    (Json.str text).Writable ↔ isWritable text.toList = true :=
  ⟨fun | .str htext => htext, .str⟩

@[simp] theorem arr_iff {items : List Json} :
    (Json.arr items).Writable ↔ ∀ item ∈ items, item.Writable :=
  ⟨fun | .arr hitems => hitems, .arr⟩

@[simp] theorem obj_iff : (Json.obj fields).Writable ↔ ∀ field ∈ fields, field.2.Writable :=
  ⟨fun | .obj hfields => hfields, .obj⟩

theorem getD (h : value.Writable) (key : String) : (value.getD key).Writable := by
  cases value with
  | obj fields =>
    simp only [Json.getD, Json.get?]
    cases hfound : fields.lookup key with
    | none => exact .null
    | some found =>
      obtain ⟨before, behind, hsplit, _⟩ := List.lookup_eq_some_iff.1 hfound
      exact obj_iff.1 h (key, found) (by simp [hsplit])
  | _ => exact .null

theorem items (h : value.Writable) {key : String} {items : List Json}
    (hi : value.getD key = .arr items) : ∀ item ∈ items, item.Writable :=
  arr_iff.1 (hi ▸ h.getD key)

theorem text (h : value.Writable) {text : String} (hs : value.str? = some text) :
    isWritable text.toList = true := by
  cases value with
  | str found => exact Option.some.inj hs ▸ str_iff.1 h
  | _ => cases hs

end Json.Writable

/-! ## What reading makes sure of -/

/-- The color can be read and the alignment has one of the four names. -/
structure Style.Checked (rules : Rules) (style : Style) : Prop where
  color : ∀ color ∈ style.color, Color.isValid rules.namedColors color = true
  alignment : ∀ name ∈ style.alignment, name ∈ alignmentNames

/-- The text can be written, and a heading has a level from one to three. -/
inductive Block.Checked (rules : Rules) : Block → Prop
  | paragraph {text : String} {style : Option Style} : isWritable text.toList = true →
      (∀ s ∈ style, s.Checked rules) → Checked rules (.paragraph text style)
  | heading {text : String} {level : Int} {style : Option Style} :
      isWritable text.toList = true → 1 ≤ level → level ≤ 3 → (∀ s ∈ style, s.Checked rules) →
      Checked rules (.heading text level style)

/-- The action has the parts that it asks for. -/
inductive Action.Checked (rules : Rules) : Action → Prop
  | replaceSection {anchor : String} {blocks : List Block} :
      (∀ block ∈ blocks, block.Checked rules) → Checked rules (.replaceSection anchor blocks)
  | updateHeadingStyle {target : HeadingTarget} {heading : Json} {style : Style} :
      (target = .specific → ∃ text, heading = .str text) → style.Checked rules →
      Checked rules (.updateHeadingStyle target heading style)
  | updateTextFormat {target : FormatTarget} {style : Style} : style.Checked rules →
      Checked rules (.updateTextFormat target style)
  | correctText {search replacement : String} {matchCase : Option Bool} : search ≠ "" →
      isWritable replacement.toList = true →
      Checked rules (.correctText search replacement matchCase)
  | insertText {anchor : String} {location : InsertLocation} {heading position : Json}
      {blocks : List Block} : location.isKnown = true →
      (location = .afterHeading → ∃ text, heading = .str text) →
      (location = .atPosition → ∃ n, position = .int n) →
      (∀ block ∈ blocks, block.Checked rules) →
      Checked rules (.insertText anchor location heading position blocks)

/-- Every action is checked, and every content can be written. -/
def ResponsePlan.Checked (rules : Rules) : ResponsePlan → Prop
  | .edit plan => ∀ action ∈ plan.actions, action.Checked rules
  | .block plan => ∀ op ∈ plan.operations, isWritable op.content.toList = true

namespace Json

variable {rules : Rules} {value : Json}

theorem GivesStyle.checked {style : Style} (h : value.GivesStyle rules style) :
    style.Checked rules :=
  ⟨h.valid, h.known⟩

theorem GivesStyle?.checked {style : Option Style} (h : value.GivesStyle? rules style) :
    ∀ s ∈ style, s.Checked rules := by
  rintro s rfl
  exact GivesStyle.checked h

theorem GivesBlock.checked (hw : value.Writable) {block : Block}
    (h : value.GivesBlock rules block) : block.Checked rules := by
  have hwritable {text} (htext : value.getD "text" = .str text) : isWritable text.toList = true :=
    Writable.str_iff.1 (htext ▸ hw.getD "text")
  cases h with
  | paragraph _ htext _ _ _ hstyle => exact .paragraph (hwritable htext) hstyle.checked
  | heading _ htext _ _ _ hone hthree hstyle =>
    exact .heading (hwritable htext) hone hthree hstyle.checked

theorem GivesBlocks.checked (hw : value.Writable) {blocks : List Block}
    (h : value.GivesBlocks rules blocks) : ∀ block ∈ blocks, block.Checked rules := by
  obtain ⟨items, rfl, -, -, hgives⟩ := h
  intro block hb
  obtain ⟨item, hitem, hblock⟩ := exists_mem_of_forall₂ hgives hb
  exact hblock.checked (Writable.arr_iff.1 hw item hitem)

theorem GivesParts.checked (hw : value.Writable) {action : Action}
    (h : value.GivesParts rules action) : action.Checked rules := by
  have hvisible {found : Json} (hfound : found.IsVisible rules) : ∃ text, found = .str text :=
    hfound.imp fun _ h => h.1
  cases h with
  | replaceSection _ _ hblocks => exact .replaceSection (hblocks.checked (hw.getD _))
  | updateHeadingStyle _ _ _ hheading hstyle =>
    exact .updateHeadingStyle (fun ht => hvisible (hheading ht)) hstyle.checked
  | updateTextFormat _ _ hstyle => exact .updateTextFormat hstyle.checked
  | correctText _ hne _ hreplacement _ _ =>
    exact .correctText hne (Writable.str_iff.1 (hreplacement ▸ hw.getD "replacement_text"))
  | insertText _ _ hknown _ _ hheading _ hposition hblocks =>
    exact .insertText hknown (fun hl => hvisible (hheading hl)) hposition
      (hblocks.checked (hw.getD _))

/-- The actions of a plan that a writable value gives are checked. -/
theorem GivesPlan.checked (hw : value.Writable) {plan : EditPlan}
    (h : value.GivesPlan rules plan) : ∀ action ∈ plan.actions, action.Checked rules := by
  obtain ⟨_, items, -, -, hactions, -, hgives⟩ := h
  intro action ha
  obtain ⟨item, hitem, haction⟩ := exists_mem_of_forall₂ hgives ha
  exact haction.parts.checked (hw.items hactions item hitem)

end Json

/-! ## Reading -/

namespace Check

variable {rules : Rules} {value : Json} {path : String}

/-- What holds of everything that is read from an item holds of all that is read from a list. -/
theorem readEach_forall {α : Type} {read : Nat → Json → Except Rejection α} {post : α → Prop}
    {items : List Json} {index : Nat} {results : List α}
    (hpost : ∀ i, ∀ item ∈ items, ∀ a, read i item = .ok a → post a)
    (h : readEach read index items = .ok results) : ∀ a ∈ results, post a := by
  induction items generalizing index results with
  | nil =>
    obtain rfl := Except.ok.inj h
    simp
  | cons item rest ih =>
    obtain ⟨first, hfirst, h⟩ := except_bind_eq_ok.1 h
    obtain ⟨others, hothers, h⟩ := except_bind_eq_ok.1 h
    obtain rfl := Except.ok.inj h
    exact List.forall_mem_cons.2 ⟨hpost _ _ List.mem_cons_self _ hfirst,
      ih (fun i item hi => hpost i item (List.mem_cons_of_mem _ hi)) hothers⟩

theorem writable_of_readOperation {index : Nat} {op : Operation} (hw : value.Writable)
    (h : readOperation rules index value = .ok op) : isWritable op.content.toList = true := by
  unfold readOperation at h
  simp only at h
  split at h
  · exact absurd h reject_ne_ok
  · split at h
    · exact absurd h reject_ne_ok
    · split at h
      · exact absurd h reject_ne_ok
      · obtain ⟨target, _, h⟩ := except_bind_eq_ok.1 h
        split at h
        · exact absurd h reject_ne_ok
        · next content hcontent =>
          obtain ⟨_, hread, h⟩ := except_bind_eq_ok.1 h
          obtain rfl := (limited_eq_ok_iff.1 hread).1
          obtain ⟨reason, _, h⟩ := except_bind_eq_ok.1 h
          obtain rfl := Except.ok.inj h
          exact (hw.getD _).text hcontent

theorem writable_of_readBlockPlan {plan : BlockPlan} (hw : value.Writable)
    (h : readBlockPlan rules value = .ok plan) :
    ∀ op ∈ plan.operations, isWritable op.content.toList = true := by
  unfold readBlockPlan at h
  split at h
  · split at h
    · exact absurd h reject_ne_ok
    · next items _ hitems =>
      obtain ⟨operations, hoperations, h⟩ := except_bind_eq_ok.1 h
      obtain rfl := Except.ok.inj h
      exact readEach_forall (fun i item hi a => writable_of_readOperation (hw.items hitems item hi))
        hoperations
    · exact absurd h reject_ne_ok
  · exact absurd h reject_ne_ok

/-- The plan of a response that has been read is checked. -/
theorem checked_of_readResponse {response : Response} (hw : value.Writable)
    (h : readResponse rules value = .ok response) : response.plan.Checked rules := by
  unfold readResponse at h
  split at h
  · split at h
    · next ops hops =>
      obtain ⟨plan, hplan, h⟩ := except_bind_eq_ok.1 h
      obtain rfl := Except.ok.inj h
      refine writable_of_readBlockPlan (.obj fun field hfield => ?_) hplan
      obtain rfl := List.mem_singleton.1 hfield
      exact hops ▸ hw.getD "ops"
    · simp only at h
      split at h
      · exact absurd h reject_ne_ok
      · obtain ⟨plan, hplan, h⟩ := except_bind_eq_ok.1 h
        split at h
        · exact absurd h reject_ne_ok
        · obtain rfl := Except.ok.inj h
          exact (readEditPlan_eq_ok_iff.1 hplan).checked (hw.getD _)
  · exact absurd h reject_ne_ok

end Check

end Redline
