import Redline.Document.Notation
import Redline.Proofs.Plan.Reading

/-!
# The written form of plans

A plan that has been read is written down as the value that it was read from, without what reading
has not looked at: fields that its objects do not have, and fields that may be missing and hold
nothing.  The written form is read as the same plan again, so it is the normal form of all values
that are read as the plan.

## Main definitions

* `Json.Same` — equality of values up to the order of the fields of objects.
* `Json.kept` — an object without the fields that say nothing.
* `Json.keptPlan` — a plan without the fields that say nothing, in the plan and in all its parts.
-/

namespace Redline

open scoped List

namespace Json

/-! ## Values up to the order of fields -/

/-- The values are equal, but objects may have their fields in another order. -/
inductive Same : Json → Json → Prop
  | null : Same .null .null
  | bool (b : Bool) : Same (.bool b) (.bool b)
  | int (n : Int) : Same (.int n) (.int n)
  | float (x : Binary64) : Same (.float x) (.float x)
  | str (text : String) : Same (.str text) (.str text)
  | arr {items others : List Json} : List.Forall₂ Same items others →
      Same (.arr items) (.arr others)
  | obj {fields others : Json.Fields} :
      (∀ key, Option.Rel Same (fields.lookup key) (others.lookup key)) →
      Same (.obj fields) (.obj others)

theorem Same.refl (value : Json) : value.Same value := by
  match value with
  | .null => exact .null
  | .bool b => exact .bool b
  | .int n => exact .int n
  | .float x => exact .float x
  | .str text => exact .str text
  | .arr items => exact .arr (List.forall₂_same.2 fun item hi => Same.refl item)
  | .obj fields =>
    refine .obj fun key => ?_
    cases h : fields.lookup key with
    | none => exact .none
    | some found => exact .some (Same.refl found)
termination_by sizeOf value
decreasing_by
  · have := List.sizeOf_lt_of_mem hi
    simp only [Json.arr.sizeOf_spec]
    omega
  · exact Notation.sizeOf_lookup_lt h

/-! ## What objects keep -/

/-- The fields that an object has to have and those that it may have. -/
structure Keys where
  required : List String
  optional : List String

/-- Whether a field says something: it is one that the object has to have, or it is one that the
object may have and holds something. -/
def Keys.keeps (keys : Keys) (value : Json) (key : String) : Bool :=
  keys.required.contains key || (keys.optional.contains key && !(value.getD key).isNull)

/-- An object without the fields that say nothing. -/
def kept (keys : Keys) : Json → Json
  | .obj fields => .obj (fields.filter fun field => keys.keeps (.obj fields) field.1)
  | value => value

/-- Changes what a field holds. -/
def under (key : String) (change : Json → Json) : Json → Json
  | .obj fields =>
    .obj (fields.map fun field => (field.1, if field.1 = key then change field.2 else field.2))
  | value => value

/-- Changes every item of a list. -/
def each (change : Json → Json) : Json → Json
  | .arr items => .arr (items.map change)
  | value => value

/-- The fields of a style. -/
def styleKeys : Keys := ⟨[], ["color", "alignment", "bold"]⟩

/-- The fields of a block of the given type. -/
def blockKeys (type : Json) : Keys :=
  if type.str? = some "heading" then ⟨["type", "level", "text"], ["style"]⟩
  else ⟨["type", "text"], ["style"]⟩

/-- The fields of an action of the given kind. -/
def actionKeys : ActionKind → Keys
  | .replaceSection => ⟨["type", "anchor", "blocks"], []⟩
  | .updateHeadingStyle => ⟨["type", "target", "style"], ["heading_text"]⟩
  | .updateTextFormat => ⟨["type", "target", "style"], []⟩
  | .correctText => ⟨["type", "search_text", "replacement_text"], ["case_sensitive"]⟩
  | .insertText => ⟨["type", "anchor", "location", "blocks"], ["heading_text", "position"]⟩

/-- A block without the fields that say nothing, in the block and in its style. -/
def keptBlock (value : Json) : Json :=
  (value.under "style" (kept styleKeys)).kept (blockKeys (value.getD "type"))

/-- An action without the fields that say nothing, in the action, its blocks and its style. -/
def keptAction (value : Json) : Json :=
  match (value.getD "type").str?.bind ActionKind.ofName? with
  | some kind =>
    ((value.under "style" (kept styleKeys)).under "blocks" (each keptBlock)).kept (actionKeys kind)
  | none => value

/-- A plan without the fields that say nothing in its actions. -/
def keptPlan : Json → Json := under "actions" (each keptAction)

variable {rules : Rules} {value : Json} {keys : Keys} {key : String} {fields : Json.Fields}

/-! ## What is found in objects that keep less -/

theorem lookup_filter_fst (p : String → Bool) (fields : Fields) :
    (fields.filter fun field => p field.1).lookup key =
      if p key then fields.lookup key else none := by
  induction fields with
  | nil => exact (ite_self _).symm
  | cons field rest ih =>
    obtain ⟨name, held⟩ := field
    rw [List.filter_cons, List.lookup_cons]
    by_cases hkey : key = name
    · subst hkey
      by_cases hp : p key = true
      · simp [hp]
      · rw [if_neg hp, ih, if_neg hp, if_neg hp]
    · have hother : (key == name) = false := beq_eq_false_iff_ne.2 hkey
      by_cases hp : p name = true
      · rw [if_pos hp, List.lookup_cons, hother, ih]
      · rw [if_neg hp, hother, ih]

theorem get?_kept :
    (value.kept keys).get? key = if keys.keeps value key then value.get? key else none := by
  cases value with
  | obj fields => exact lookup_filter_fst (keys.keeps (.obj fields)) fields
  | _ => simp [kept, get?]

@[simp] theorem kept_eq_null_iff : value.kept keys = .null ↔ value = .null := by
  cases value <;> simp [kept]

@[simp] theorem each_eq_null_iff {change : Json → Json} :
    value.each change = .null ↔ value = .null := by
  cases value <;> simp [each]

theorem get?_under {change : Json → Json} {other : String} :
    (value.under key change).get? other =
      if other = key then (value.get? other).map change else value.get? other := by
  cases value with
  | obj fields =>
    simp only [under, get?]
    induction fields with
    | nil => simp
    | cons field rest ih =>
      obtain ⟨name, held⟩ := field
      by_cases hkey : other = name
      · subst hkey
        by_cases h : other = key <;> simp [h]
      · have hother : (other == name) = false := by simpa using hkey
        simp only [List.map_cons, List.lookup_cons, hother, ih]
  | _ => simp [under, get?]

/-- A field that is written down is there unless it holds nothing. -/
theorem lookup_present (hnodup : (fields.map (·.1)).Nodup) :
    fields.present.lookup key = (fields.lookup key).filter fun held => !held.isNull := by
  unfold Fields.present
  induction fields with
  | nil => rfl
  | cons field rest ih =>
    obtain ⟨name, held⟩ := field
    obtain ⟨hfirst, hrest⟩ := List.nodup_cons.1 hnodup
    rw [List.filter_cons, List.lookup_cons]
    by_cases hkey : key = name
    · subst hkey
      by_cases hnull : held.isNull = true
      · -- The name does not come again, so leaving its field out leaves none.
        have hnone : rest.lookup key = none := List.lookup_eq_none_iff.2 fun field hf =>
          bne_iff_ne.2 fun h => hfirst (List.mem_map.2 ⟨field, hf, h.symm⟩)
        simp [hnull, ih hrest, hnone, Option.filter]
      · simp [hnull, Option.filter]
    · have hother : (key == name) = false := beq_eq_false_iff_ne.2 hkey
      by_cases hnull : held.isNull = true
      · simp only [hnull, Bool.not_true, Bool.false_eq_true, if_false, ih hrest, hother]
      · simp only [hnull, Bool.not_false, if_true, List.lookup_cons, ih hrest, hother]

theorem getD_present (key : String) (fields : Fields) (hnodup : (fields.map (·.1)).Nodup) :
    (obj fields.present).getD key = (obj fields).getD key := by
  simp only [getD, get?, lookup_present hnodup]
  cases fields.lookup key with
  | none => rfl
  | some held => cases held <;> rfl

/-! ## The written form gives what is written -/

theorem toJson_givesStyle {style : Style} (h : value.GivesStyle rules style) :
    style.toJson.GivesStyle rules style := by
  have hfield (key) := getD_present key [
    ("color", ofString? style.color), ("alignment", ofString? style.alignment),
    ("bold", (style.bold.map Json.bool).getD .null)] (by simp)
  refine ⟨⟨_, rfl⟩, ?_, ?_, ?_, h.valid, h.known⟩ <;> exact (hfield _).trans rfl

theorem toJson_givesStyle? {style : Option Style} (h : value.GivesStyle? rules style) :
    (Style.toJson? style).GivesStyle? rules style := by
  cases style with
  | none => rfl
  | some style => exact toJson_givesStyle h

theorem toJson_givesBlock {block : Block} (h : value.GivesBlock rules block) :
    block.toJson.GivesBlock rules block := by
  cases h with
  | @paragraph text style htype htext hne hlength hbreak hstyle =>
    have hfield (key) := getD_present key [("type", .str "paragraph"),
      ("text", .str text), ("style", Style.toJson? style)] (by simp)
    refine .paragraph ((hfield _).trans rfl) ((hfield _).trans rfl) hne hlength hbreak ?_
    exact (hfield "style").trans rfl ▸ toJson_givesStyle? hstyle
  | @heading text level style htype htext hne hlength hlevel hone hthree hstyle =>
    have hfield (key) := getD_present key [("type", .str "heading"),
      ("level", .int level), ("text", .str text), ("style", Style.toJson? style)] (by simp)
    refine .heading ((hfield _).trans rfl) ((hfield _).trans rfl) hne hlength
      ((hfield _).trans rfl) hone hthree ?_
    exact (hfield "style").trans rfl ▸ toJson_givesStyle? hstyle

theorem toJson_givesBlocks {blocks : List Block} (h : value.GivesBlocks rules blocks) :
    (arr (blocks.map Block.toJson)).GivesBlocks rules blocks := by
  obtain ⟨items, rfl, hne, hmany, hgives⟩ := h
  have hlength := hgives.length_eq
  refine ⟨_, rfl, ?_, by simpa [hlength] using hmany, ?_⟩
  · rw [← List.length_pos_iff] at hne ⊢
    simpa [hlength] using hne
  · rw [List.forall₂_map_left_iff, List.forall₂_same]
    intro block hb
    obtain ⟨item, -, hitem⟩ := exists_mem_of_forall₂ hgives hb
    exact toJson_givesBlock hitem

theorem toJson_givesAction {action : Action} (h : value.GivesAction rules action) :
    action.toJson.GivesAction rules action := by
  cases h.parts with
  | @replaceSection anchor blocks _ hvisible hblocks =>
    have hfield (key) := getD_present key [("type", .str "replace_section"),
      ("anchor", .str anchor), ("blocks", .arr (blocks.map Block.toJson))] (by simp)
    refine ⟨(hfield _).trans rfl, .replaceSection ((hfield _).trans rfl) hvisible ?_⟩
    exact (hfield "blocks").trans rfl ▸ toJson_givesBlocks hblocks
  | @updateHeadingStyle target heading style hknown _ _ hheading hstyle =>
    have hfield (key) := getD_present key [
      ("type", .str "update_heading_style"), ("target", .str target.name),
      ("heading_text", heading), ("style", style.toJson)] (by simp)
    refine ⟨(hfield _).trans rfl, .updateHeadingStyle hknown ((hfield _).trans rfl)
      ((hfield _).trans rfl) hheading ?_⟩
    exact (hfield "style").trans rfl ▸ toJson_givesStyle hstyle
  | @updateTextFormat target style hknown _ hstyle =>
    have hfield (key) := getD_present key [
      ("type", .str "update_text_format"), ("target", .str target.name),
      ("style", style.toJson)] (by simp)
    refine ⟨(hfield _).trans rfl, .updateTextFormat hknown ((hfield _).trans rfl) ?_⟩
    exact (hfield "style").trans rfl ▸ toJson_givesStyle hstyle
  | @correctText search replacement matchCase _ hne hlength _ hlength' _ =>
    have hfield (key) := getD_present key [
      ("type", .str "correct_text"), ("search_text", .str search),
      ("replacement_text", .str replacement),
      ("case_sensitive", (matchCase.map Json.bool).getD .null)] (by simp)
    exact ⟨(hfield _).trans rfl, .correctText ((hfield _).trans rfl) hne hlength
      ((hfield _).trans rfl) hlength' ((hfield _).trans rfl)⟩
  | @insertText anchor location heading position blocks _ hvisible hknown _ _ hheading _ hposition
      hblocks =>
    have hfield (key) := getD_present key [("type", .str "insert_text"),
      ("anchor", .str anchor), ("location", .str location.name), ("heading_text", heading),
      ("position", position), ("blocks", .arr (blocks.map Block.toJson))] (by simp)
    refine ⟨(hfield _).trans rfl, .insertText ((hfield _).trans rfl) hvisible hknown
      ((hfield _).trans rfl) ((hfield _).trans rfl) hheading ((hfield _).trans rfl) hposition ?_⟩
    exact (hfield "blocks").trans rfl ▸ toJson_givesBlocks hblocks

theorem toJson_givesPlan {plan : EditPlan} (h : value.GivesPlan rules plan) :
    plan.toJson.GivesPlan rules plan := by
  obtain ⟨_, items, -, -, -, hlimits, hgives⟩ := h
  have hlength := hgives.length_eq
  refine ⟨_, _, rfl, rfl, rfl, ?_, ?_⟩
  · refine hlimits.imp (fun hnil => ?_) fun hlimits => ⟨by simpa [hlength] using hlimits.1, ?_⟩
    · have hempty : plan.actions = [] := List.length_eq_zero_iff.1 (by rw [← hlength, hnil]; rfl)
      rw [hempty, List.map_nil]
    · simp [Check.planFields]
  · rw [List.forall₂_map_left_iff, List.forall₂_same]
    intro action ha
    obtain ⟨item, -, hitem⟩ := exists_mem_of_forall₂ hgives ha
    exact toJson_givesAction hitem

/-! ## The written form is what has been read -/

/-- A value that holds something. -/
def given? (value : Json) : Option Json := if value.isNull then none else some value

theorem Same.given? {held found : Json} (h : held.Same found) :
    Option.Rel Same held.given? found.given? := by
  cases h with
  | null => exact .none
  | bool b => exact .some (.bool b)
  | int n => exact .some (.int n)
  | float x => exact .some (.float x)
  | str text => exact .some (.str text)
  | arr hitems => exact .some (.arr hitems)
  | obj hfields => exact .some (.obj hfields)

theorem given?_getD (hfound : value.getD key ≠ .null) :
    (value.getD key).given? = value.get? key := by
  unfold getD at hfound ⊢
  cases h : value.get? key with
  | none => simp [h] at hfound
  | some held => cases held <;> simp_all [Json.given?, isNull]

/-- An object that has what it has to have keeps what its fields hold. -/
theorem get?_kept_of_required (key : String)
    (hrequired : ∀ key ∈ keys.required, value.getD key ≠ .null) :
    (value.kept keys).get? key =
      if key ∈ keys.required ++ keys.optional then (value.getD key).given? else none := by
  rw [get?_kept, Keys.keeps]
  by_cases hr : key ∈ keys.required
  · simp [hr, given?_getD (hrequired key hr)]
  · by_cases hnull : value.getD key = .null
    · simp [hr, hnull, Json.given?, isNull]
    · have hn : (value.getD key).isNull = false := by
        cases h : value.getD key <;> simp_all [isNull]
      by_cases ho : key ∈ keys.optional <;> simp [hr, ho, hn, given?_getD hnull]

/-- What is written down is what an object keeps if every field is written as what it holds. -/
theorem same_kept (hobject : ∃ found, value = .obj found) (hnodup : (fields.map (·.1)).Nodup)
    (hkeys : fields.map (·.1) ~ keys.required ++ keys.optional)
    (hrequired : ∀ key ∈ keys.required, value.getD key ≠ .null)
    (hheld : ∀ field ∈ fields, field.2.Same (value.getD field.1)) :
    (obj fields.present).Same (value.kept keys) := by
  obtain ⟨found, rfl⟩ := hobject
  refine .obj fun key => ?_
  have hkept := get?_kept_of_required key hrequired
  simp only [← hkeys.mem_iff] at hkept
  change Option.Rel Same _ ((kept keys (obj found)).get? key)
  rw [hkept, lookup_present hnodup]
  cases hlookup : fields.lookup key with
  | none =>
    have hnot : key ∉ fields.map (·.1) := fun hmem => by
      obtain ⟨field, hf, rfl⟩ := List.mem_map.1 hmem
      simpa using List.lookup_eq_none_iff.1 hlookup field hf
    rw [if_neg hnot]
    exact .none
  | some held =>
    obtain ⟨before, behind, hsplit, -⟩ := List.lookup_eq_some_iff.1 hlookup
    have hmem : (key, held) ∈ fields := by simp [hsplit]
    rw [if_pos (List.mem_map_of_mem (f := (·.1)) hmem)]
    have hsame := (hheld _ hmem).given?
    cases held <;> simpa [Option.filter, Json.given?, isNull] using hsame

theorem getD_under {change : Json → Json} {other : String} (hnull : change .null = .null) :
    (value.under key change).getD other =
      if other = key then change (value.getD other) else value.getD other := by
  unfold getD
  rw [get?_under]
  by_cases h : other = key
  · cases value.get? other <;> simp [h, hnull]
  · simp [h]

@[simp] theorem getD_under_style {other : String} :
    (value.under "style" (kept keys)).getD other =
      if other = "style" then (value.getD other).kept keys else value.getD other :=
  getD_under rfl

@[simp] theorem getD_under_blocks {change : Json → Json} {other : String} :
    (value.under "blocks" (each change)).getD other =
      if other = "blocks" then (value.getD other).each change else value.getD other :=
  getD_under rfl

theorem under_object {change : Json → Json} (h : ∃ found, value = .obj found) :
    ∃ found, value.under key change = .obj found := by
  obtain ⟨found, rfl⟩ := h
  exact ⟨_, rfl⟩

/-- Only objects have fields that are texts. -/
theorem object_of_getD_str {text : String} (h : value.getD key = .str text) :
    ∃ found, value = .obj found := by
  cases value with
  | obj found => exact ⟨found, rfl⟩
  | _ => cases h

theorem toJson_same_style {style : Style} (h : value.GivesStyle rules style) :
    style.toJson.Same (value.kept styleKeys) := by
  refine same_kept h.object (by simp) (by simp [styleKeys]) (by simp [styleKeys]) ?_
  simp only [List.forall_mem_cons, List.not_mem_nil, false_implies, implies_true, and_true]
  exact ⟨h.color ▸ .refl _, h.alignment ▸ .refl _, h.bold ▸ .refl _⟩

theorem toJson?_same_style {style : Option Style} (h : value.GivesStyle? rules style) :
    (Style.toJson? style).Same (value.kept styleKeys) := by
  cases style with
  | none =>
    obtain rfl : value = .null := h
    exact .null
  | some style => exact toJson_same_style h

theorem toJson_same_block {block : Block} (h : value.GivesBlock rules block) :
    block.toJson.Same value.keptBlock := by
  unfold keptBlock
  cases h with
  | paragraph htype htext _ _ _ hstyle =>
    rw [htype]
    refine same_kept (under_object (object_of_getD_str htype)) (by simp) (by simp [blockKeys, str?])
      ?_ ?_
    · simp [blockKeys, str?, htype, htext]
    · simp [htype, htext, Same.refl, toJson?_same_style hstyle]
  | heading htype htext _ _ hlevel _ _ hstyle =>
    rw [htype]
    refine same_kept (under_object (object_of_getD_str htype)) (by simp) (by simp [blockKeys, str?])
      ?_ ?_
    · simp [blockKeys, str?, htype, htext, hlevel]
    · simp [htype, htext, hlevel, Same.refl, toJson?_same_style hstyle]

theorem toJson_same_blocks {blocks : List Block} (h : value.GivesBlocks rules blocks) :
    (arr (blocks.map Block.toJson)).Same (value.each keptBlock) := by
  obtain ⟨items, rfl, -, -, hgives⟩ := h
  refine .arr ?_
  rw [List.forall₂_map_left_iff, List.forall₂_map_right_iff]
  exact (hgives.imp fun _ _ => toJson_same_block).flip

/-- An action is written down as the value it was read from, without the fields that say
nothing. -/
theorem toJson_same_action {action : Action} (h : value.GivesAction rules action) :
    action.toJson.Same value.keptAction := by
  have hkind : (value.getD "type").str?.bind ActionKind.ofName? = some action.kind := by
    rw [h.type, str?, Option.bind_some, ActionKind.ofName?_name]
  have hobject : ∃ found,
      (value.under "style" (kept styleKeys)).under "blocks" (each keptBlock) = .obj found :=
    under_object (under_object (object_of_getD_str h.type))
  have htype := h.type
  simp only [keptAction, hkind]
  cases h.parts with
  | replaceSection hanchor _ hblocks =>
    refine same_kept hobject (by simp) (by simp [actionKeys, Action.kind]) ?_ ?_
    · obtain ⟨items, hitems, -⟩ := hblocks
      simp [actionKeys, Action.kind, htype, hanchor, hitems]
    · simp [htype, hanchor, Same.refl, toJson_same_blocks hblocks]
  | updateHeadingStyle _ htarget htext _ hstyle =>
    refine same_kept hobject (by simp) ?_ ?_ ?_
    · simpa [actionKeys, Action.kind] using List.Perm.swap _ _ _
    · obtain ⟨fields, hfields⟩ := hstyle.object
      simp [actionKeys, Action.kind, htype, htarget, hfields]
    · simp [htype, htarget, htext, Same.refl, toJson_same_style hstyle]
  | updateTextFormat _ htarget hstyle =>
    refine same_kept hobject (by simp) (by simp [actionKeys, Action.kind]) ?_ ?_
    · obtain ⟨fields, hfields⟩ := hstyle.object
      simp [actionKeys, Action.kind, htype, htarget, hfields]
    · simp [htype, htarget, Same.refl, toJson_same_style hstyle]
  | correctText hsearch _ _ hreplacement _ hcase =>
    refine same_kept hobject (by simp) (by simp [actionKeys, Action.kind]) ?_ ?_
    · simp [actionKeys, Action.kind, htype, hsearch, hreplacement]
    · simp [htype, hsearch, hreplacement, hcase, ofBool?, Same.refl]
  | insertText hanchor _ _ hlocation htext _ hposition _ hblocks =>
    refine same_kept hobject (by simp) ?_ ?_ ?_
    · have hlast :
          ["heading_text", "position"] ++ ["blocks"] ~ ["blocks"] ++ ["heading_text", "position"] :=
        List.perm_append_comm
      simpa [actionKeys, Action.kind] using hlast
    · obtain ⟨items, hitems, -⟩ := hblocks
      simp [actionKeys, Action.kind, htype, hanchor, hlocation, hitems]
    · simp [htype, hanchor, hlocation, htext, hposition, Same.refl,
        toJson_same_blocks hblocks]

/-- A plan with actions is written down as the value it was read from, without the fields that say
nothing. -/
theorem toJson_same_plan {plan : EditPlan} (h : value.GivesPlan rules plan)
    (hne : value.getD "actions" ≠ .arr []) : plan.toJson.Same value.keptPlan := by
  obtain ⟨found, items, rfl, hversion, hactions, hlimits, hgives⟩ := h
  have hactions' : (obj found).get? "actions" = some (.arr items) := by
    rw [← given?_getD (by simp [hactions]), hactions]
    rfl
  have hversion' : (obj found).get? "version" = some (.str EditPlan.version) := by
    rw [← given?_getD (by simp [hversion]), hversion]
    rfl
  -- A plan with actions has no field beside the two.
  have hother : ∀ key, key ≠ "version" → key ≠ "actions" → (obj found).get? key = none := by
    intro key hv ha
    have hfields := (hlimits.resolve_left fun hnil => hne (hnil ▸ hactions)).2
    refine List.lookup_eq_none_iff.2 fun field hf => bne_iff_ne.2 fun hkey => ?_
    rcases List.mem_pair.1 (hfields field hf) with h | h
    · exact hv (hkey.trans h)
    · exact ha (hkey.trans h)
  refine .obj fun key => ?_
  change Option.Rel Same _ (((obj found).under "actions" (each keptAction)).get? key)
  rw [get?_under]
  by_cases ha : key = "actions"
  · subst ha
    rw [if_pos rfl, hactions']
    refine .some (.arr ?_)
    rw [List.forall₂_map_left_iff, List.forall₂_map_right_iff]
    exact (hgives.imp fun _ _ => toJson_same_action).flip
  · rw [if_neg ha]
    by_cases hv : key = "version"
    · subst hv
      rw [hversion']
      exact .some (.str _)
    · rw [hother key hv ha]
      have hnone : List.lookup key [("version", str EditPlan.version),
          ("actions", arr (plan.actions.map Action.toJson))] = none := by
        rw [List.lookup_cons, List.lookup_cons, beq_eq_false_iff_ne.2 hv,
          beq_eq_false_iff_ne.2 ha, List.lookup_nil]
      rw [hnone]
      exact .none

end Json

namespace Check

/-! ## Block plans -/

/-- An operation on a visible id whose content is not too long is read as what it is. -/
theorem readOperation_toJson {rules : Rules} {op : Operation} (index : Nat)
    (hid : (Json.str op.target).IsVisible rules) (hlength : rules.Admits op.content) :
    readOperation rules index op.toJson = .ok op := by
  obtain ⟨target, htarget, hvisible, hshort⟩ := hid
  obtain rfl := Json.str.inj htarget
  have hkind : OperationKind.ofName? op.kind.name = some op.kind := by cases op.kind <;> rfl
  have htext : visibleText? (.str op.target) = some op.target :=
    visibleText?_eq_some_iff.2 ⟨rfl, hvisible⟩
  have htarget (path what) : limited rules path what op.target = .ok op.target :=
    limited_eq_ok_iff.2 ⟨rfl, hshort⟩
  have hcontent (path what) : limited rules path what op.content = .ok op.content :=
    limited_eq_ok_iff.2 ⟨rfl, hlength⟩
  have hreason (path) : readReason index path op.toJson = .ok op.reason := rfl
  have hfields : op.toJson.fields?.isNone = false ∧ op.toJson.getD "action" = .str op.kind.name ∧
      op.toJson.getD "target_block_id" = .str op.target ∧
      op.toJson.getD "content" = .str op.content := ⟨rfl, rfl, rfl, rfl⟩
  simp only [readOperation, hfields, Json.str?, Option.bind_some, hkind, htext, htarget, hcontent,
    hreason, Bool.false_eq_true, if_false, bind, Except.bind]

theorem readOperations_toJson {rules : Rules} {ops : List Operation}
    (h : ∀ op ∈ ops, (Json.str op.target).IsVisible rules ∧ rules.Admits op.content) (index : Nat) :
    readEach (readOperation rules) index (ops.map Operation.toJson) = .ok ops := by
  induction ops generalizing index with
  | nil => rfl
  | cons op rest ih =>
    obtain ⟨⟨hid, hlength⟩, hrest⟩ := List.forall_mem_cons.1 h
    simp only [List.map_cons, readEach, readOperation_toJson index hid hlength, ih hrest, bind,
      Except.bind]

/-- What is read from the written form of a block plan is the plan, if it has operations and each of
them is within the limits. -/
theorem readBlockPlan_toJson {rules : Rules} {plan : BlockPlan} (hne : plan.operations ≠ [])
    (h : ∀ op ∈ plan.operations, (Json.str op.target).IsVisible rules ∧ rules.Admits op.content) :
    readBlockPlan rules plan.toJson = .ok plan := by
  obtain ⟨op, rest, hops⟩ := List.exists_cons_of_ne_nil hne
  have hfield : plan.toJson.getD "ops" = .arr (op.toJson :: rest.map Operation.toJson) := by
    rw [← List.map_cons, ← hops]
    rfl
  have hread := readOperations_toJson h 0
  rw [hops, List.map_cons] at hread
  rw [BlockPlan.toJson] at hfield ⊢
  simp only [readBlockPlan, hfield, hread, ← hops, bind, Except.bind]

/-! ## Edit plans -/

/-- What is read from the written form of a plan is the plan, and the written form of a plan with
actions is the value it was read from, without fields that are unknown and optional ones that hold
nothing. -/
theorem readEditPlan_normal_form {rules : Rules} {value : Json} {plan : EditPlan}
    (h : readEditPlan rules value = .ok plan) :
    readEditPlan rules plan.toJson = .ok plan ∧
      (value.getD "actions" ≠ .arr [] → plan.toJson.Same value.keptPlan) := by
  have hgives := readEditPlan_eq_ok_iff.1 h
  exact ⟨readEditPlan_eq_ok_iff.2 (Json.toJson_givesPlan hgives), Json.toJson_same_plan hgives⟩

/-- A note and a size are unknown, and neither a color nor a heading text is given: the written form
has none of them. -/
theorem readEditPlan_normal_form_noted :
    let value : Json := .obj [("actions", .arr [.obj [("type", .str "insert_text"),
      ("heading_text", .null), ("anchor", .str "main"), ("note", .str "first"),
      ("location", .str "start"), ("position", .int 4),
      ("blocks", .arr [.obj [("type", .str "heading"), ("text", .str "Title"), ("level", .int 2),
        ("style", .obj [("size", .int 12), ("bold", .bool true), ("color", .null)])]])]]),
      ("version", .str "1.0")]
    let plan : EditPlan := ⟨[.insertText "main" .start .null (.int 4)
      [.heading "Title" 2 (some { bold := some true })]]⟩
    readEditPlan {} plan.toJson = .ok plan ∧ plan.toJson.Same value.keptPlan := by
  intro value plan
  have hread : readEditPlan {} value = .ok plan := by rfl
  have h := readEditPlan_normal_form hread
  exact ⟨h.1, h.2 nofun⟩

end Check

end Redline
