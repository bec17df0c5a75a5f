import Redline.Plan.Violation
import Redline.Proofs.Number.Values

/-!
# Values in wordings

A value is shown in a message unless an integer in it has too many digits.  Whether a violation can
be told depends on nothing else.

## Main definitions

* `Json.HasLong` — an integer in a value has too many digits.
* `Json.ShownUnless` — what comes of showing something with or without such an integer.

## Main results

* `Json.display_cases` — which values can be shown.
* `Violation.message_cases` — which violations can be told.
-/

namespace Redline

namespace Json

/-- An integer in the value has too many digits to be written. -/
inductive HasLong : Json → Prop
  | int {n : Int} : Numeral.bound ≤ n.natAbs → HasLong (.int n)
  | item {items : List Json} {value : Json} : value ∈ items → value.HasLong → HasLong (.arr items)
  | field {fields : Fields} {key : String} {value : Json} : (key, value) ∈ fields →
      value.HasLong → HasLong (.obj fields)

/-- Something is shown unless there is a long integer in it. -/
def ShownUnless (long : Prop) (shown : Except Fault String) : Prop :=
  long ∧ shown = .error .unwrittenInteger ∨ ¬ long ∧ ∃ text, shown = .ok text

/-- What is shown of the first value stands in front of what is shown of the rest. -/
theorem ShownUnless.join {first rest : Prop} {shown others : Except Fault String}
    (hf : ShownUnless first shown) (hr : ShownUnless rest others) (join : String → String → String) :
    ShownUnless (first ∨ rest) (do .ok (join (← shown) (← others))) := by
  rcases hf with ⟨hfirst, rfl⟩ | ⟨hfirst, text, rfl⟩
  · exact .inl ⟨.inl hfirst, rfl⟩
  · rcases hr with ⟨hrest, rfl⟩ | ⟨hrest, more, rfl⟩
    · exact .inl ⟨.inr hrest, rfl⟩
    · exact .inr ⟨not_or.2 ⟨hfirst, hrest⟩, _, rfl⟩

theorem ShownUnless.map {long other : Prop} {shown : Except Fault String} (h : ShownUnless long shown)
    (hiff : other ↔ long) (wrap : String → String) :
    ShownUnless other (do .ok (wrap (← shown))) := by
  rcases h with ⟨hlong, rfl⟩ | ⟨hlong, text, rfl⟩
  · exact .inl ⟨hiff.2 hlong, rfl⟩
  · exact .inr ⟨fun h => hlong (hiff.1 h), _, rfl⟩

theorem shownItems_cases {items : List Json}
    (h : ∀ value ∈ items, ShownUnless value.HasLong value.shown) :
    ShownUnless (∃ value ∈ items, value.HasLong) (shownItems items) := by
  induction items with
  | nil => exact .inr ⟨by simp, _, rfl⟩
  | cons item rest ih =>
    obtain ⟨hitem, hrest⟩ := List.forall_mem_cons.1 h
    rw [List.exists_mem_cons_iff]
    cases rest with
    | nil => simpa [shownItems] using hitem
    | cons next others =>
      rw [shownItems]
      · exact hitem.join (ih hrest) fun first rest => first ++ ", " ++ rest
      · simp

theorem shownFields_cases {fields : Fields}
    (h : ∀ field ∈ fields, ShownUnless field.2.HasLong field.2.shown) :
    ShownUnless (∃ field ∈ fields, field.2.HasLong) (shownFields fields) := by
  induction fields with
  | nil => exact .inr ⟨by simp, _, rfl⟩
  | cons field rest ih =>
    obtain ⟨hfield, hrest⟩ := List.forall_mem_cons.1 h
    obtain ⟨key, value⟩ := field
    rw [List.exists_mem_cons_iff]
    cases rest with
    | nil =>
      rw [shownFields]
      exact hfield.map (by simp) fun shown => Text.quotedString key ++ ": " ++ shown
    | cons next others =>
      rw [shownFields]
      · exact hfield.join (ih hrest) fun shown rest =>
          Text.quotedString key ++ ": " ++ shown ++ ", " ++ rest
      · simp

/-- A value is shown unless an integer in it has too many digits. -/
theorem shown_cases : ∀ value : Json, ShownUnless value.HasLong value.shown
  | .null | .bool _ | .float _ | .str _ => .inr ⟨nofun, _, rfl⟩
  | .int n => by
    rcases Nat.lt_or_ge n.natAbs Numeral.bound with hshort | hlong
    · exact .inr ⟨fun | .int hlong => Nat.not_lt.2 hlong hshort, _, Numeral.write_of_lt hshort⟩
    · exact .inl ⟨.int hlong, Numeral.write_of_le hlong⟩
  | .arr items => by
    have hiff : (Json.arr items).HasLong ↔ ∃ value ∈ items, value.HasLong :=
      ⟨fun | .item hmem hlong => ⟨_, hmem, hlong⟩, fun ⟨_, hmem, hlong⟩ => .item hmem hlong⟩
    exact (shownItems_cases fun value _ => shown_cases value).map hiff
      fun shown => "[" ++ shown ++ "]"
  | .obj fields => by
    have hiff : (Json.obj fields).HasLong ↔ ∃ field ∈ fields, field.2.HasLong :=
      ⟨fun | .field hmem hlong => ⟨_, hmem, hlong⟩, fun ⟨_, hmem, hlong⟩ => .field hmem hlong⟩
    exact (shownFields_cases fun field _ => shown_cases field.2).map hiff
      fun shown => "\x7b" ++ shown ++ "\x7d"
termination_by value => sizeOf value
decreasing_by
  · have hlt := List.sizeOf_lt_of_mem ‹value ∈ items›
    simp only [arr.sizeOf_spec]
    omega
  · have hlt := List.sizeOf_lt_of_mem ‹field ∈ fields›
    rw [Prod.mk.sizeOf_spec] at hlt
    simp only [obj.sizeOf_spec]
    omega

theorem display_cases (value : Json) : ShownUnless value.HasLong value.display := by
  cases value with
  | str text => exact .inr ⟨nofun, text, rfl⟩
  | _ => exact shown_cases _

end Json

/-- A violation is told unless an integer in the value that it quotes has too many digits. -/
theorem Violation.message_cases (v : Violation) :
    Json.ShownUnless (∃ value ∈ v.quoted, value.HasLong) v.message := by
  rw [message]
  cases v.quoted with
  | none => exact .inr ⟨by simp, _, rfl⟩
  | some value => exact value.display_cases.map (by simp) fun shown => v.wording shown

end Redline
