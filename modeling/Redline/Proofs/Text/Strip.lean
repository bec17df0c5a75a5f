import Mathlib.Data.List.DropRight
import Redline.Text.Blank
import Redline.Text.Lowercase

/-!
# Stripped texts

Blanks at the ends of a text come off at once: stripping again changes nothing, and nothing is left
of a text that holds nothing but blanks.  Lowering a text does not empty it.
-/

namespace Redline.Text

theorem strip_eq_rdropWhile (l : List Char) :
    strip l = (l.dropWhile isBlank).rdropWhile isBlank := rfl

theorem strip_eq_nil {l : List Char} : strip l = [] ↔ allBlank l = true := by
  rw [strip_eq_rdropWhile, List.rdropWhile_eq_nil_iff, allBlank, List.all_eq_true]
  constructor
  · intro h c hc
    have hcut : c ∈ l.takeWhile isBlank ++ l.dropWhile isBlank := by
      rwa [List.takeWhile_append_dropWhile]
    rcases List.mem_append.1 hcut with hc | hc
    · exact List.mem_takeWhile_imp hc
    · exact h c hc
  · intro h c hc
    exact h c ((List.dropWhile_suffix isBlank).subset hc)

/-- The first character of a stripped text is not blank. -/
theorem dropWhile_strip (l : List Char) : (strip l).dropWhile isBlank = strip l := by
  rw [List.dropWhile_eq_self_iff]
  intro hl
  have hprefix : strip l <+: l.dropWhile isBlank := List.rdropWhile_prefix isBlank _
  have hlong : 0 < (l.dropWhile isBlank).length := hl.trans_le hprefix.length_le
  have hfirst : (strip l)[0] = (l.dropWhile isBlank)[0] := hprefix.getElem hl
  rw [hfirst]
  exact List.dropWhile_eq_self_iff.1 (List.dropWhile_idempotent isBlank l) hlong

@[simp] theorem strip_strip (l : List Char) : strip (strip l) = strip l := by
  calc strip (strip l) = ((strip l).dropWhile isBlank).rdropWhile isBlank := rfl
    _ = (strip l).rdropWhile isBlank := by rw [dropWhile_strip]
    _ = strip l := List.rdropWhile_idempotent isBlank _

theorem isEmpty_trimmed (text : String) : (trimmed text).isEmpty = allBlank text.toList := by
  rw [Bool.eq_iff_iff, ← strip_eq_nil, String.isEmpty_iff]
  simp [trimmed]

theorem trimmed_eq_iff {s t : String} : trimmed s = trimmed t ↔ strip s.toList = strip t.toList := by
  rw [trimmed, trimmed, String.ofList_inj]

theorem lower_eq_nil {l : List Char} : lower l = [] ↔ l = [] := by
  cases l with
  | nil => simp [lower, lowerFrom]
  | cons c rest =>
    simp only [lower, lowerFrom, List.append_eq_nil_iff, reduceCtorEq, iff_false, not_and]
    intro h
    split at h
    · cases h
    · split at h <;> cases h

end Redline.Text
