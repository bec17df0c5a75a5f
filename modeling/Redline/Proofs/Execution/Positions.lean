import Mathlib.Algebra.Order.Ring.Rat
import Mathlib.Data.Nat.Cast.Order.Ring
import Redline.Execution

/-!
# Positions in the whole text

When the texts of paragraphs stand one behind the other, with one character between them, a position
lies in one of them at most.  The search for a position finds that paragraph, and every position up
to the end of the whole text belongs to one.

## Main definitions

* `Execution.offset` — where a paragraph's text starts.
* `Execution.Covers` — a position lies in the text of a paragraph.
* `Execution.wholeText` — the texts with one character between them.
-/

namespace Redline.Execution

variable {passages : List Passage} {p q : Passage} {position : Rat} {start n j k : Nat}

/-- Where the text of the paragraph with the given index starts. -/
def offset (passages : List Passage) (k : Nat) : Nat :=
  ((passages.take k).map (·.text.length + 1)).sum

/-- A position lies in the text of the paragraph with the given index, its end included. -/
def Covers (passages : List Passage) (position : Rat) (k : Nat) : Prop :=
  ∃ p, passages[k]? = some p ∧ offset passages k ≤ position ∧
    position ≤ (offset passages k + p.text.length : Nat)

/-- The texts of paragraphs with one character between them. -/
def wholeText (passages : List Passage) : String := "\n".intercalate (passages.map (·.text))

/-! ## Where texts start -/

@[simp] theorem offset_zero (passages : List Passage) : offset passages 0 = 0 := by
  simp [offset]

@[simp] theorem offset_cons_succ (p : Passage) (passages : List Passage) (k : Nat) :
    offset (p :: passages) (k + 1) = p.text.length + 1 + offset passages k := by
  simp [offset]

/-- A text ends before the next one starts. -/
theorem offset_lt (hp : passages[k]? = some p) (h : k < j) :
    offset passages k + p.text.length < offset passages j := by
  induction passages generalizing j k with
  | nil => cases hp
  | cons q rest ih =>
    obtain ⟨j, rfl⟩ : ∃ i, j = i + 1 := ⟨j - 1, by omega⟩
    rw [offset_cons_succ]
    cases k with
    | zero =>
      obtain rfl : q = p := Option.some.inj hp
      rw [offset_zero]
      omega
    | succ k =>
      have hrest := ih (j := j) hp (by omega)
      rw [offset_cons_succ]
      omega

/-- No position lies in two texts. -/
theorem covers_unique (hj : Covers passages position j) (hk : Covers passages position k) :
    j = k := by
  obtain ⟨p, hp, hjlo, hjhi⟩ := hj
  obtain ⟨q, hq, hklo, hkhi⟩ := hk
  have hle : offset passages k ≤ offset passages j + p.text.length := by
    exact_mod_cast hklo.trans hjhi
  have hge : offset passages j ≤ offset passages k + q.text.length := by
    exact_mod_cast hjlo.trans hkhi
  by_contra hne
  rcases Nat.lt_or_gt_of_ne hne with hlt | hlt
  · have := offset_lt hp hlt
    omega
  · have := offset_lt hq hlt
    omega

/-- The whole text is one character shorter than where a further text would start. -/
theorem length_wholeText (hne : passages ≠ []) :
    (wholeText passages).length + 1 = offset passages passages.length := by
  induction passages with
  | nil => exact absurd rfl hne
  | cons p rest ih =>
    rw [List.length_cons, offset_cons_succ, wholeText, List.map_cons]
    by_cases hrest : rest = []
    · subst hrest
      simp
    · have hjoined := String.intercalate_cons_of_ne_nil (s := "\n") (t := p.text)
        (l := rest.map (·.text)) (by simpa using hrest)
      have hlength := ih hrest
      rw [wholeText] at hlength
      rw [hjoined, String.length_append, String.length_append, ← hlength,
        show "\n".length = 1 from rfl]
      omega

/-- A position in one of the texts lies in the whole text. -/
theorem le_of_covers (h : Covers passages position k) :
    0 ≤ position ∧ passages ≠ [] ∧ position ≤ ((wholeText passages).length : Nat) := by
  obtain ⟨p, hp, hlo, hhi⟩ := h
  have hne : passages ≠ [] := by
    rintro rfl
    cases hp
  have hlt := offset_lt hp (List.getElem?_eq_some_iff.1 hp).1
  have hlength := length_wholeText hne
  have hle : offset passages k + p.text.length ≤ (wholeText passages).length := by omega
  refine ⟨?_, hne, ?_⟩
  · exact (Nat.cast_nonneg (offset passages k)).trans hlo
  · exact hhi.trans (by exact_mod_cast hle)

/-! ## The search -/

theorem covers_of_passageAt_from (h : passageAt position start passages = some p) :
    ∃ k, passages[k]? = some p ∧ (start + offset passages k : Nat) ≤ position ∧
      position ≤ (start + offset passages k + p.text.length : Nat) := by
  induction passages generalizing start with
  | nil => cases h
  | cons q rest ih =>
    simp only [passageAt] at h
    split at h
    · next hin =>
      obtain rfl := Option.some.inj h
      exact ⟨0, rfl, by simpa using hin.1, by simpa using hin.2⟩
    · obtain ⟨k, hk, hlo, hhi⟩ := ih h
      refine ⟨k + 1, hk, ?_, ?_⟩
      · rw [offset_cons_succ]
        convert hlo using 2
        omega
      · rw [offset_cons_succ]
        convert hhi using 2
        omega

/-- The paragraph that is found for a position is the one whose text it lies in. -/
theorem covers_of_passageAt (h : passageAt position 0 passages = some p) :
    ∃ k, passages[k]? = some p ∧ Covers passages position k := by
  obtain ⟨k, hk, hlo, hhi⟩ := covers_of_passageAt_from h
  rw [Nat.zero_add] at hlo hhi
  exact ⟨k, hk, p, hk, hlo, hhi⟩

/-- Every position up to the end of the whole text is found. -/
theorem exists_passageAt_from (hstart : start ≤ n)
    (hn : n < start + offset passages passages.length) :
    ∃ p, passageAt (n : Rat) start passages = some p := by
  induction passages generalizing start with
  | nil =>
    simp only [List.length_nil, offset_zero] at hn
    omega
  | cons q rest ih =>
    rw [List.length_cons, offset_cons_succ] at hn
    simp only [passageAt]
    by_cases hin : n ≤ start + q.text.length
    · exact ⟨q, if_pos ⟨by exact_mod_cast hstart, by exact_mod_cast hin⟩⟩
    · rw [if_neg fun h => hin (by exact_mod_cast h.2)]
      exact ih (by omega) (by omega)

/-- A position is found if it lies in the whole text of some paragraphs. -/
theorem exists_passageAt {position : Int} (hpos : 0 ≤ position) (hne : passages ≠ [])
    (hle : position ≤ (wholeText passages).length) :
    ∃ p, passageAt position 0 passages = some p := by
  obtain ⟨n, rfl⟩ := Int.eq_ofNat_of_zero_le hpos
  have hlength := length_wholeText hne
  have hfound : ∃ p, passageAt (n : Rat) 0 passages = some p :=
    exists_passageAt_from (Nat.zero_le n) (by omega)
  exact_mod_cast hfound

end Redline.Execution
