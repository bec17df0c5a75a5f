import Redline.Proofs.Forest.Characters

/-!
# Splicing run texts

A stretch of a paragraph's run text may begin and end anywhere in its runs.  A splice goes through
the runs from left to right: what it does to one of them depends on where the run lies, and a run
that is touched is written anew.
-/

namespace Redline.Forest

open Redline.Text

section
variable (text : String) (format : RunFormat) (inside rest : Forest)

@[simp] theorem runText_nil : Forest.nil.runText = [] := rfl

@[simp] theorem runText_cons_run :
    (Forest.cons (.run text format) inside rest).runText = text.toList ++ rest.runText := by
  simp [runText, runTexts]

end

theorem runText_cons_other {e : Element} (inside rest : Forest)
    (he : ∀ text format, e ≠ .run text format) :
    (Forest.cons e inside rest).runText = rest.runText := by
  cases e <;> simp_all [runText, runTexts]

theorem spliceFrom_cons_other {start stop position : Nat} {new : List Char} {e : Element}
    (inside rest : Forest) (he : ∀ text format, e ≠ .run text format) :
    spliceFrom start stop position new (.cons e inside rest) =
      (.cons e inside (spliceFrom start stop position new rest).1,
        (spliceFrom start stop position new rest).2) := by
  cases e <;> simp_all [spliceFrom]

variable {start stop position : Nat} {new : List Char}

theorem ofKind_spliceFrom {kind : Char → Bool} [Admits kind] {f : Forest} (hf : f.OfKind kind) :
    (spliceFrom start stop position new f).1.OfKind kind := by
  induction f generalizing position new with
  | nil => exact hf
  | cons e inside rest _ ih =>
    rw [ofKind_cons] at hf
    by_cases he : ∃ text format, e = .run text format
    · obtain ⟨text, format, rfl⟩ := he
      have htouched : ∀ merged,
          ∀ c ∈ (Element.run (String.ofList (written merged)) format).characters,
            kind c = true := by
        simpa [Element.characters] using fun merged c => Admits.of_mem_written
      simp only [spliceFrom]
      split
      · exact ofKind_cons.2 ⟨hf.1, hf.2.1, ih hf.2.2⟩
      · split
        · exact ofKind_cons.2 ⟨htouched _, ofKind_nil, ih hf.2.2⟩
        · exact ofKind_cons.2 ⟨htouched _, ofKind_nil, hf.2.2⟩
    · rw [spliceFrom_cons_other _ _ (by simpa using he)]
      exact ofKind_cons.2 ⟨hf.1, hf.2.1, ih hf.2.2⟩

theorem handles_spliceFrom_sublist (f : Forest) :
    (spliceFrom start stop position new f).1.handles.Sublist f.handles := by
  induction f generalizing position new with
  | nil => simp [spliceFrom]
  | cons e inside rest _ ih =>
    by_cases he : ∃ text format, e = .run text format
    · obtain ⟨text, format, rfl⟩ := he
      have hrest := List.sublist_append_right inside.handles rest.handles
      simp only [spliceFrom]
      split
      · simpa [Element.handle?] using ih
      · split
        · simpa [Element.handle?] using ih.trans hrest
        · simp [Element.handle?]
    · rw [spliceFrom_cons_other _ _ (by simpa using he)]
      simpa using ih

theorem isWritable_spliced {text : List Char} (hn : isWritable new = true)
    (ht : ∀ c ∈ text, isAllowed c = true) :
    isWritable (spliced start stop position new text) = true := by
  rw [isWritable_iff] at hn ⊢
  intro c hc
  simp only [spliced, List.mem_append] at hc
  rcases hc with (hc | hc) | hc
  · exact ht c (List.mem_of_mem_take hc)
  · exact hn c hc
  · exact ht c (List.mem_of_mem_drop hc)

/-- What is kept of a run reads back as it is if it holds no return. -/
theorem written_spliced {text : List Char} (hn : isWritable new = true)
    (ht : ∀ c ∈ text, isAllowed c = true)
    (hfront : ∀ c ∈ text.take (start - position), isReadable c = true)
    (hback : ∀ c ∈ text.drop (stop - position), isReadable c = true) :
    written (spliced start stop position new text) =
      text.take (start - position) ++ new.map readBack ++ text.drop (stop - position) := by
  have hmin : text.drop (min stop (position + text.length) - position) =
      text.drop (stop - position) := by
    by_cases h : stop ≤ position + text.length
    · rw [Nat.min_eq_left h]
    · rw [List.drop_eq_nil_of_le (by omega), List.drop_eq_nil_of_le (by omega)]
  have hmax : max start position - position = start - position := by omega
  rw [written_of_isWritable (isWritable_spliced hn ht), spliced]
  simp only [List.map_append, hmin, hmax, map_readBack_of_readable hfront,
    map_readBack_of_readable hback]

section
variable (text : String) (format : RunFormat) (inside rest : Forest)

/-- A run outside of the stretch stays as it is. -/
theorem spliceFrom_cons_untouched
    (h : position + text.toList.length ≤ start ∨ stop ≤ position) :
    spliceFrom start stop position new (.cons (.run text format) inside rest) =
      (.cons (.run text format) inside
          (spliceFrom start stop (position + text.toList.length) new rest).1,
        (spliceFrom start stop (position + text.toList.length) new rest).2) := by
  simp only [spliceFrom, if_pos h]

/-- The first run of the stretch takes the new text and is written anew, and nothing is left for
those behind it. -/
theorem spliceFrom_cons_touched (hn : isWritable new = true)
    (ht : ∀ c ∈ text.toList, isAllowed c = true)
    (h : ¬(position + text.toList.length ≤ start ∨ stop ≤ position)) :
    spliceFrom start stop position new (.cons (.run text format) inside rest) =
      (.cons (.run (String.ofList (written (spliced start stop position new text.toList))) format)
          .nil (spliceFrom start stop (position + text.toList.length) [] rest).1,
        (spliceFrom start stop (position + text.toList.length) [] rest).2) := by
  simp only [spliceFrom, if_neg h, isWritable_spliced hn ht, if_true]

end

/-- Behind its end a splice changes nothing. -/
theorem spliceFrom_of_stop_le (hp : stop ≤ position) (new : List Char)
    (f : Forest) : spliceFrom start stop position new f = (f, true) := by
  induction f generalizing position with
  | nil => rfl
  | cons e inside rest _ ih =>
    by_cases he : ∃ text format, e = .run text format
    · obtain ⟨text, format, rfl⟩ := he
      rw [spliceFrom_cons_untouched _ _ _ _ (Or.inr hp), ih (by omega)]
    · rw [spliceFrom_cons_other _ _ (by simpa using he), ih hp]

/-- Runs take a text that can be written, wherever it is put in. -/
theorem spliceFrom_sound {f : Forest} (hf : f.OfKind isAllowed) (hn : isWritable new = true) :
    (spliceFrom start stop position new f).2 = true := by
  induction f generalizing position new with
  | nil => rfl
  | cons e inside rest _ ih =>
    rw [ofKind_cons] at hf
    by_cases he : ∃ text format, e = .run text format
    · obtain ⟨text, format, rfl⟩ := he
      by_cases h : position + text.toList.length ≤ start ∨ stop ≤ position
      · rw [spliceFrom_cons_untouched _ _ _ _ h]
        exact ih hf.2.2 hn
      · rw [spliceFrom_cons_touched _ _ _ _ hn hf.1 h]
        exact ih hf.2.2 rfl
    · rw [spliceFrom_cons_other _ _ (by simpa using he)]
      exact ih hf.2.2 hn

/-- A splice that finds a place for a new text that cannot be written says so. -/
theorem spliceFrom_unsound {f : Forest} (hn : isWritable new = false)
    (hp : position ≤ start) (hs : start < stop) (hlt : start < position + f.runText.length) :
    (spliceFrom start stop position new f).2 = false := by
  induction f generalizing position with
  | nil =>
    rw [runText_nil, List.length_nil] at hlt
    omega
  | cons e inside rest _ ih =>
    by_cases he : ∃ text format, e = .run text format
    · obtain ⟨text, format, rfl⟩ := he
      rw [runText_cons_run, List.length_append] at hlt
      by_cases h : position + text.toList.length ≤ start ∨ stop ≤ position
      · rw [spliceFrom_cons_untouched _ _ _ _ h]
        exact ih (by omega) (by omega)
      · have hmerged : isWritable (spliced start stop position new text.toList) = false := by
          simp only [isWritable, spliced, List.all_append] at hn ⊢
          simp [hn]
        simp [spliceFrom, h, hmerged]
    · have he := (by simpa using he : ∀ text format, e ≠ .run text format)
      rw [runText_cons_other _ _ he] at hlt
      rw [spliceFrom_cons_other _ _ he]
      exact ih hp hlt

end Redline.Forest
