import Redline.Proofs.Forest.Splice

/-!
# What a paragraph shows and what a search reads

A search reads the text of a paragraph's runs.  The paragraph shows the texts of its links as well,
each where the link stands.  A stretch of the run text shows as it is read unless a link with a text
stands within it.

## Main definitions

* `Forest.LinkWithin` — a link with a text stands within a stretch of the run text.
-/

namespace Redline.Forest

/-- A link with a text stands behind the first and in front of the last character of a stretch of
the run text. -/
def LinkWithin (start stop : Nat) (content : Forest) : Prop :=
  ∃ front inside behind, content = front ++ .cons .link inside behind ∧ inside.runText ≠ [] ∧
    start < front.runText.length ∧ front.runText.length < stop

variable {content rest : Forest} {start stop : Nat}

theorem shownText_suffix (e : Element) (inside rest : Forest) :
    rest.shownText <:+ (Forest.cons e inside rest).shownText := by
  cases e <;> simp [shownText]

/-- What is no run shows nothing, but for a link with a text. -/
theorem shownText_cons_other {e : Element} (inside rest : Forest)
    (he : ∀ text format, e ≠ .run text format) :
    (e = .link ∧ inside.runText ≠ []) ∨ (Forest.cons e inside rest).shownText = rest.shownText := by
  cases e with
  | run text format => exact absurd rfl (he text format)
  | link =>
    by_cases htext : inside.runText = []
    · exact Or.inr (by rw [shownText, htext, List.nil_append])
    · exact Or.inl ⟨rfl, htext⟩
  | _ => exact Or.inr (by simp [shownText])

/-- Behind a run that is over, links stand as they stand in the rest. -/
theorem LinkWithin.cons_run {text : String} (format : RunFormat) (inside : Forest)
    (h : rest.LinkWithin (start - text.toList.length) (stop - text.toList.length))
    (hover : text.toList.length ≤ start) :
    (Forest.cons (.run text format) inside rest).LinkWithin start stop := by
  obtain ⟨front, link, behind, rfl, htext, hstart, hstop⟩ := h
  refine ⟨.cons (.run text format) inside front, link, behind, rfl, htext, ?_, ?_⟩
  all_goals
    rw [runText_cons_run, List.length_append]
    omega

theorem LinkWithin.cons_other {e : Element} (inside : Forest)
    (he : ∀ text format, e ≠ .run text format) (h : rest.LinkWithin start stop) :
    (Forest.cons e inside rest).LinkWithin start stop := by
  obtain ⟨front, link, behind, rfl, htext, hstart, hstop⟩ := h
  refine ⟨.cons e inside front, link, behind, rfl, htext, ?_⟩
  rw [runText_cons_other _ _ he]
  exact ⟨hstart, hstop⟩

/-- The beginning of the run text is what the paragraph shows first, up to the first link. -/
theorem take_runText_prefix
    (h : ∀ front inside behind, content = front ++ .cons .link inside behind →
      inside.runText ≠ [] → stop ≤ front.runText.length) :
    content.runText.take stop <+: content.shownText := by
  induction content generalizing stop with
  | nil => simp
  | cons e inside rest _ ih =>
    by_cases he : ∃ text format, e = .run text format
    · obtain ⟨text, format, rfl⟩ := he
      rw [runText_cons_run, shownText, List.take_append]
      by_cases hshort : stop ≤ text.toList.length
      · rw [Nat.sub_eq_zero_of_le hshort, List.take_zero, List.append_nil]
        exact (List.take_prefix _ _).trans (List.prefix_append _ _)
      · rw [List.take_of_length_le (by omega)]
        refine (List.prefix_append_right_inj _).2 (ih fun front link behind hrest htext => ?_)
        have := h (.cons (.run text format) inside front) link behind (by rw [hrest]; rfl) htext
        rw [runText_cons_run, List.length_append] at this
        omega
    · have he := (by simpa using he : ∀ text format, e ≠ .run text format)
      rw [runText_cons_other _ _ he]
      rcases shownText_cons_other inside rest he with ⟨rfl, htext⟩ | hskip
      · have := h .nil inside rest rfl htext
        rw [Nat.le_zero.1 this, List.take_zero]
        exact List.nil_prefix
      · rw [hskip]
        refine ih fun front link behind hrest htext => ?_
        have := h (.cons e inside front) link behind (by rw [hrest]; rfl) htext
        rwa [runText_cons_other _ _ he] at this

/-- A stretch of the run text shows as it is read, unless a link with a text stands within it. -/
theorem stretch_infix_shownText (h : ¬ content.LinkWithin start stop) :
    (content.runText.drop start).take (stop - start) <:+: content.shownText := by
  induction content generalizing start stop with
  | nil => simp
  | cons e inside rest _ ih =>
    by_cases he : ∃ text format, e = .run text format
    · obtain ⟨text, format, rfl⟩ := he
      rw [runText_cons_run, List.drop_append]
      by_cases hover : text.toList.length ≤ start
      · have hrest := ih fun hlink => h (hlink.cons_run format inside hover)
        rw [List.drop_eq_nil_of_le hover, List.nil_append,
          show stop - start = stop - text.toList.length - (start - text.toList.length) by omega]
        exact hrest.trans (shownText_suffix _ _ _).isInfix
      -- The stretch begins in the run, and no link with a text stands between that and its end.
      · have hprefix : rest.runText.take (stop - text.toList.length) <+: rest.shownText := by
          refine take_runText_prefix fun front link behind hrest htext => ?_
          by_contra hlate
          refine h ⟨.cons (.run text format) inside front, link, behind, ?_, htext, ?_⟩
          · rw [hrest]
            rfl
          · rw [runText_cons_run, List.length_append]
            omega
        have hmore : (text.toList.drop start ++ rest.runText).take (stop - start) <+:
            text.toList.drop start ++ rest.shownText := by
          rw [List.take_append, List.length_drop]
          by_cases hshort : stop ≤ text.toList.length
          · rw [show stop - start - (text.toList.length - start) = 0 by omega, List.take_zero,
              List.append_nil]
            exact (List.take_prefix _ _).trans (List.prefix_append _ _)
          · rw [List.take_of_length_le (by rw [List.length_drop]; omega),
              show stop - start - (text.toList.length - start) = stop - text.toList.length by omega]
            exact (List.prefix_append_right_inj _).2 hprefix
        rw [Nat.sub_eq_zero_of_le (Nat.le_of_not_le hover), List.drop_zero, shownText]
        refine hmore.isInfix.trans ⟨text.toList.take start, [], ?_⟩
        rw [List.append_nil, ← List.append_assoc, List.take_append_drop]
    · have he := (by simpa using he : ∀ text format, e ≠ .run text format)
      rw [runText_cons_other _ _ he]
      exact (ih fun hlink => h (hlink.cons_other inside he)).trans (shownText_suffix _ _ _).isInfix

end Redline.Forest
