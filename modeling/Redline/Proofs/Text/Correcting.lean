import Redline.Proofs.Text.Substitution

/-!
# Matches that give way

A search finds matches in order and apart from one another.  When all of them give way to a new
text, the position of a character tells what becomes of it: the first character of a match makes room
for the new text, the others of the match go, and all characters outside of matches stay.

The corrections of a document are made one match at a time, the last one first.  Said by positions,
one more match does not disturb what those behind it have done.

## Main definitions

* `Text.InOrder` — matches in order and apart from one another.
* `Text.Span.Holds`, `Text.Span.Touches` — the characters and the stretches that a match concerns.
* `Text.corrected` — a text whose matches have given way to a new text.
* `Text.returns` — where the returns of a text stand.
-/

namespace Redline.Text

variable {matchCase wholeWord : Bool} {search new text found : List Char} {s : Span}
  {spans later : List Span} {position : Nat}

namespace Span

/-- The character at a position belongs to the match. -/
def Holds (s : Span) (position : Nat) : Prop := s.start ≤ position ∧ position < s.stop

/-- The match shares a character with the stretch from `first` to `last`, or lies around it if that
is empty. -/
def Touches (s : Span) (first last : Nat) : Prop := s.start < last ∧ first < s.stop

instance (s : Span) (position : Nat) : Decidable (s.Holds position) :=
  inferInstanceAs (Decidable (_ ∧ _))

instance (s : Span) (first last : Nat) : Decidable (s.Touches first last) :=
  inferInstanceAs (Decidable (_ ∧ _))

end Span

/-- Matches that hold a character each, in order and apart from one another. -/
structure InOrder (spans : List Span) : Prop where
  filled : ∀ s ∈ spans, s.start < s.stop
  apart : spans.Pairwise fun s t => s.stop ≤ t.start

/-- What stands in the place of a character when the matches give way to a new text. -/
def standIn (spans : List Span) (new : List Char) (position : Nat) (c : Char) : List Char :=
  if ∃ s ∈ spans, s.start = position then new
  else if ∃ s ∈ spans, s.Holds position then [] else [c]

/-- A text that begins at a position, with its matches given way to a new text. -/
def corrected (spans : List Span) (new : List Char) : Nat → List Char → List Char
  | _, [] => []
  | position, c :: rest =>
    standIn spans new position c ++ corrected spans new (position + 1) rest

/-- The positions of the returns of a text that begins at a position. -/
def returns : Nat → List Char → List Nat
  | _, [] => []
  | position, c :: rest =>
    if c = '\r' then position :: returns (position + 1) rest else returns (position + 1) rest

/-! ## What a search finds -/

theorem InOrder.of_cons (h : InOrder (s :: spans)) : InOrder spans :=
  ⟨fun t ht => h.filled t (List.mem_cons_of_mem _ ht), (List.pairwise_cons.1 h.apart).2⟩

theorem InOrder.stop_le (h : InOrder (s :: spans)) : ∀ t ∈ spans, s.stop ≤ t.start :=
  (List.pairwise_cons.1 h.apart).1

open Pattern

theorem readAtoms_eq_some {before : Option Char} {count length : Nat}
    (h : readAtoms matchCase (accept wholeWord) (search.map .char) before count text =
      some length) :
    beginsWith matchCase search text = true ∧ length = count + search.length ∧ length ≠ 0 := by
  induction search generalizing before count text with
  | nil =>
    simp only [List.map_nil, readAtoms, accept, Option.ite_none_left_eq_some, Bool.or_eq_true,
      beq_iff_eq, not_or, Option.some.injEq] at h
    obtain ⟨⟨hcount, -⟩, rfl⟩ := h
    exact ⟨rfl, rfl, hcount⟩
  | cons c search ih =>
    cases text with
    | nil => cases h
    | cons a rest =>
      simp only [List.map_cons, readAtoms, Option.ite_none_right_eq_some] at h
      obtain ⟨hagrees, h⟩ := h
      obtain ⟨hbegins, hlength, hpos⟩ := ih h
      refine ⟨by rw [beginsWith, hagrees, hbegins, Bool.and_self], ?_, hpos⟩
      rw [hlength, List.length_cons]
      omega

theorem matchLength_eq_some {before : Option Char} {length : Nat}
    (h : (literal search matchCase wholeWord).matchLength before text = some length) :
    0 < length ∧ length ≤ text.length ∧ Agree matchCase search (text.take length) := by
  rw [matchLength, Option.ite_none_left_eq_some] at h
  have hread : readAtoms matchCase (accept wholeWord) (search.map .char) before 0 text =
      some length := h.2
  obtain ⟨hbegins, hlength, hpos⟩ := readAtoms_eq_some hread
  obtain ⟨found, after, rfl, hf⟩ := beginsWith_iff.1 hbegins
  rw [Nat.zero_add, hf.length_eq] at hlength
  subst hlength
  exact ⟨Nat.pos_of_ne_zero hpos, by simp, by simpa using hf⟩

/-- A match lies in the text and agrees with what is searched for. -/
theorem agree_of_mem_spansFrom {skip : Nat} {before : Option Char}
    (h : s ∈ (literal search matchCase wholeWord).spansFrom skip position before text) :
    position ≤ s.start ∧ s.start < s.stop ∧ s.stop ≤ position + text.length ∧
      Agree matchCase search ((text.drop (s.start - position)).take (s.stop - s.start)) := by
  induction text generalizing skip position before with
  | nil => cases h
  | cons c rest ih =>
    have hrest {skip : Nat} (h : s ∈ (literal search matchCase wholeWord).spansFrom skip
        (position + 1) (some c) rest) :
        position ≤ s.start ∧ s.start < s.stop ∧ s.stop ≤ position + (c :: rest).length ∧
          Agree matchCase search
            (((c :: rest).drop (s.start - position)).take (s.stop - s.start)) := by
      obtain ⟨hstart, hfilled, hstop, hagree⟩ := ih h
      refine ⟨by omega, hfilled, by rw [List.length_cons]; omega, ?_⟩
      rwa [show s.start - position = s.start - (position + 1) + 1 by omega, List.drop_succ_cons]
    cases skip with
    | succ skip => exact hrest h
    | zero =>
      rw [spansFrom] at h
      split at h
      · next length hlength =>
        rcases List.mem_cons.1 h with rfl | h
        · obtain ⟨hpos, hfits, hagree⟩ := matchLength_eq_some hlength
          refine ⟨Nat.le_refl _, by simpa using hpos, by simpa using hfits, ?_⟩
          simpa using hagree
        · exact hrest h
      · exact hrest h

theorem inOrder_spansFrom (matchCase : Bool) (hs : search ≠ []) (text : List Char)
    (position : Nat) :
    InOrder ((literal search matchCase false).spansFrom 0 position none text) := by
  induction text using occurrenceInduction matchCase hs generalizing position with
  | nil => exact ⟨nofun, .nil⟩
  | found found after hf ih =>
    have hbehind : ∀ t ∈ (literal search matchCase false).spansFrom 0 (position + found.length)
        none after, position + found.length ≤ t.start :=
      fun t ht => (agree_of_mem_spansFrom ht).1
    have hlength : 0 < found.length := by
      rw [← hf.length_eq]
      exact List.length_pos_iff.2 hs
    rw [spansFrom_found hs hf]
    refine ⟨List.forall_mem_cons.2 ⟨by simpa using hlength, (ih _).filled⟩, ?_⟩
    exact List.pairwise_cons.2 ⟨hbehind, (ih _).apart⟩
  | other c rest hb ih =>
    rw [spansFrom_not_found hs hb]
    exact ih _

/-- An empty text is found nowhere. -/
theorem spans_literal_empty (matchCase : Bool) (text : List Char) :
    (literal [] matchCase false).spans text = [] := by
  have hnone (before : Option Char) (text : List Char) :
      (literal [] matchCase false).matchLength before text = none := by
    simp [matchLength, literal, readAtoms, accept]
  suffices ∀ position before,
      (literal [] matchCase false).spansFrom 0 position before text = [] from this 0 none
  induction text with
  | nil => intros; rfl
  | cons c rest ih =>
    intro position before
    rw [spansFrom, hnone]
    exact ih _ _

/-- A match of a search lies in the text and agrees with what is searched for. -/
theorem agree_of_mem_spans (h : s ∈ (literal search matchCase wholeWord).spans text) :
    s.start < s.stop ∧ s.stop ≤ text.length ∧
      Agree matchCase search ((text.drop s.start).take (s.stop - s.start)) := by
  simpa using (agree_of_mem_spansFrom h).2

theorem inOrder_spans (search : List Char) (matchCase : Bool) (text : List Char) :
    InOrder ((literal search matchCase false).spans text) := by
  by_cases hs : search = []
  · rw [hs, spans_literal_empty]
    exact ⟨nofun, .nil⟩
  · exact inOrder_spansFrom matchCase hs text 0

/-! ## Corrected texts -/

theorem corrected_append (spans : List Span) (new front back : List Char) (position : Nat) :
    corrected spans new position (front ++ back) =
      corrected spans new position front ++ corrected spans new (position + front.length) back := by
  induction front generalizing position with
  | nil => rfl
  | cons c rest ih =>
    rw [List.cons_append, corrected, corrected, ih, List.append_assoc, List.length_cons,
      show position + (rest.length + 1) = position + 1 + rest.length by omega]

theorem mem_corrected {c : Char} (h : c ∈ corrected spans new position text) :
    c ∈ new ∨ c ∈ text := by
  induction text generalizing position with
  | nil => exact absurd h List.not_mem_nil
  | cons a rest ih =>
    rw [corrected, List.mem_append] at h
    rcases h with h | h
    · rw [standIn] at h
      split_ifs at h <;> simp_all
    · exact (ih h).imp_right (List.mem_cons_of_mem a)

theorem mem_of_mem_returns {k : Nat} (h : k ∈ returns position text) : '\r' ∈ text := by
  induction text generalizing position with
  | nil => cases h
  | cons c rest ih =>
    rw [returns] at h
    split at h
    · next he => exact he ▸ List.mem_cons_self
    · exact List.mem_cons_of_mem c (ih h)

/-- Returns that belong to matches go with them. -/
theorem return_notMem_corrected (hn : '\r' ∉ new)
    (hr : ∀ k ∈ returns position text, ∃ s ∈ spans, s.Holds k) :
    '\r' ∉ corrected spans new position text := by
  induction text generalizing position with
  | nil => exact List.not_mem_nil
  | cons c rest ih =>
    rw [corrected, List.mem_append, not_or]
    rw [returns] at hr
    by_cases hc : c = '\r'
    · rw [if_pos hc] at hr
      obtain ⟨hheld, hrest⟩ := List.forall_mem_cons.1 hr
      refine ⟨?_, ih hrest⟩
      rw [standIn, if_pos hheld]
      split
      · exact hn
      · exact List.not_mem_nil
    · rw [if_neg hc] at hr
      refine ⟨?_, ih hr⟩
      rw [standIn]
      split
      · exact hn
      · split
        · exact List.not_mem_nil
        · exact fun h => hc (List.mem_singleton.1 h).symm

/-- A text that no match touches stays as it is. -/
theorem corrected_of_untouched (hf : ∀ s ∈ spans, s.start < s.stop)
    (h : ∀ s ∈ spans, ¬ s.Touches position (position + text.length)) :
    corrected spans new position text = text := by
  induction text generalizing position with
  | nil => rfl
  | cons c rest ih =>
    have hout : ∀ s ∈ spans, s.start ≠ position ∧ ¬ s.Holds position := by
      intro s hs
      have := hf s hs
      have := h s hs
      simp only [Span.Touches, Span.Holds, List.length_cons] at this ⊢
      omega
    have hstart : ¬ ∃ s ∈ spans, s.start = position := fun ⟨s, hs, he⟩ => (hout s hs).1 he
    have hheld : ¬ ∃ s ∈ spans, s.Holds position := fun ⟨s, hs, he⟩ => (hout s hs).2 he
    rw [corrected, standIn, if_neg hstart, if_neg hheld, ih, List.singleton_append]
    intro s hs
    have := h s hs
    simp only [Span.Touches, List.length_cons] at this ⊢
    omega

/-- A match that is over does not concern what follows. -/
theorem corrected_cons_of_stop_le (hs : s.start < s.stop) (hp : s.stop ≤ position) :
    corrected (s :: spans) new position text = corrected spans new position text := by
  induction text generalizing position with
  | nil => rfl
  | cons c rest ih =>
    have hstart : s.start ≠ position := by omega
    have hheld : ¬ s.Holds position := by
      simp only [Span.Holds]
      omega
    rw [corrected, corrected, ih (by omega)]
    simp [standIn, hstart, hheld]

/-- In front of all matches a text stays as it is. -/
theorem corrected_eq_take_append {stop : Nat} (hf : ∀ t ∈ later, t.start < t.stop)
    (hl : ∀ t ∈ later, stop ≤ t.start) (hp : position ≤ stop) :
    corrected later new position text =
      text.take (stop - position) ++ corrected later new stop (text.drop (stop - position)) := by
  have hfront : corrected later new position (text.take (stop - position)) =
      text.take (stop - position) := by
    refine corrected_of_untouched hf fun t ht htouches => ?_
    have := hl t ht
    have := htouches.1
    rw [List.length_take] at this
    omega
  conv_lhs => rw [← List.take_append_drop (stop - position) text]
  rw [corrected_append, hfront]
  by_cases hlong : stop - position ≤ text.length
  · rw [List.length_take, Nat.min_eq_left hlong, show position + (stop - position) = stop by omega]
  · rw [List.drop_eq_nil_of_le (by omega)]
    rfl

/-- What stands in the place of a character in front of the end of the first match. -/
theorem standIn_cons (h : InOrder (s :: later)) (hp : position < s.stop) (c : Char) :
    standIn (s :: later) new position c =
      if position < s.start then [c] else if position = s.start then new else [] := by
  have hlater : ∀ t ∈ later, ¬ t.start = position ∧ ¬ t.Holds position := by
    intro t ht
    have := h.stop_le t ht
    simp only [Span.Holds]
    omega
  have hstart : (∃ t ∈ s :: later, t.start = position) ↔ s.start = position := by
    refine ⟨?_, fun hs => ⟨s, List.mem_cons_self, hs⟩⟩
    rintro ⟨t, ht, he⟩
    rcases List.mem_cons.1 ht with rfl | ht
    · exact he
    · exact absurd he (hlater t ht).1
  have hheld : (∃ t ∈ s :: later, t.Holds position) ↔ s.start ≤ position := by
    refine ⟨?_, fun hs => ⟨s, List.mem_cons_self, hs, hp⟩⟩
    rintro ⟨t, ht, he⟩
    rcases List.mem_cons.1 ht with rfl | ht
    · exact he.1
    · exact absurd he (hlater t ht).2
  simp only [standIn, hstart, hheld]
  grind

/-- What the first of the matches makes of a text that it touches. -/
theorem corrected_cons (h : InOrder (s :: later))
    (ht : s.Touches position (position + text.length)) :
    corrected (s :: later) new position text =
      text.take (s.start - position) ++ (if position ≤ s.start then new else []) ++
        corrected later new s.stop (text.drop (s.stop - position)) := by
  obtain ⟨hreach, hp⟩ := ht
  induction text generalizing position with
  | nil =>
    rw [List.length_nil] at hreach
    rw [if_neg (by omega)]
    simp [corrected]
  | cons c rest ih =>
    rw [List.length_cons] at hreach
    rw [corrected, standIn_cons h hp]
    have hfilled := h.filled s List.mem_cons_self
    have hdrop : (c :: rest).drop (s.stop - position) = rest.drop (s.stop - (position + 1)) := by
      rw [show s.stop - position = s.stop - (position + 1) + 1 by omega, List.drop_succ_cons]
    by_cases hfront : position < s.start
    · rw [if_pos hfront, ih (by omega) (by omega), hdrop, if_pos (by omega), if_pos (by omega),
        show s.start - position = s.start - (position + 1) + 1 by omega, List.take_succ_cons]
      simp
    · have hrest : corrected (s :: later) new (position + 1) rest =
          corrected later new s.stop (rest.drop (s.stop - (position + 1))) := by
        by_cases hend : s.stop ≤ position + 1
        · rw [corrected_cons_of_stop_le hfilled hend, show s.stop = position + 1 by omega]
          simp
        · rw [ih (by omega) (by omega), if_neg (by omega),
            show s.start - (position + 1) = 0 by omega]
          simp
      rw [if_neg hfront, hrest, hdrop, show s.start - position = 0 by omega]
      simp only [List.take_zero, List.nil_append]
      congr 1
      grind

/-- When the later matches have given way, the first one can still be replaced where it stands. -/
theorem replace_corrected (h : InOrder (s :: later))
    (ht : s.Touches position (position + text.length)) :
    (corrected later new position text).take (s.start - position) ++
        (if position ≤ s.start then new else []) ++
          (corrected later new position text).drop (s.stop - position) =
      corrected (s :: later) new position text := by
  have hfilled := h.filled s List.mem_cons_self
  have hsplit : corrected later new position text = text.take (s.stop - position) ++
      corrected later new s.stop (text.drop (s.stop - position)) :=
    corrected_eq_take_append h.of_cons.filled h.stop_le (Nat.le_of_lt ht.2)
  have htake : (corrected later new position text).take (s.start - position) =
      text.take (s.start - position) := by
    have := ht.1
    rw [hsplit, List.take_append_of_le_length (by rw [List.length_take]; omega), List.take_take,
      Nat.min_eq_left (by omega)]
  have hdrop : (corrected later new position text).drop (s.stop - position) =
      corrected later new s.stop (text.drop (s.stop - position)) := by
    rw [hsplit]
    by_cases hlong : s.stop - position ≤ text.length
    · rw [List.drop_append_of_le_length (by rw [List.length_take]; omega), List.drop_eq_nil_of_le
        (by rw [List.length_take]; omega), List.nil_append]
    · have hnil : text.drop (s.stop - position) = [] := List.drop_eq_nil_of_le (by omega)
      rw [hnil, corrected, List.append_nil,
        List.drop_eq_nil_of_le (by rw [List.length_take]; omega)]
  rw [htake, hdrop, corrected_cons h ht]

/-- A text that ends in front of the end of the first match has nothing to do with the later ones;
any other still reaches that end when those have given way. -/
theorem corrected_later (new text : List Char) (h : InOrder (s :: later))
    (hp : position ≤ s.stop) :
    (position + text.length ≤ s.stop ∧ corrected later new position text = text) ∨
      (s.stop < position + text.length ∧
        s.stop ≤ position + (corrected later new position text).length) := by
  rw [corrected_eq_take_append h.of_cons.filled h.stop_le hp]
  by_cases hend : position + text.length ≤ s.stop
  · refine Or.inl ⟨hend, ?_⟩
    rw [List.take_of_length_le (by omega), List.drop_eq_nil_of_le (by omega), corrected,
      List.append_nil]
  · refine Or.inr ⟨by omega, ?_⟩
    rw [List.length_append, List.length_take]
    omega

/-- The first match still stands in the text when the later ones have given way. -/
theorem stretch_corrected (h : InOrder (s :: later)) (hstop : s.stop ≤ text.length) :
    ((corrected later new 0 text).drop s.start).take (s.stop - s.start) =
      (text.drop s.start).take (s.stop - s.start) := by
  have hfilled := h.filled s List.mem_cons_self
  rw [corrected_eq_take_append h.of_cons.filled h.stop_le (Nat.zero_le _), Nat.sub_zero,
    List.drop_append_of_le_length (by rw [List.length_take]; omega),
    List.take_append_of_le_length (by rw [List.length_drop, List.length_take]; omega),
    List.drop_take, List.take_take, Nat.min_self]

/-- Correcting what a search finds is substitution. -/
theorem corrected_spansFrom (hs : search ≠ []) (text : List Char) (position : Nat) :
    corrected ((literal search matchCase false).spansFrom 0 position none text) new position text =
      substitute matchCase search new text := by
  induction text using occurrenceInduction matchCase hs generalizing position with
  | nil => rw [corrected, substitute]
  | found found after hf ih =>
    have hlength : 0 < found.length := by
      rw [← hf.length_eq]
      exact List.length_pos_iff.2 hs
    have hin := inOrder_spansFrom matchCase hs (found ++ after) position
    rw [spansFrom_found hs hf] at hin ⊢
    have htouches : Span.Touches ⟨position, position + found.length⟩ position
        (position + (found ++ after).length) := by
      simp only [Span.Touches, List.length_append]
      omega
    rw [corrected_cons hin htouches, substitute_append hs hf, ← ih (position + found.length)]
    simp
  | other c rest hb ih =>
    have hbehind : ∀ s ∈ (literal search matchCase false).spansFrom 0 (position + 1) none rest,
        position + 1 ≤ s.start := fun s h => (agree_of_mem_spansFrom h).1
    have hstart : ¬ ∃ s ∈ (literal search matchCase false).spansFrom 0 (position + 1) none rest,
        s.start = position := by
      rintro ⟨s, h, he⟩
      have := hbehind s h
      omega
    have hheld : ¬ ∃ s ∈ (literal search matchCase false).spansFrom 0 (position + 1) none rest,
        s.Holds position := by
      rintro ⟨s, h, he⟩
      have := hbehind s h
      have := he.1
      omega
    rw [spansFrom_not_found hs hb, corrected, standIn, if_neg hstart, if_neg hheld, ih, substitute,
      if_neg hb, List.singleton_append]

theorem corrected_spans (hs : search ≠ []) (text : List Char) :
    corrected ((literal search matchCase false).spans text) new 0 text =
      substitute matchCase search new text :=
  corrected_spansFrom hs text 0

end Redline.Text
