import Redline.Proofs.Color

/-!
# Rows of digits

A row of digits with nothing else in it is read as an integer whatever its script, and only its
length can stand in the way.  Colors and the tags of marked selections hold such rows.

## Main definitions

* `Numeral.IsRow` — a row of digits.
* `Numeral.integer?_row` — how a row is read.
* `Color.Channel` — the digits of a channel of a color.
-/

namespace Redline

open Redline.Text

namespace Numeral

/-- A row of digits: at least one of them, and nothing else. -/
structure IsRow (text : List Char) : Prop where
  ne_nil : text ≠ []
  digits : ∀ c ∈ text, isDigit c = true

variable {text : List Char} {c : Char}

theorem isRow_replicate {n : Nat} (hc : isDigit c = true) (hn : n ≠ 0) :
    IsRow (List.replicate n c) :=
  ⟨by simpa using hn, fun x hx => (List.eq_of_mem_replicate hx).symm ▸ hc⟩

theorem exists_zero_of_isDigit (h : isDigit c = true) :
    ∃ first ∈ digitZeros, ∃ k < 10, c.toNat = first + k := by
  obtain ⟨value, hvalue⟩ := Option.isSome_iff_exists.1 h
  obtain ⟨first, hfirst, _⟩ := Option.map_eq_some_iff.1 hvalue
  have hrange := List.find?_some hfirst
  simp only [Bool.and_eq_true, decide_eq_true_eq] at hrange
  exact ⟨first, List.mem_of_find?_eq_some hfirst, c.toNat - first, by omega, by omega⟩

/-- No digit is blank, and none is a sign. -/
theorem digits_table : ∀ first ∈ digitZeros, ∀ k < 10,
    blankRanges.holds (first + k) = false ∧ first + k ≠ '-'.toNat ∧ first + k ≠ '+'.toNat := by
  decide +kernel

theorem not_isBlank_of_isDigit (h : isDigit c = true) : isBlank c = false := by
  obtain ⟨first, hfirst, k, hk, hc⟩ := exists_zero_of_isDigit h
  rw [isBlank, hc]
  exact (digits_table first hfirst k hk).1

theorem ne_sign_of_isDigit (h : isDigit c = true) : c ≠ '-' ∧ c ≠ '+' := by
  obtain ⟨first, hfirst, k, hk, hc⟩ := exists_zero_of_isDigit h
  obtain ⟨_, hminus, hplus⟩ := digits_table first hfirst k hk
  rw [← hc] at hminus hplus
  exact ⟨fun he => hminus (he ▸ rfl), fun he => hplus (he ▸ rfl)⟩

namespace IsRow

variable (h : IsRow text)
include h

theorem reverse : IsRow text.reverse :=
  ⟨by simpa using h.ne_nil, fun c hc => h.digits c (by simpa using hc)⟩

theorem dropWhile_isMargin : text.dropWhile isMargin = text := by
  match text, h.ne_nil with
  | c :: rest, _ =>
    have hc := not_isBlank_of_isDigit (h.digits c List.mem_cons_self)
    simp [isMargin, hc]

/-- There are no blanks around a row. -/
theorem core_eq : core text = text := by
  rw [core, h.dropWhile_isMargin, h.reverse.dropWhile_isMargin, List.reverse_reverse]

/-- There is no sign in front of a row. -/
theorem sign_eq : sign text = (false, text) := by
  match text, h.ne_nil with
  | c :: rest, _ =>
    obtain ⟨hminus, hplus⟩ := ne_sign_of_isDigit (h.digits c List.mem_cons_self)
    simp [sign, hminus, hplus]

end IsRow

/-- Digits are read to the end. -/
theorem digitRun_digits (h : ∀ c ∈ text, isDigit c = true) (free : Bool) (value count : Nat)
    (hfree : free = true ∨ count = 0) :
    ∃ total, digitRun 10 decimalDigit? free value count text =
      some ⟨total, count + text.length, []⟩ := by
  induction text generalizing free value count with
  | nil =>
    refine ⟨value, ?_⟩
    rcases hfree with rfl | rfl <;> simp [digitRun]
  | cons c rest ih =>
    obtain ⟨d, hd⟩ := Option.isSome_iff_exists.1 (h c List.mem_cons_self)
    obtain ⟨total, htotal⟩ := ih (fun x hx => h x (List.mem_cons_of_mem _ hx)) true
      (value * 10 + d) (count + 1) (.inl rfl)
    refine ⟨total, ?_⟩
    rw [digitRun, decimalDigit?, hd]
    simp only [htotal, List.length_cons, Nat.add_assoc, Nat.add_comm 1]

/-- A row is an integer unless it is too long. -/
theorem integer?_row (h : IsRow text) :
    (text.length ≤ maxDigits ∧ ∃ n : Nat, integer? text = .ok n) ∨
      (maxDigits < text.length ∧ integer? text = .error (.tooLong text.length)) := by
  obtain ⟨total, htotal⟩ := digitRun_digits h.digits false 0 0 (.inr rfl)
  rw [Nat.zero_add] at htotal
  have hlength : text.length ≠ 0 := by simpa using h.ne_nil
  simp only [integer?, h.core_eq, h.sign_eq, htotal, hlength, if_false]
  by_cases hlong : text.length > maxDigits
  · exact .inr ⟨hlong, if_pos hlong⟩
  · exact .inl ⟨Nat.not_lt.1 hlong, total, by simp [if_neg hlong]⟩

end Numeral

/-! ## Colors -/

namespace Color

open Numeral

/-- The digits of a channel of a color. -/
def Channel (color : String) (digits : List Char) : Prop :=
  ∃ red green blue, read color = .channels red green blue ∧ digits ∈ [red, green, blue]

variable {text : List Char} {color : String}

theorem isRow_of_channel? {digits rest : List Char} (h : channel? text = some (digits, rest)) :
    IsRow digits := by
  simp only [channel?] at h
  split at h
  · cases h
  · next hne =>
    obtain rfl := (Prod.mk.inj (Option.some.inj h)).1
    exact ⟨by simpa using hne, fun c hc => List.mem_takeWhile_imp hc⟩

theorem isRow_of_channels? {red green blue : List Char}
    (h : channels? text = some (red, green, blue)) : IsRow red ∧ IsRow green ∧ IsRow blue := by
  obtain ⟨body, _, h⟩ := Option.bind_eq_some_iff.1 h
  obtain ⟨⟨red', rest⟩, hred, h⟩ := Option.bind_eq_some_iff.1 h
  obtain ⟨rest, _, h⟩ := Option.bind_eq_some_iff.1 h
  obtain ⟨⟨green', rest⟩, hgreen, h⟩ := Option.bind_eq_some_iff.1 h
  obtain ⟨rest, _, h⟩ := Option.bind_eq_some_iff.1 h
  obtain ⟨⟨blue', rest⟩, hblue, h⟩ := Option.bind_eq_some_iff.1 h
  simp only at h
  split at h
  · simp only [Option.some.injEq, Prod.mk.injEq] at h
    obtain ⟨rfl, rfl, rfl⟩ := h
    exact ⟨isRow_of_channel? hred, isRow_of_channel? hgreen, isRow_of_channel? hblue⟩
  · cases h

theorem isRow_of_channel {digits : List Char} (h : Channel color digits) : IsRow digits := by
  obtain ⟨red, green, blue, hread, hmem⟩ := h
  have hchannels : channels? color.toList = some (red, green, blue) := by
    unfold read at hread
    split at hread
    · cases hread
    · split at hread
      · next heq =>
        obtain ⟨rfl, rfl, rfl⟩ := Notation.channels.inj hread
        exact heq
      · cases hread
  obtain ⟨hred, hgreen, hblue⟩ := isRow_of_channels? hchannels
  simp only [List.mem_cons, List.not_mem_nil, or_false] at hmem
  rcases hmem with rfl | rfl | rfl
  · exact hred
  · exact hgreen
  · exact hblue

theorem channelValue_row (h : IsRow text) : (∃ n, channelValue text = .ok n) ∨
    (maxDigits < text.length ∧ channelValue text = .error (.longInteger text.length)) := by
  rcases integer?_row h with ⟨_, n, hn⟩ | ⟨hlong, herror⟩
  · exact .inl ⟨_, by rw [channelValue, hn]⟩
  · exact .inr ⟨hlong, by rw [channelValue, herror]⟩

theorem channelValue_of_long (h : IsRow text) (hlong : maxDigits < text.length) :
    channelValue text = .error (.longInteger text.length) := by
  rcases integer?_row h with ⟨hshort, _⟩ | ⟨_, herror⟩
  · exact absurd hlong (Nat.not_lt.2 hshort)
  · rw [channelValue, herror]

theorem Proper.ne_empty {names : Names} (hn : Proper names) {entry : String × String}
    (h : entry ∈ names) : entry.2 ≠ "" := by
  intro he
  have := (hn entry h).length
  simp [he, withoutSigns, upper] at this

/-- A valid color stands for digits unless a channel has too many of its own. -/
theorem rgb?_of_isValid {names : Names} (hn : Proper names) (h : isValid names color = true) :
    (∃ digits, rgb? names color = .ok (some digits)) ∨
      ∃ row, Channel color row ∧ maxDigits < row.length ∧
        rgb? names color = .error (.longInteger row.length) := by
  cases hread : read color with
  | digits found => exact .inl ⟨_, by rw [rgb?, hread]⟩
  | name name =>
    simp only [isValid, hread] at h
    obtain ⟨named, hnamed⟩ := Option.isSome_iff_exists.1 h
    obtain ⟨before, behind, hsplit, _⟩ := List.lookup_eq_some_iff.1 hnamed
    have hmem : (name, named) ∈ names := by simp [hsplit]
    have hne := hn.ne_empty hmem
    exact .inl ⟨String.ofList (upper (withoutSigns named.toList)),
      by simp [rgb?, hread, hnamed, hne]⟩
  | channels red green blue =>
    have hchannel : ∀ row ∈ [red, green, blue], Channel color row := fun row hrow =>
      ⟨red, green, blue, hread, hrow⟩
    have hred := hchannel red (by simp)
    have hgreen := hchannel green (by simp)
    have hblue := hchannel blue (by simp)
    rw [rgb?, hread]
    simp only
    rcases channelValue_row (isRow_of_channel hred) with ⟨r, hr⟩ | ⟨hlong, hr⟩
    · rcases channelValue_row (isRow_of_channel hgreen) with ⟨g, hg⟩ | ⟨hlong, hg⟩
      · rcases channelValue_row (isRow_of_channel hblue) with ⟨b, hb⟩ | ⟨hlong, hb⟩
        · exact .inl ⟨_, by rw [hr, hg, hb]; rfl⟩
        · exact .inr ⟨blue, hblue, hlong, by rw [hr, hg, hb]; rfl⟩
      · exact .inr ⟨green, hgreen, hlong, by rw [hr, hg]; rfl⟩
    · exact .inr ⟨red, hred, hlong, by rw [hr]; rfl⟩

/-- A color one of whose channels has too many digits stands for nothing. -/
theorem rgb?_of_channel {names : Names} {row : List Char} (h : Channel color row)
    (hlong : maxDigits < row.length) (found : Option String) : rgb? names color ≠ .ok found := by
  have hrow := channelValue_of_long (isRow_of_channel h) hlong
  obtain ⟨red, green, blue, hread, hmem⟩ := h
  intro hok
  rw [rgb?, hread] at hok
  obtain ⟨r, hred, hok⟩ := Editing.except_bind_eq_ok.1 hok
  obtain ⟨g, hgreen, hok⟩ := Editing.except_bind_eq_ok.1 hok
  obtain ⟨b, hblue, _⟩ := Editing.except_bind_eq_ok.1 hok
  simp only [List.mem_cons, List.not_mem_nil, or_false] at hmem
  rcases hmem with rfl | rfl | rfl
  · cases hrow.symm.trans hred
  · cases hrow.symm.trans hgreen
  · cases hrow.symm.trans hblue

/-! ### A channel of any length -/

theorem channel?_row {row rest : List Char} {c : Char} (h : IsRow row) (hd : isDigit c = false)
    (hb : isBlank c = false) : channel? (row ++ c :: rest) = some (row, c :: rest) := by
  have hfront : (row ++ c :: rest).dropWhile isBlank = row ++ c :: rest := by
    match row, h.ne_nil with
    | first :: tail, _ => simp [not_isBlank_of_isDigit (h.digits first List.mem_cons_self)]
  have htake : (row ++ c :: rest).takeWhile isDigit = row := by
    rw [List.takeWhile_append_of_pos h.digits]
    simp [hd]
  have hdrop : (row ++ c :: rest).dropWhile isDigit = c :: rest := by
    rw [List.dropWhile_append_of_pos h.digits]
    simp [hd]
  have hne : row.isEmpty = false := by simpa using h.ne_nil
  simp [channel?, hfront, htake, hdrop, hne, hb]

/-- The color with a row of digits as its first channel and nothing in the others. -/
def ofRed (row : List Char) : String :=
  String.ofList ('r' :: 'g' :: 'b' :: '(' :: (row ++ [',', '0', ',', '0', ')']))

theorem read_ofRed {row : List Char} (h : IsRow row) :
    read (ofRed row) = .channels row ['0'] ['0'] := by
  have hrow : channel? (row ++ [',', '0', ',', '0', ')']) = some (row, [',', '0', ',', '0', ')']) :=
    channel?_row h (by decide) (by decide)
  have hchannels : channels? ('r' :: 'g' :: 'b' :: '(' :: (row ++ [',', '0', ',', '0', ')'])) =
      some (row, ['0'], ['0']) := by
    rw [channels?, afterMark?]
    simp only [hrow, Option.bind_eq_bind, Option.bind_some]
    rfl
  have hhex : hexDigits? ('r' :: 'g' :: 'b' :: '(' :: (row ++ [',', '0', ',', '0', ')'])) = none :=
    rfl
  rw [read, ofRed, String.toList_ofList, hhex, hchannels]

/-- Its row may be too long for an integer, but it is a color all the same. -/
theorem isValid_ofRed {names : Names} {row : List Char} (h : IsRow row) :
    isValid names (ofRed row) = true := by
  rw [isValid, read_ofRed h]

theorem rgb?_ofRed {names : Names} {row : List Char} (h : IsRow row)
    (hlong : maxDigits < row.length) :
    rgb? names (ofRed row) = .error (.longInteger row.length) := by
  rw [rgb?, read_ofRed h]
  simp only [channelValue_of_long h hlong]
  rfl

end Color

end Redline
