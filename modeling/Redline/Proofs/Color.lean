import Redline.Document.Effect
import Redline.Proofs.Editing
import Redline.Rules.Basic

/-!
# Digits of colors

The digits of a color are six capital digits to the base 16, whichever way it is written, as long as
the names stand for such digits; those of the standard rules do.  So what a run is given is what has
been read.

## Main definitions

* `Color.Digits` — six capital digits to the base 16.
* `Color.Proper` — names that stand for such digits.
-/

namespace Redline.Color

open Redline.Text

/-- The capital digits to the base 16. -/
def capitals : List Char := "0123456789ABCDEF".toList

/-- Six capital digits to the base 16. -/
structure Digits (text : List Char) : Prop where
  length : text.length = 6
  capital : ∀ c ∈ text, c ∈ capitals

instance (text : List Char) : Decidable (Digits text) :=
  decidable_of_iff (text.length = 6 ∧ text.all (· ∈ capitals) = true)
    ⟨fun h => ⟨h.1, by simpa using h.2⟩, fun h => ⟨h.1, by simpa using h.2⟩⟩

/-! ## Reading digits back -/

theorem hexadecimal?_capitals {a b : Char} (ha : a ∈ capitals) (hb : b ∈ capitals) :
    (Numeral.hexadecimal? [a, b]).map Effect.twoDigits = some [a, b] ∧
      (Numeral.hexadecimal? [a, b]).all (fun n => 0 ≤ n && n ≤ 255) := by
  have htable : (capitals.all fun a => capitals.all fun b =>
      (Numeral.hexadecimal? [a, b]).map Effect.twoDigits == some [a, b] &&
        (Numeral.hexadecimal? [a, b]).all fun n => 0 ≤ n && n ≤ 255) = true := by
    decide +kernel
  simp only [List.all_eq_true, Bool.and_eq_true, beq_iff_eq] at htable
  exact htable a ha b hb

theorem channel_capitals {a b : Char} (ha : a ∈ capitals) (hb : b ∈ capitals) :
    ∃ n : Int, Effect.channel [a, b] = .ok n ∧ Effect.twoDigits n = [a, b] ∧ 0 ≤ n ∧ n ≤ 255 := by
  obtain ⟨hmap, hall⟩ := hexadecimal?_capitals ha hb
  obtain ⟨n, hn, hdigits⟩ := Option.map_eq_some_iff.1 hmap
  rw [hn] at hall
  exact ⟨n, by rw [Effect.channel, hn], hdigits, by simpa using hall⟩

/-- A run is given the digits as they are. -/
theorem Digits.runColor_eq {text : List Char} (h : Digits text) :
    Effect.runColor text = .ok (String.ofList text) := by
  obtain ⟨hlength, hcapital⟩ := h
  match text, hlength with
  | [a, b, c, d, e, f], _ =>
    obtain ⟨red, hred, hr, hr0, hr1⟩ := channel_capitals (hcapital a (by simp)) (hcapital b (by simp))
    obtain ⟨green, hgreen, hg, hg0, hg1⟩ :=
      channel_capitals (hcapital c (by simp)) (hcapital d (by simp))
    obtain ⟨blue, hblue, hb, hb0, hb1⟩ :=
      channel_capitals (hcapital e (by simp)) (hcapital f (by simp))
    simp [Effect.runColor, hred, hgreen, hblue, hr, hg, hb, hr0, hr1, hg0, hg1, hb0, hb1, bind,
      Except.bind]

/-! ## The three ways of writing a color -/

theorem toNat_lt_of_isHexDigit {c : Char} (h : isHexDigit c = true) : c.toNat < 128 := by
  have hnine : '9'.val.toNat = 57 := rfl
  have hsmall : 'f'.val.toNat = 102 := rfl
  have hcapital : 'F'.val.toNat = 70 := rfl
  simp only [isHexDigit, Char.isDigit, Bool.or_eq_true, Bool.and_eq_true, decide_eq_true_eq,
    Char.le_def, UInt32.le_iff_toNat_le, hnine, hsmall, hcapital] at h
  simp only [Char.toNat]
  omega

theorem toUpper_mem_capitals :
    ∀ n < 128, isHexDigit (Char.ofNat n) = true → (Char.ofNat n).toUpper ∈ capitals := by
  decide +kernel

theorem upperChar_of_isHexDigit {c : Char} (h : isHexDigit c = true) :
    upperChar c = [c.toUpper] ∧ c.toUpper ∈ capitals := by
  have hlt := toNat_lt_of_isHexDigit h
  refine ⟨by rw [upperChar, if_pos hlt], ?_⟩
  have := toUpper_mem_capitals c.toNat hlt
  rw [Char.ofNat_toNat] at this
  exact this h

theorem upper_of_isHexDigit {text : List Char} (h : ∀ c ∈ text, isHexDigit c = true) :
    (upper text).length = text.length ∧ ∀ c ∈ upper text, c ∈ capitals := by
  induction text with
  | nil => simp [upper]
  | cons c rest ih =>
    obtain ⟨hc, ha⟩ := upperChar_of_isHexDigit (h c (by simp))
    have ih := ih fun x hx => h x (by simp [hx])
    rw [show upper (c :: rest) = c.toUpper :: upper rest by simp [upper, hc]]
    simpa [ih.1] using ⟨ha, ih.2⟩

theorem digits_sixDigits {text : List Char} (h : ∀ c ∈ text, isHexDigit c = true)
    (hl : text.length = 3 ∨ text.length = 6) : Digits (upper (sixDigits text)) := by
  have hsix : (sixDigits text).length = 6 ∧ ∀ c ∈ sixDigits text, isHexDigit c = true := by
    unfold sixDigits
    rcases hl with hl | hl
    · match text, hl with
      | [a, b, c], _ => simp_all
    · simpa [hl] using h
  obtain ⟨hlength, hcapital⟩ := upper_of_isHexDigit hsix.2
  exact ⟨hlength.trans hsix.1, hcapital⟩

theorem channelDigits_capitals {n : Nat} (hn : n < 256) :
    (channelDigits n).length = 2 ∧ ∀ c ∈ channelDigits n, c ∈ capitals := by
  have htable : ∀ n < 256, (channelDigits n).length = 2 ∧
      (channelDigits n).all (· ∈ capitals) = true := by
    decide +kernel
  simpa using htable n hn

/-- Every name stands for six digits to the base 16, once the number signs in front are gone. -/
def Proper (names : Names) : Prop := ∀ entry ∈ names, Digits (upper (withoutSigns entry.2.toList))

theorem proper_standardColors : Proper standardColors := by
  unfold Proper
  decide +kernel

theorem read_eq_digits {text : String} {found : List Char} (h : read text = .digits found) :
    Digits (upper (sixDigits found)) := by
  have hfound : hexDigits? text.toList = some found := by
    unfold read at h
    split at h
    · next heq => rw [heq, Notation.digits.inj h]
    · split at h <;> cases h
  unfold hexDigits? at hfound
  split at hfound
  · simp only at hfound
    split at hfound
    · next hc =>
      obtain rfl := Option.some.inj hfound
      refine digits_sixDigits (fun c hc => List.mem_takeWhile_imp hc) ?_
      simp only [Bool.and_eq_true, Bool.or_eq_true, beq_iff_eq] at hc
      exact hc.1
    · cases hfound
  · cases hfound

theorem channelValue_lt {text : List Char} {n : Nat} (h : channelValue text = .ok n) : n < 256 := by
  unfold channelValue at h
  split at h
  · obtain rfl := Except.ok.inj h
    omega
  · cases h
  · cases h

/-- The digits of a color under proper names. -/
theorem digits_of_rgb? {names : Names} (hn : Proper names) {text digits : String}
    (h : rgb? names text = .ok (some digits)) : Digits digits.toList := by
  unfold rgb? at h
  cases hr : read text with
  | digits found =>
    simp only [hr, Except.ok.injEq, Option.some.injEq] at h
    subst h
    simpa using read_eq_digits hr
  | channels red green blue =>
    simp only [hr] at h
    obtain ⟨r, hred, h⟩ := Editing.except_bind_eq_ok.1 h
    obtain ⟨g, hgreen, h⟩ := Editing.except_bind_eq_ok.1 h
    obtain ⟨b, hblue, h⟩ := Editing.except_bind_eq_ok.1 h
    simp only [Except.ok.injEq, Option.some.injEq] at h
    subst h
    have hr := channelDigits_capitals (channelValue_lt hred)
    have hg := channelDigits_capitals (channelValue_lt hgreen)
    have hb := channelDigits_capitals (channelValue_lt hblue)
    refine ⟨by simp [hr.1, hg.1, hb.1], fun c hc => ?_⟩
    simp only [String.toList_ofList, List.mem_append] at hc
    rcases hc with (hc | hc) | hc
    · exact hr.2 c hc
    · exact hg.2 c hc
    · exact hb.2 c hc
  | name name =>
    simp only [hr] at h
    split at h
    · next named hlookup =>
      have hmem : (name, named) ∈ names := by
        obtain ⟨before, behind, hsplit, _⟩ := List.lookup_eq_some_iff.1 hlookup
        simp [hsplit]
      split at h
      · cases h
      · simp only [Except.ok.injEq, Option.some.injEq] at h
        subst h
        simpa using hn _ hmem
    · cases h

end Redline.Color
