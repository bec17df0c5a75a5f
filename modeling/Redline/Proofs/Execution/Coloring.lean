import Redline.Proofs.Execution.Accepting
import Redline.Proofs.Number.Values

/-!
# Colors that pass are given

A text that passes for a color stands for six digits, and a paragraph that gets a style with this
color has them in its runs.  There are two ways in which a color can pass and not be given: a channel
may have more digits than an integer may have, and a name may be empty.

## Main definitions

* `Color.Signed` — names that stand for six digits behind number signs.
* `Color.Clamped` — digits that write three channels, none above 255.
* `Color.Converts` — what the validity of a text says about its digits.
* `Execution.Colors` — a style gives digits to the runs of paragraphs.

## Main results

* `Execution.valid_colors_given` — what passes for a color is given.
-/

namespace Redline

open Editing Redline.Text

namespace Color

open Numeral

/-- Every name stands for six digits to the base 16, behind any number of number signs. -/
def Signed (names : Names) : Prop :=
  ∀ entry ∈ names, ∃ signs digits, entry.2.toList = List.replicate signs '#' ++ digits ∧
    digits.length = 6 ∧ ∀ c ∈ digits, isHexDigit c = true

/-- Two digits to the base 16 for each channel, which write what the rows of the channels write or
255 if that is less. -/
def Clamped (red green blue digits : List Char) : Prop :=
  ∃ r g b, digits = r ++ (g ++ b) ∧
    ∀ channel ∈ [(red, r), (green, g), (blue, b)], channel.2.length = 2 ∧
      hexadecimal? channel.2 = some (min (rowValue channel.1) 255 : Nat)

/-- What the validity of a text says about its digits. -/
structure Converts (names : Names) (text : String) : Prop where
  /-- A text is a color if and only if it stands for digits. -/
  valid_iff : (∀ row, Channel text row → row.length ≤ maxDigits) →
    (isValid names text = true ↔ ∃ digits, rgb? names text = .ok (some digits))
  /-- What is no color stands for nothing. -/
  invalid : isValid names text = false → rgb? names text = .ok none
  /-- A channel of too many digits passes, but it is not read. -/
  overlong : ∀ row, Channel text row → maxDigits < row.length →
    isValid names text = true ∧ ∃ n, rgb? names text = .error (.longInteger n)
  digits : ∀ digits, rgb? names text = .ok (some digits) → Digits digits.toList
  clamped : ∀ red green blue digits, read text = .channels red green blue →
    rgb? names text = .ok (some digits) → Clamped red green blue digits.toList

variable {names : Names} {text : String} {row : List Char}

theorem withoutSigns_replicate {digits : List Char} (n : Nat)
    (h : ∀ c ∈ digits, isHexDigit c = true) :
    withoutSigns (List.replicate n '#' ++ digits) = digits := by
  induction n with
  | zero =>
    cases digits with
    | nil => rfl
    | cons c rest =>
      have hc : (c == '#') = false := by
        rw [beq_eq_false_iff_ne]
        rintro rfl
        exact absurd (h '#' List.mem_cons_self) (by decide)
      simp [withoutSigns, hc]
  | succ n ih => exact ih

theorem Signed.proper (h : Signed names) : Proper names := by
  intro entry hentry
  obtain ⟨signs, digits, htext, hlength, hdigits⟩ := h entry hentry
  obtain ⟨hsame, hcapital⟩ := upper_of_isHexDigit hdigits
  rw [htext, withoutSigns_replicate signs hdigits]
  exact ⟨hsame.trans hlength, hcapital⟩

theorem rgb?_of_not_valid (h : isValid names text = false) : rgb? names text = .ok none := by
  rw [isValid] at h
  rw [rgb?]
  cases hread : read text with
  | name name =>
    simp only [hread, Option.isSome_eq_false_iff, Option.isNone_iff_eq_none] at h
    simp only [h]
  | _ => simp [hread] at h

/-- A channel is part of a color whatever names there are. -/
theorem isValid_of_channel (names : Names) (h : Channel text row) : isValid names text = true := by
  obtain ⟨red, green, blue, hread, -⟩ := h
  rw [isValid, hread]

theorem hexadecimal?_channelDigits {n : Nat} (h : n < 256) :
    (channelDigits n).length = 2 ∧ hexadecimal? (channelDigits n) = some (n : Int) := by
  have htable : ∀ n < 256, (channelDigits n).length = 2 ∧
      hexadecimal? (channelDigits n) = some (n : Int) := by
    decide +kernel
  exact htable n h

/-- The digits of a channel write the number of its row, or 255 if that is less. -/
theorem channelDigits_of_channel (h : Channel text row) {n : Nat} (hn : channelValue row = .ok n) :
    (channelDigits n).length = 2 ∧
      hexadecimal? (channelDigits n) = some (min (rowValue row) 255 : Nat) := by
  have hrow := isRow_of_channel h
  have hshort : row.length ≤ maxDigits := by
    by_contra hlong
    rw [channelValue_of_long hrow (by omega)] at hn
    cases hn
  rw [channelValue, integer?_of_isRow hrow hshort] at hn
  obtain rfl := Except.ok.inj hn
  exact hexadecimal?_channelDigits (by omega)

theorem clamped_of_rgb? {red green blue : List Char} {digits : String}
    (hread : read text = .channels red green blue)
    (h : rgb? names text = .ok (some digits)) : Clamped red green blue digits.toList := by
  rw [rgb?, hread] at h
  obtain ⟨r, hred, h⟩ := except_bind_eq_ok.1 h
  obtain ⟨g, hgreen, h⟩ := except_bind_eq_ok.1 h
  obtain ⟨b, hblue, h⟩ := except_bind_eq_ok.1 h
  obtain rfl := Option.some.inj (Except.ok.inj h)
  have hchannel : ∀ row ∈ [red, green, blue], Channel text row := fun row hrow =>
    ⟨red, green, blue, hread, hrow⟩
  refine ⟨channelDigits r, channelDigits g, channelDigits b, by simp, ?_⟩
  simp only [List.forall_mem_cons, List.not_mem_nil, false_imp_iff, implies_true, and_true]
  exact ⟨channelDigits_of_channel (hchannel red (by simp)) hred,
    channelDigits_of_channel (hchannel green (by simp)) hgreen,
    channelDigits_of_channel (hchannel blue (by simp)) hblue⟩

/-- Under names that stand for six digits, what passes for a color and what stands for digits is the
same, but for channels of too many digits. -/
theorem converts_of_proper (hn : Proper names) (text : String) : Converts names text where
  valid_iff hshort := by
    constructor
    · intro hvalid
      rcases rgb?_of_isValid hn hvalid with hdigits | ⟨row, hrow, hlong, -⟩
      · exact hdigits
      · exact absurd (hshort row hrow) (Nat.not_le.2 hlong)
    · rintro ⟨digits, hdigits⟩
      by_contra hinvalid
      rw [rgb?_of_not_valid (by simpa using hinvalid)] at hdigits
      cases hdigits
  invalid := rgb?_of_not_valid
  overlong row hrow hlong := by
    have hvalid := isValid_of_channel names hrow
    refine ⟨hvalid, ?_⟩
    rcases rgb?_of_isValid hn hvalid with ⟨digits, hdigits⟩ | ⟨other, -, -, herror⟩
    · exact absurd hdigits (rgb?_of_channel hrow hlong _)
    · exact ⟨_, herror⟩
  digits _ h := digits_of_rgb? hn h
  clamped _ _ _ _ hread h := clamped_of_rgb? hread h

end Color

namespace Execution

variable {rules : Rules} {setting : Setting} {style : Style} {color digits : String}

/-- A style gives digits to the runs of paragraphs: it queues the effect that does so before any
other, and this effect is made in whatever document there is. -/
structure Colors (setting : Setting) (style : Style) (digits : String) : Prop where
  queued : ∀ host paragraph, ∃ others, (queueStyle setting paragraph style).runOn host =
    (.ok (), host.queueing host.document (.setColor paragraph digits :: others))
  given : ∀ (d : Document) (p : Paragraph), d.WellFormed → p ∈ d.paragraphs →
    (Effect.setColor p.handle digits).apply d =
      (d.put { p with
        content := p.content.formatRuns fun format => { format with color := some digits } }, none)

theorem colors_of_digits (hcolor : style.color = some color) (hne : color ≠ "")
    (hrgb : Color.rgb? setting.rules.namedColors color = .ok (some digits))
    (hdigits : Color.Digits digits.toList) : Colors setting style digits where
  queued host paragraph := by
    have hnonempty : digits ≠ "" := by
      rintro rfl
      simpa using hdigits.length
    have htold : colorDigits setting style = .ok (some digits) := by
      rw [colorDigits, hcolor]
      simp [hne, hrgb]
    have hfilter : (some digits).filter (!·.isEmpty) = some digits := by
      simp [Option.filter, hnonempty]
    rw [queueStyle_eq, runOn_bind, htold, runOn_lift_ok]
    simp only [queueLooks_run, styleLooks, hfilter]
    exact ⟨_, rfl⟩
  given d p hd hp := by
    refine (Document.apply_look hd hp (.color digits)).2 ⟨_, ?_, rfl⟩
    rw [Look.give, hdigits.runColor_eq, String.ofList_toList]
    rfl

/-- Under names that stand for six digits, a text passes for a color exactly if it stands for digits,
and these are six capital digits of channels that are at most 255.  So the color of a style that
passes is given to the runs of paragraphs.  Left out are colors with a channel of more digits than an
integer may have, which pass and do not stand for anything, and the empty name, which passes when
there is such a name and is not given. -/
theorem valid_colors_given (rules : Rules) (hn : Color.Signed rules.namedColors) :
    (∀ text, Color.Converts rules.namedColors text) ∧
    ∀ owner path value style color, Check.readStyle? rules owner path value = .ok (some style) →
      style.color = some color → color ≠ "" →
      (∀ row, Color.Channel color row → row.length ≤ Numeral.maxDigits) →
      ∃ digits, Color.rgb? rules.namedColors color = .ok (some digits) ∧
        ∀ scorer, Colors ⟨rules, scorer⟩ style digits := by
  have hconverts := Color.converts_of_proper hn.proper
  refine ⟨hconverts, fun owner path value style color hread hcolor hne hshort => ?_⟩
  have hgives := Check.readStyle?_eq_ok_iff.1 hread
  have hvalid : Color.isValid rules.namedColors color = true :=
    (hgives.checked style rfl).color color hcolor
  obtain ⟨digits, hdigits⟩ := ((hconverts color).valid_iff hshort).1 hvalid
  exact ⟨digits, hdigits, fun scorer =>
    colors_of_digits hcolor hne hdigits ((hconverts color).digits digits hdigits)⟩

/-- A name in capitals that stands for digits behind two number signs. -/
theorem valid_colors_given_named :
    let rules : Rules := { namedColors := [("brand", "##12aB9f")] }
    let style : Style := ⟨some "BRAND", none, none⟩
    Color.Signed rules.namedColors ∧
      Check.readStyle? rules (.paragraph 0) "style" (.obj [("color", .str "BRAND")]) =
        .ok (some style) ∧
      (∀ row, Color.Channel "BRAND" row → row.length ≤ Numeral.maxDigits) ∧
      Color.Converts rules.namedColors "BRAND" ∧
      ∀ scorer, Colors ⟨rules, scorer⟩ style "12AB9F" := by
  intro rules style
  have hsigned : Color.Signed rules.namedColors := by
    intro entry hentry
    obtain rfl := List.mem_singleton.1 hentry
    exact ⟨2, "12aB9f".toList, by decide, by decide, List.all_eq_true.1 (by decide)⟩
  have hread : Check.readStyle? rules (.paragraph 0) "style" (.obj [("color", .str "BRAND")]) =
      .ok (some style) := by
    refine Check.readStyle?_eq_ok_iff.2 ⟨⟨_, rfl⟩, rfl, rfl, rfl, ?_, nofun⟩
    rintro _ ⟨⟩
    decide +kernel
  have hname : Color.read "BRAND" = .name "brand" := by decide
  have hshort : ∀ row, Color.Channel "BRAND" row → row.length ≤ Numeral.maxDigits := by
    rintro row ⟨red, green, blue, hchannels, -⟩
    rw [hname] at hchannels
    cases hchannels
  obtain ⟨hconverts, hgiven⟩ := valid_colors_given rules hsigned
  obtain ⟨digits, hdigits, hcolors⟩ :=
    hgiven _ _ _ style "BRAND" hread rfl (by decide) hshort
  have htold : Color.rgb? rules.namedColors "BRAND" = .ok (some "12AB9F") := by decide +kernel
  obtain rfl := Option.some.inj (Except.ok.inj (hdigits.symm.trans htold))
  exact ⟨hsigned, hread, hshort, hconverts "BRAND", hcolors⟩

/-- A channel of 4301 digits passes, and nothing can be made of it. -/
theorem valid_color_of_4301_digits :
    let color := Color.ofRed (List.replicate 4301 '9')
    Color.Signed Rules.standard.namedColors ∧
      Color.isValid Rules.standard.namedColors color = true ∧
      ∀ digits, Color.rgb? Rules.standard.namedColors color ≠ .ok digits := by
  intro color
  have hrow : Numeral.IsRow (List.replicate 4301 '9') :=
    Numeral.isRow_replicate (by decide) (by decide)
  have hlong : Numeral.maxDigits < (List.replicate 4301 '9').length := by
    rw [List.length_replicate]
    decide
  have hnamed : ∀ entry ∈ Rules.standard.namedColors, entry.2.toList.length = 6 ∧
      entry.2.toList.all Color.isHexDigit = true := by
    decide +kernel
  refine ⟨fun entry hentry => ?_, Color.isValid_ofRed hrow, fun digits hdigits => ?_⟩
  · obtain ⟨hlength, hhex⟩ := hnamed entry hentry
    exact ⟨0, _, rfl, hlength, List.all_eq_true.1 hhex⟩
  · rw [Color.rgb?_ofRed hrow hlong] at hdigits
    cases hdigits

/-- The empty name passes when there is such a name, but it is not given. -/
theorem empty_color_not_given :
    let rules : Rules := { namedColors := [("", "FF0000")] }
    let style : Style := ⟨some "", none, none⟩
    Check.readStyle? rules (.paragraph 0) "style" (.obj [("color", .str "")]) = .ok (some style) ∧
      Color.rgb? rules.namedColors "" = .ok (some "FF0000") ∧
      ∀ (scorer : Heading.Scorer) (host : Host) (paragraph : Handle),
        (queueStyle ⟨rules, scorer⟩ paragraph style).runOn host = (.ok (), host) := by
  intro rules style
  refine ⟨Check.readStyle?_eq_ok_iff.2 ⟨⟨_, rfl⟩, rfl, rfl, rfl, ?_, nofun⟩, by decide +kernel,
    fun scorer host paragraph => rfl⟩
  rintro _ ⟨⟩
  decide +kernel

end Execution

end Redline
