import Redline.Proofs.Color
import Redline.Proofs.Execution.Insertion

/-!
# Blocks and their paragraphs

What becomes of a block can be told from the block and the stylesheet: its text, read back as it was
written, in the style of its kind and with the look that it asks for.

## Main definitions

* `Block.toParagraph` — the paragraph of a block.
* `Execution.blockLooks` — the looks that are queued for a block.
-/

namespace Redline

theorem toOption_eq_some {α : Type} {value : Except Fault α} {a : α} :
    value.toOption = some a ↔ value = .ok a := by
  cases value <;> simp [Except.toOption]

/-! ## Paragraphs of blocks -/

namespace Block

/-- The look of the runs of a block. -/
def format (block : Block) : RunFormat where
  bold := (Execution.blockLook block).bind (·.bold)
  color := ((Execution.blockLook block).bind (·.color)).bind fun color =>
    (Color.rgb? standardColors color).toOption.join

/-- The content of a block's paragraph: one run, or none when there is no text. -/
def content (block : Block) (format : RunFormat) : Forest :=
  let text := Execution.blockText block
  if text.isEmpty then .nil
  else .single (.run (String.ofList (text.toList.map Text.readBack)) format) .nil

/-- The paragraph of a block; `n` is the number of its handle.  It shows the style of its kind as the
document names it. -/
def toParagraph (sheet : Stylesheet) (n : Nat) (block : Block) : Paragraph where
  handle := ⟨n⟩
  style := sheet.shownAs (Execution.blockStyleName .standard block)
  alignment := ((Execution.blockLook block).bind (·.alignment)).bind Alignment.ofName?
  content := block.content block.format

end Block

namespace Execution

open Editing

variable {host after : Host} {setting : Setting} {sheet : Stylesheet}

theorem headingStyle_standard (level : Int) :
    Rules.standard.headingStyle level = s!"Heading {level}" := by
  by_cases h1 : level = 1
  · subst h1
    decide
  · by_cases h2 : level = 2
    · subst h2
      decide
    · by_cases h3 : level = 3
      · subst h3
        decide
      · simp [Rules.headingStyle, Rules.standard, Ne.symm h1, Ne.symm h2, Ne.symm h3]

/-! ## Looks -/

/-- The digits of a style's color, if it has one. -/
def colorDigits (setting : Setting) (style : Style) : Except Fault (Option String) :=
  match style.color with
  | none => .ok none
  | some color =>
    if color.isEmpty then .ok none else Color.rgb? setting.rules.namedColors color

/-- The looks of a style whose color has the given digits. -/
def styleLooks (digits : Option String) (style : Style) : List Look :=
  (digits.filter (!·.isEmpty)).toList.map .color ++
    ((style.alignment.filter (!·.isEmpty)).toList.map .alignment ++ style.bold.toList.map .bold)

/-- Queues looks of a paragraph. -/
def queueLooks (h : Handle) (looks : List Look) : Editing Unit :=
  looks.forM fun look => Host.queue (look.effect h)

@[simp] theorem queueLooks_nil (h : Handle) : queueLooks h [] = pure () := rfl

@[simp] theorem queueLooks_cons (h : Handle) (look : Look) (looks : List Look) :
    queueLooks h (look :: looks) = (Host.queue (look.effect h) >>= fun _ => queueLooks h looks) :=
  rfl

theorem queueStyle_plain (h : Handle) (style : Style) (hc : style.color = none) :
    queueStyle setting h style = queueLooks h (styleLooks none style) := by
  obtain ⟨color, alignment, bold⟩ := style
  obtain rfl : color = none := hc
  rcases alignment with _ | alignment
  · cases bold <;> simp [queueStyle, styleLooks, Look.effect]
  · by_cases ha : alignment = "" <;> cases bold <;>
      simp [queueStyle, styleLooks, Look.effect, ha, Option.filter]

theorem queueStyle_eq (h : Handle) (style : Style) :
    queueStyle setting h style = (do
      let digits ← lift (colorDigits setting style)
      queueLooks h (styleLooks digits style)) := by
  obtain ⟨color, alignment, bold⟩ := style
  rcases color with _ | color
  · rw [queueStyle_plain h _ rfl]
    simp [colorDigits, lift]
  · have hplain := @queueStyle_plain setting h ⟨none, alignment, bold⟩ rfl
    by_cases hc : color = ""
    · have : queueStyle setting h ⟨some color, alignment, bold⟩ =
          queueStyle setting h ⟨none, alignment, bold⟩ := by simp [queueStyle, hc]
      rw [this, hplain]
      simp [colorDigits, hc, lift, styleLooks]
    · cases hr : Color.rgb? setting.rules.namedColors color with
      | error fault => simp [queueStyle, colorDigits, hc, hr, lift, Editing.fault]
      | ok digits =>
        rcases digits with _ | digits
        · have : queueStyle setting h ⟨some color, alignment, bold⟩ =
              queueStyle setting h ⟨none, alignment, bold⟩ := by simp [queueStyle, hc, hr, lift]
          rw [this, hplain]
          simp [colorDigits, hc, hr, lift, styleLooks]
        · by_cases hd : digits = ""
          · have : queueStyle setting h ⟨some color, alignment, bold⟩ =
                queueStyle setting h ⟨none, alignment, bold⟩ := by
              simp [queueStyle, hc, hr, hd, lift]
            rw [this, hplain]
            simp [colorDigits, hc, hr, hd, lift, styleLooks, Option.filter]
          · have : queueStyle setting h ⟨some color, alignment, bold⟩ = (do
                Host.queue (.setColor h digits)
                queueStyle setting h ⟨none, alignment, bold⟩) := by
              simp [queueStyle, hc, hr, hd, lift]
            rw [this, hplain]
            simp [colorDigits, hc, hr, hd, lift, styleLooks, Option.filter, Look.effect]

/-! ## Blocks -/

/-- The looks of a block, if its color can be read. -/
def blockLooks (setting : Setting) (block : Block) : Option (List Look) :=
  match blockLook block with
  | none => some [.style (blockStyleName setting.rules block)]
  | some style => (colorDigits setting style).toOption.map fun digits =>
    .style (blockStyleName setting.rules block) :: styleLooks digits style

theorem queueLooks_run (h : Handle) (looks : List Look) :
    (queueLooks h looks).runOn host =
      (.ok (), host.queueing host.document (looks.map (·.effect h))) :=
  Host.runOn_forM_queue _ _

theorem queueBlockStyle_eq_ok (h : Handle) (block : Block) (host after : Host) :
    (queueBlockStyle setting h block).runOn host = (.ok (), after) ↔
      ∃ looks, blockLooks setting block = some looks ∧
        after = host.queueing host.document (looks.map (·.effect h)) := by
  rw [queueBlockStyle, blockLooks]
  cases blockLook block with
  | none => simp [Host.queueing, Look.effect, eq_comm]
  | some style =>
    simp only [queueStyle_eq, bind_eq_ok, lift_eq_ok, Host.runOn_queue, queueLooks_run]
    constructor
    · rintro ⟨_, _, heq, digits, _, ⟨hdigits, rfl⟩, hlooks⟩
      obtain rfl := (Prod.mk.inj heq).2
      refine ⟨_, by rw [hdigits]; rfl, ?_⟩
      rw [← (Prod.mk.inj hlooks).2]
      simp [Host.queueing, Look.effect]
    · rintro ⟨looks, hlooks, rfl⟩
      obtain ⟨digits, hdigits, rfl⟩ := Option.map_eq_some_iff.1 hlooks
      refine ⟨(), _, rfl, digits, _, ⟨?_, rfl⟩, ?_⟩
      · exact toOption_eq_some.1 hdigits
      · simp [Host.queueing, Look.effect]

/-! ## What becomes of a block -/

variable {block : Block} {n : Nat} {looks : List Look} {p q : Paragraph} {format : RunFormat}

theorem made_eq (hw : Text.isWritable (blockText block).toList = true) :
    Document.made sheet n (blockText block) =
      ⟨⟨n⟩, sheet.defaultName, none, block.content {}⟩ := by
  simp only [Document.made, Block.content, Forest.runOf, Text.written_of_isWritable hw]

theorem formatRuns_content (change : RunFormat → RunFormat) :
    (block.content format).formatRuns change = block.content (change format) := by
  simp only [Block.content]
  split <;> rfl

theorem giveAll_append {first second : List Look} : Look.giveAll sheet p (first ++ second) =
    (Look.giveAll sheet p first).bind fun q => Look.giveAll sheet q second := by
  simp [Look.giveAll, List.foldlM_append]

theorem giveAll_color {digits : Option String} (hd : ∀ x, digits = some x → Color.Digits x.toList)
    (hp : p.content = block.content format) (hf : format.color = none)
    (h : Look.giveAll sheet p ((digits.filter (!·.isEmpty)).toList.map .color) = some q) :
    q = { p with content := block.content { format with color := digits } } := by
  rcases digits with _ | digits
  · obtain rfl := Option.some.inj h
    simp [← hf, ← hp]
  · have hdigits := hd digits rfl
    have hne : digits ≠ "" := by
      rintro rfl
      simpa using hdigits.length
    simp [Option.filter, hne, Look.giveAll, Look.give, hdigits.runColor_eq, Except.toOption,
      hp, formatRuns_content] at h
    exact h.symm

theorem giveAll_alignment {alignment : Option String} (hp : p.alignment = none)
    (h : Look.giveAll sheet p ((alignment.filter (!·.isEmpty)).toList.map .alignment) = some q) :
    q = { p with alignment := alignment.bind Alignment.ofName? } := by
  rcases alignment with _ | name
  · obtain rfl := Option.some.inj h
    simp [← hp]
  · by_cases hne : name = ""
    · subst hne
      obtain rfl : p = q := by simpa [Option.filter, Look.giveAll] using h
      rw [Option.bind_some, show Alignment.ofName? "" = none by decide, ← hp]
    · simp [Option.filter, hne, Look.giveAll, Look.give] at h
      obtain ⟨alignment, ha, rfl⟩ := h
      simp [ha]

theorem giveAll_bold {bold : Option Bool} (hp : p.content = block.content format)
    (hf : format.bold = none) (h : Look.giveAll sheet p (bold.toList.map .bold) = some q) :
    q = { p with content := block.content { format with bold } } := by
  rcases bold with _ | bold
  · obtain rfl := Option.some.inj h
    simp [← hf, ← hp]
  · simp [Look.giveAll, Look.give, hp, formatRuns_content] at h
    exact h.symm

theorem give_style {asked : String} (h : Look.give sheet p (.style asked) = some q) :
    q = { p with style := sheet.shownAs asked } := by
  obtain ⟨style, hstyle, rfl⟩ := Option.map_eq_some_iff.1 h
  rw [Stylesheet.shownAs_of_resolve (toOption_eq_some.1 hstyle)]

theorem colorDigits_standard {scorer : Heading.Scorer} {style : Style} {digits : Option String}
    (h : colorDigits ⟨.standard, scorer⟩ style = .ok digits) :
    digits = (style.color.bind fun color => (Color.rgb? standardColors color).toOption.join) := by
  rw [colorDigits] at h
  rcases hc : style.color with _ | color
  · rw [hc] at h
    exact (Except.ok.inj h).symm
  · rw [hc] at h
    by_cases he : color = ""
    · subst he
      rw [Option.bind_some, show Color.rgb? standardColors "" = .ok none by decide]
      exact (Except.ok.inj h).symm
    · simp only [String.isEmpty_iff, he, if_false] at h
      change Color.rgb? standardColors color = _ at h
      simp [h, Except.toOption]

theorem digits_of_colorDigits {scorer : Heading.Scorer} {style : Style} {digits : Option String}
    (h : colorDigits ⟨.standard, scorer⟩ style = .ok digits) {x : String} (hx : digits = some x) :
    Color.Digits x.toList := by
  rw [colorDigits_standard h] at hx
  obtain ⟨color, _, hcolor⟩ := Option.bind_eq_some_iff.1 hx
  exact Color.digits_of_rgb? Color.proper_standardColors
    (toOption_eq_some.1 (Option.join_eq_some_iff.1 hcolor))

/-- A block that has got all its looks. -/
theorem giveAll_made {scorer : Heading.Scorer}
    (hw : Text.isWritable (blockText block).toList = true)
    (hl : blockLooks ⟨.standard, scorer⟩ block = some looks)
    (hq : Look.giveAll sheet (Document.made sheet n (blockText block)) looks = some q) :
    q = block.toParagraph sheet n := by
  rw [made_eq hw] at hq
  cases hlook : blockLook block with
  | none =>
    rw [blockLooks, hlook] at hl
    obtain rfl := Option.some.inj hl
    have hformat : block.format = {} := by simp [Block.format, hlook]
    obtain ⟨r, hr, hq⟩ := Option.bind_eq_some_iff.1 (hq : (Look.give _ _ _).bind _ = some q)
    obtain rfl := Option.some.inj hq
    rw [give_style hr]
    simp [Block.toParagraph, hlook, hformat]
  | some style =>
    rw [blockLooks, hlook] at hl
    obtain ⟨digits, hdigits, rfl⟩ := Option.map_eq_some_iff.1 hl
    have hcolor := colorDigits_standard (toOption_eq_some.1 hdigits)
    obtain ⟨a, ha, hq⟩ := Option.bind_eq_some_iff.1 (hq : (Look.give _ _ _).bind _ = some q)
    obtain rfl := give_style ha
    obtain ⟨b, hb, hq⟩ := Option.bind_eq_some_iff.1 (giveAll_append.symm.trans hq)
    obtain rfl := giveAll_color (fun x hx => digits_of_colorDigits (toOption_eq_some.1 hdigits) hx)
      rfl rfl hb
    obtain ⟨c, hc, hq⟩ := Option.bind_eq_some_iff.1 (giveAll_append.symm.trans hq)
    obtain rfl := giveAll_alignment rfl hc
    obtain rfl := giveAll_bold rfl rfl hq
    simp [Block.toParagraph, Block.format, hlook, hcolor]

end Execution

end Redline
