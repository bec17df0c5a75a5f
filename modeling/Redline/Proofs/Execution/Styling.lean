import Redline.Proofs.Document.Styling
import Redline.Proofs.Execution.Accepting
import Redline.Proofs.Execution.Stopping

/-!
# Actions that style paragraphs

An action that styles paragraphs reads the list of paragraphs, picks those that its target means, and
gives each of them the looks of its style.  Which ones it means depends on their styles alone, and a
look does not change a style.  So it does not matter whether paragraphs are picked at once or kind by
kind, nor by which of the two actions.

## Main definitions

* `Style.finish` — what a style gives to a paragraph.
* `Execution.Styles` — an action that styles the paragraphs of some styles.

## Main results

* `Execution.styling_agrees` — the actions agree, and what they make.
-/

namespace Redline

open Editing

/-- What a style gives to a paragraph. -/
def Style.finish (style : Style) : Finish where
  color := style.color.bind fun color => (Color.rgb? standardColors color).toOption.join
  bold := style.bold
  alignment := style.alignment.bind Alignment.ofName?

/-- Whether a target means the paragraphs of a style. -/
def FormatTarget.means (rules : Rules) (target : FormatTarget) (name : String) : Bool :=
  match target with
  | .headings => rules.isHeading name
  | .paragraphs => !rules.isHeading name
  | _ => true

namespace Paragraph

theorem finished_nothing (p : Paragraph) : p.finished ⟨none, none, none⟩ = p := by
  have hsame :
      (fun format : RunFormat => format.finished ⟨none, none, none⟩) = fun format => format :=
    rfl
  rw [finished, hsame, Forest.formatRuns_self]
  rfl

end Paragraph

namespace Execution

variable {setting : Setting} {scorer : Heading.Scorer} {host after : Host} {style : Style}
  {action : Action} {meant : String → Bool} {p : Paragraph} {digits : Option String}
  {sheet : Stylesheet}

/-! ## Looks -/

theorem giveAll_colors (hd : ∀ x ∈ digits, Color.Digits x.toList) :
    Look.giveAll sheet p ((digits.filter (!·.isEmpty)).toList.map .color) =
      some (p.finished ⟨digits, none, none⟩) := by
  cases digits with
  | none => rw [p.finished_nothing]; rfl
  | some x =>
    have hx := hd x rfl
    have hne : x ≠ "" := by
      rintro rfl
      simpa using hx.length
    simp [Option.filter, hne, Look.giveAll, Look.give, hx.runColor_eq, Except.toOption,
      Paragraph.finished, RunFormat.finished]

theorem giveAll_alignments {alignment : Option String}
    (ha : ∀ name ∈ alignment, name ∈ alignmentNames) :
    Look.giveAll sheet p ((alignment.filter (!·.isEmpty)).toList.map .alignment) =
      some (p.finished ⟨none, none, alignment.bind Alignment.ofName?⟩) := by
  cases alignment with
  | none => exact congrArg some p.finished_nothing.symm
  | some name =>
    obtain ⟨alignment, hname⟩ := Option.isSome_iff_exists.1 (isSome_ofName? name (ha name rfl))
    have hempty : Alignment.ofName? "" = none := by decide
    have hne : name ≠ "" := by
      rintro rfl
      rw [hempty] at hname
      cases hname
    have hruns := Forest.formatRuns_self p.content
    simp [Option.filter, hne, Look.giveAll, Look.give, hname, Paragraph.finished,
      RunFormat.finished, hruns]

theorem giveAll_bolds {bold : Option Bool} :
    Look.giveAll sheet p (bold.toList.map .bold) = some (p.finished ⟨none, bold, none⟩) := by
  cases bold with
  | none => exact congrArg some p.finished_nothing.symm
  | some bold => rfl

/-- A paragraph that gets the looks of a checked style gets its finish. -/
theorem giveAll_styleLooks (hs : style.Checked .standard)
    (hdigits : colorDigits ⟨.standard, scorer⟩ style = .ok digits) (sheet : Stylesheet)
    (p : Paragraph) :
    Look.giveAll sheet p (styleLooks digits style) = some (p.finished style.finish) := by
  have hcolor : digits = style.finish.color := colorDigits_standard hdigits
  rw [styleLooks, giveAll_append, giveAll_colors fun x hx => digits_of_colorDigits hdigits hx,
    Option.bind_some, giveAll_append, giveAll_alignments hs.alignment, Option.bind_some,
    giveAll_bolds, hcolor]
  simp [Paragraph.finished, RunFormat.finished, Forest.formatRuns_formatRuns, Style.finish]

/-! ## What an action means -/

/-- An action gives a style to the paragraphs of some styles. -/
def Styles (setting : Setting) (style : Style) (action : Action) (meant : String → Bool) : Prop :=
  ∀ host : Host, host.Answers → (perform setting action.kind action).runOn host =
    ((host.document.passages.filter fun p => meant p.style).forM fun p =>
      queueStyle setting p.handle style).runOn host

theorem styles_updateTextFormat (setting : Setting) (style : Style) (target : FormatTarget) :
    Styles setting style (.updateTextFormat target style) (target.means setting.rules) := by
  intro host ha
  have hmeant : isMeant setting.rules target = fun p => target.means setting.rules p.style := by
    funext p
    cases target <;> rfl
  simp only [Action.kind, perform, updateTextFormat, runOn_bind, ha.paragraphs, hmeant]

theorem styles_updateHeadingStyle (setting : Setting) (style : Style) (heading : Json) :
    Styles setting style (.updateHeadingStyle .all heading style) setting.rules.isHeading := by
  intro host ha
  simp only [Action.kind, perform, updateHeadingStyle, Heading.headings, runOn_bind, ha.paragraphs,
    runOn_pure]

/-- The paragraphs that are meant, by their handles. -/
theorem mem_handles_filter {d : Document} (hd : d.WellFormed) {p : Paragraph}
    (hp : p ∈ d.paragraphs) :
    p.handle ∈ (d.passages.filter fun q => meant q.style).map (·.handle) ↔ meant p.style = true := by
  constructor
  · intro hmem
    obtain ⟨q, hq, hhandle⟩ := List.mem_map.1 hmem
    obtain ⟨hq, hmeant⟩ := List.mem_filter.1 hq
    obtain ⟨⟨x, k⟩, hx, rfl⟩ := List.mem_map.1 hq
    obtain rfl := hd.eq_of_handle_eq (List.fst_mem_of_mem_zipIdx hx) hp hhandle
    exact hmeant
  · intro hmeant
    obtain ⟨k, hk⟩ := List.mem_iff_getElem?.1 hp
    have hpassage : p.passage k ∈ d.passages := by
      refine List.mem_of_getElem? (i := k) ?_
      rw [Document.getElem?_passages, hk]
      rfl
    exact List.mem_map.2 ⟨p.passage k, List.mem_filter.2 ⟨hpassage, hmeant⟩, rfl⟩

/-- The effects that an action queues give the finish to the paragraphs that it means. -/
theorem becomes_of_targets {d : Document} (hd : d.WellFormed) (hs : style.Checked .standard)
    (hdigits : colorDigits ⟨.standard, scorer⟩ style = .ok digits) (meant : String → Bool) :
    d.Becomes (((d.passages.filter fun p => meant p.style).map (·.handle)).flatMap fun h =>
        (styleLooks digits style).map (·.effect h))
      (d.finished meant style.finish) := by
  have hsub : ((d.passages.filter fun p => meant p.style).map (·.handle)).Sublist d.body.listed := by
    rw [← d.map_handle_passages]
    exact List.filter_sublist.map _
  have hnodup : d.body.listed.Nodup := hd.nodup_body.sublist (Forest.listed_sublist_handles _)
  have hbecomes := Document.becomes_finished hd (giveAll_styleLooks hs hdigits)
    (hnodup.sublist hsub) hsub.subset
  have hsame : d.finished meant style.finish = d.rewrite fun p =>
      (if p.handle ∈ (d.passages.filter fun q => meant q.style).map (·.handle)
        then p.finished style.finish else p).tree := by
    rw [Document.finished, Document.rewrite, Document.rewrite]
    congr 1
    refine Forest.rewrite_congr fun p hp => ?_
    simp only [mem_handles_filter hd hp]
  rwa [hsame]

/-! ## Runs -/

section
variable (hh : host.Ready) (ha : Styles ⟨.standard, scorer⟩ style action meant)
include hh ha

/-- An action styles the paragraphs that it means, if the color of its style can be told. -/
theorem does_of_styles (hs : style.Checked .standard)
    (hdigits : colorDigits ⟨.standard, scorer⟩ style = .ok digits) :
    ∃ after, Does ⟨.standard, scorer⟩ action host after ∧ after.Ready ∧
      after.document = host.document.finished meant style.finish := by
  have hperform := ha host hh.toAnswers
  simp only [queueStyle_eq, hdigits] at hperform
  have hqueued := hperform.trans (queueAllLooks_run (styleLooks digits style) _ host)
  have hbecomes := becomes_of_targets hh.wellFormed hs hdigits meant
  obtain ⟨n, hflush⟩ := hh.flush_queueing.2 ⟨_, hbecomes, rfl⟩
  exact ⟨_, does_iff.2 ⟨_, hqueued, n, hflush⟩,
    hh.flushed (hh.wellFormed.finished meant style.finish), rfl⟩

/-- An action does nothing if there is no paragraph that it means. -/
theorem does_nothing (hnone : ∀ p ∈ host.document.passages, meant p.style = false) :
    ∃ after, Does ⟨.standard, scorer⟩ action host after ∧ after.Ready ∧
      after.document = host.document := by
  have hperform := ha host hh.toAnswers
  rw [List.filter_eq_nil_iff.2 fun p hp => by simp [hnone p hp]] at hperform
  have hidle : host = host.queueing host.document [] := by simp [Host.queueing]
  obtain ⟨n, hflush⟩ := hh.flush_queueing.2 ⟨_, Document.becomes_nil.2 rfl, rfl⟩
  rw [← hidle] at hflush
  exact ⟨_, does_iff.2 ⟨_, hperform, n, hflush⟩, hh.flushed hh.wellFormed, rfl⟩

/-- An action fails if there is a paragraph that it means and the color of its style cannot be
told. -/
theorem fails_of_styles {f : Fault} (hf : colorDigits ⟨.standard, scorer⟩ style = .error f)
    (hsome : ∃ p ∈ host.document.passages, meant p.style = true) :
    (runAction ⟨.standard, scorer⟩ (own action)).runOn host =
      (.error (.failure (.actionFailed action.kind.name f)), host) := by
  refine runAction_fault ((ha host hh.toAnswers).trans (queueStyles_error ?_ hf))
  obtain ⟨p, hp, hmeant⟩ := hsome
  exact List.ne_nil_of_mem (List.mem_filter.2 ⟨hp, hmeant⟩)

end

/-- What comes of a document when several kinds of paragraphs get a finish, one kind after the
other. -/
def finishedBy (meants : List (String → Bool)) (finish : Finish) (d : Document) : Document :=
  meants.foldl (fun d meant => d.finished meant finish) d

section
variable {actions : List Action} {meants : List (String → Bool)}
  (ha : List.Forall₂ (Styles ⟨.standard, scorer⟩ style) actions meants)
include ha

theorem flushed_of_styles (hh : host.Ready) (hs : style.Checked .standard)
    (hdigits : colorDigits ⟨.standard, scorer⟩ style = .ok digits) :
    ∃ after, OneByOne (fun typed => Flushed (preparation ⟨.standard, scorer⟩ typed))
        (actions.map own) host after ∧
      after.document = finishedBy meants style.finish host.document := by
  induction ha generalizing host with
  | nil => exact ⟨host, .nil host, rfl⟩
  | cons hfirst _ ih =>
    obtain ⟨mid, hdoes, hmid, hdocument⟩ := does_of_styles hh hfirst hs hdigits
    obtain ⟨after, hsteps, hafter⟩ := ih hmid
    refine ⟨after, .cons (runAction_eq_ok.1 hdoes) hsteps, ?_⟩
    rw [hafter, hdocument]
    rfl

/-- Where the color cannot be told, nothing is styled: an action fails or means no paragraph. -/
theorem runActions_of_untold {f : Fault} (hh : host.Ready)
    (hf : colorDigits ⟨.standard, scorer⟩ style = .error f) (index : Nat) :
    ∃ outcome after, (runActions ⟨.standard, scorer⟩ index (actions.map own)).runOn host =
      (.ok outcome, after) ∧ after.document = host.document := by
  induction ha generalizing host index with
  | nil => exact ⟨none, host, rfl, rfl⟩
  | @cons action meant actions meants hfirst _ ih =>
    rw [List.map_cons]
    by_cases hsome : ∃ p ∈ host.document.passages, meant p.style = true
    · rw [runActions_cons_of_failure (fails_of_styles hh hfirst hf hsome)]
      exact ⟨_, _, rfl, rfl⟩
    · have hnone : ∀ p ∈ host.document.passages, meant p.style = false := by simpa using hsome
      obtain ⟨mid, hdoes, hmid, hdocument⟩ := does_nothing hh hfirst hnone
      rw [runActions_cons_of_ok (runAction_eq_ok.1 hdoes), ← hdocument]
      exact ih hmid (index + 1)

end

/-- The document that a run leaves. -/
def made (scorer : Heading.Scorer) (actions : List Action) (host : Host) : Document :=
  ((run ⟨.standard, scorer⟩ (actions.map own)).runOn host).2.document

/-- A run succeeds, and what it makes of the document is a finish on the paragraphs of some styles. -/
def Finishes (scorer : Heading.Scorer) (actions : List Action) (meant : String → Bool)
    (finish : Finish) (host : Host) : Prop :=
  ∃ message after, (run ⟨.standard, scorer⟩ (actions.map own)).runOn host =
    (.ok (.success message), after) ∧ host.document.HasFinish meant finish after.document

section
variable {actions others : List Action} {meants otherMeants : List (String → Bool)}
  (hh : host.Ready) (ha : List.Forall₂ (Styles ⟨.standard, scorer⟩ style) actions meants)
include hh ha

theorem made_of_told (hs : style.Checked .standard)
    (hdigits : colorDigits ⟨.standard, scorer⟩ style = .ok digits) :
    made scorer actions host = finishedBy meants style.finish host.document := by
  obtain ⟨after, hsteps, hdocument⟩ := flushed_of_styles ha hh hs hdigits
  rw [made, run_of_flushed hh.isOpen hsteps]
  exact hdocument

theorem made_of_untold {f : Fault} (hf : colorDigits ⟨.standard, scorer⟩ style = .error f) :
    made scorer actions host = host.document := by
  obtain ⟨outcome, after, hrun, hdocument⟩ := runActions_of_untold ha hh hf 0
  rw [made, run_of_open hh.isOpen]
  simp only [hrun]
  cases outcome <;> exact hdocument

/-- Runs make the same document if what they style comes to the same. -/
theorem made_congr (hs : style.Checked .standard)
    (ho : List.Forall₂ (Styles ⟨.standard, scorer⟩ style) others otherMeants)
    (hsame : finishedBy meants style.finish host.document =
      finishedBy otherMeants style.finish host.document) :
    made scorer actions host = made scorer others host := by
  rcases colorDigits_cases scorer hs with ⟨digits, hdigits⟩ | ⟨n, -, herror⟩
  · rw [made_of_told hh ha hs hdigits, made_of_told hh ho hs hdigits, hsame]
  · rw [made_of_untold hh ha herror, made_of_untold hh ho herror]

theorem finishes_of_styles (hs : style.Checked .standard)
    (hdigits : colorDigits ⟨.standard, scorer⟩ style = .ok digits)
    (hsame : finishedBy meants style.finish host.document =
      host.document.finished meant style.finish) :
    Finishes scorer actions meant style.finish host := by
  obtain ⟨after, hsteps, hdocument⟩ := flushed_of_styles ha hh hs hdigits
  refine ⟨_, after, run_of_flushed hh.isOpen hsteps, ?_⟩
  rw [hdocument, hsame]
  exact Document.hasFinish_finished hh.wellFormed meant style.finish

end

/-- The color of a style can be told, and it is given; so is the alignment. -/
structure Told (style : Style) : Prop where
  color : ∀ color ∈ style.color, ∃ digits, Color.rgb? standardColors color = .ok (some digits) ∧
    Color.Digits digits.toList ∧ style.finish.color = some digits
  alignment : ∀ name ∈ style.alignment, ∃ alignment, Alignment.ofName? name = some alignment ∧
    style.finish.alignment = some alignment

theorem told_of_checked (hs : style.Checked .standard) (hshort : ∀ n, ¬ style.Overlong n) :
    Told style where
  color color hcolor := by
    rcases Color.rgb?_of_isValid Color.proper_standardColors (hs.color color hcolor) with
      ⟨digits, hdigits⟩ | ⟨row, hrow, hlong, -⟩
    · refine ⟨digits, hdigits, Color.digits_of_rgb? Color.proper_standardColors hdigits, ?_⟩
      rw [Style.finish, Option.mem_def.1 hcolor, Option.bind_some, hdigits]
      rfl
    · exact absurd ⟨color, hcolor, row, hrow, rfl, hlong⟩ (hshort row.length)
  alignment name hname := by
    obtain ⟨alignment, ha⟩ :=
      Option.isSome_iff_exists.1 (isSome_ofName? name (hs.alignment name hname))
    refine ⟨alignment, ha, ?_⟩
    rw [Style.finish, Option.mem_def.1 hname]
    exact ha

/-- Headings and paragraphs together, in either order, are all paragraphs. -/
theorem finishedBy_kinds (finish : Finish) (d : Document) :
    finishedBy [FormatTarget.headings.means .standard, FormatTarget.paragraphs.means .standard]
        finish d = d.finished (FormatTarget.all.means .standard) finish ∧
      finishedBy [FormatTarget.paragraphs.means .standard, FormatTarget.headings.means .standard]
        finish d = d.finished (FormatTarget.all.means .standard) finish := by
  simp only [finishedBy, List.foldl_cons, List.foldl_nil]
  rw [Document.finished_finished (by simp [FormatTarget.means]),
    Document.finished_finished (by simp [FormatTarget.means])]
  constructor
  · congr 1
    funext name
    exact Bool.or_not_self _
  · congr 1
    funext name
    exact Bool.not_or_self _

/-- The actions that style paragraphs agree, whatever checked style they give: headings are the same
to both, and all paragraphs at once are the headings and then the others, or the others and then the
headings.  They succeed, and the paragraphs that they mean get the style; nothing else changes.  A
style one of whose channels has more digits than an integer may have passes all the same, but no
paragraph gets it. -/
theorem styling_agrees (scorer : Heading.Scorer) (hh : host.Ready) {kind : ActionKind}
    {path : String} {value : Json} (hread : Check.readStyle .standard kind path value = .ok style) :
    (∀ heading, made scorer [.updateHeadingStyle .all heading style] host =
        made scorer [.updateTextFormat .headings style] host) ∧
      made scorer [.updateTextFormat .all style] host = made scorer
        [.updateTextFormat .headings style, .updateTextFormat .paragraphs style] host ∧
      made scorer [.updateTextFormat .all style] host = made scorer
        [.updateTextFormat .paragraphs style, .updateTextFormat .headings style] host ∧
      ((∀ n, ¬ style.Overlong n) → Told style ∧
        (∀ target, Finishes scorer [.updateTextFormat target style] (target.means .standard)
          style.finish host) ∧
        (∀ heading, Finishes scorer [.updateHeadingStyle .all heading style]
          (FormatTarget.headings.means .standard) style.finish host) ∧
        Finishes scorer [.updateTextFormat .headings style, .updateTextFormat .paragraphs style]
          (FormatTarget.all.means .standard) style.finish host ∧
        Finishes scorer [.updateTextFormat .paragraphs style, .updateTextFormat .headings style]
          (FormatTarget.all.means .standard) style.finish host) ∧
      ∀ n target, style.Overlong n → made scorer [.updateTextFormat target style] host =
          host.document ∧
        ((∃ p ∈ host.document.passages, target.means .standard p.style = true) →
          ∃ f added after, (run ⟨.standard, scorer⟩ [own (.updateTextFormat target style)]).runOn
            host = (.ok (.failed f added), after)) := by
  have hs : style.Checked .standard := (Check.readStyle_eq_ok_iff.1 hread).checked
  have htext := styles_updateTextFormat ⟨.standard, scorer⟩ style
  have hone (target : FormatTarget) := List.Forall₂.cons (htext target) .nil
  have htwo (first second : FormatTarget) := List.Forall₂.cons (htext first) (hone second)
  have hheading (heading : Json) :=
    List.Forall₂.cons (styles_updateHeadingStyle ⟨.standard, scorer⟩ style heading) .nil
  obtain ⟨hforth, hback⟩ := finishedBy_kinds style.finish host.document
  refine ⟨fun heading => made_congr hh (hheading heading) hs (hone .headings) rfl,
    made_congr hh (hone .all) hs (htwo .headings .paragraphs) hforth.symm,
    made_congr hh (hone .all) hs (htwo .paragraphs .headings) hback.symm,
    fun hshort => ?_, fun n target hlong => ?_⟩
  · obtain ⟨digits, hdigits⟩ : ∃ digits, colorDigits ⟨.standard, scorer⟩ style = .ok digits :=
      (colorDigits_cases scorer hs).resolve_right fun ⟨n, hlong, _⟩ => hshort n hlong
    exact ⟨told_of_checked hs hshort,
      fun target => finishes_of_styles hh (hone target) hs hdigits rfl,
      fun heading => finishes_of_styles hh (hheading heading) hs hdigits rfl,
      finishes_of_styles hh (htwo .headings .paragraphs) hs hdigits hforth,
      finishes_of_styles hh (htwo .paragraphs .headings) hs hdigits hback⟩
  · rcases colorDigits_cases scorer hs with ⟨digits, hdigits⟩ | ⟨_, -, herror⟩
    · exact absurd hdigits (colorDigits_of_overlong hlong _)
    · refine ⟨made_of_untold hh (hone target) herror, fun hsome => ?_⟩
      exact ⟨_, _, _, run_single_failed hh.isOpen (fails_of_styles hh (htext target) herror hsome)⟩

/-- A bookmark runs from a heading with a link to the paragraph of a content control; another heading
stands in a cell. -/
def mixedDocument : Document where
  body := .cons (.paragraph ⟨0⟩ "Heading 1" none)
      (.cons (.bookmarkStart "bm" "0") .nil
        (.cons (.run "Aims" {}) .nil (.single .link (.single (.run "here" {}) .nil))))
    (.cons (.control ⟨1⟩ (some ⟨some "sec", none⟩))
        (.single (.paragraph ⟨2⟩ "Normal" none)
          (.cons (.run "We ship on Monday." {}) .nil (.single (.bookmarkEnd "0") .nil)))
      (.single .table (.single .row (.single .cell
        (.single (.paragraph ⟨3⟩ "Heading 2" (some .left))
          (.single (.run "Costs" { bold := some true }) .nil))))))
  nextHandle := 4

theorem ready_mixedDocument : Host.Ready { document := mixedDocument } :=
  ⟨⟨rfl, rfl⟩, rfl, by decide⟩

/-- Red and centered headings. -/
theorem styling_agrees_red :
    let host : Host := { document := mixedDocument }
    let scorer := Heading.overlapScore
    let style : Style := ⟨some "red", some "center", none⟩
    let value : Json := .obj [("color", .str "red"), ("alignment", .str "center")]
    host.Ready ∧ Check.readStyle .standard .updateTextFormat "style" value = .ok style ∧
      (∀ n, ¬ style.Overlong n) ∧
      made scorer [.updateHeadingStyle .all .null style] host =
        made scorer [.updateTextFormat .headings style] host ∧
      made scorer [.updateTextFormat .all style] host = made scorer
        [.updateTextFormat .headings style, .updateTextFormat .paragraphs style] host ∧
      Finishes scorer [.updateTextFormat .headings style] (FormatTarget.headings.means .standard)
        ⟨some "FF0000", none, some .center⟩ host := by
  intro host scorer style value
  have hread : Check.readStyle .standard .updateTextFormat "style" value = .ok style := by
    refine Check.readStyle_eq_ok_iff.2 ⟨⟨_, rfl⟩, rfl, rfl, rfl, ?_, ?_⟩
    · rintro _ ⟨⟩
      decide +kernel
    · rintro _ ⟨⟩
      decide
  have hname : Color.read "red" = .name "red" := by decide
  have hshort : ∀ n, ¬ style.Overlong n := by
    rintro n ⟨_, ⟨⟩, row, ⟨red, green, blue, hchannels, -⟩, -⟩
    rw [hname] at hchannels
    cases hchannels
  have hfinish : style.finish = ⟨some "FF0000", none, some .center⟩ := by decide +kernel
  obtain ⟨hheadings, hall, -, htold, -⟩ := styling_agrees scorer ready_mixedDocument hread
  refine ⟨ready_mixedDocument, hread, hshort, hheadings .null, hall, ?_⟩
  rw [← hfinish]
  exact (htold hshort).2.1 .headings

/-- The cell of the table keeps its weight and gets the rest. -/
example : ((mixedDocument.finished (FormatTarget.headings.means .standard)
      ⟨some "FF0000", none, some .center⟩).paragraphs.map fun p => (p.alignment, p.content)) =
    [(some .center, .cons (.bookmarkStart "bm" "0") .nil
        (.cons (.run "Aims" { color := some "FF0000" }) .nil
          (.single .link (.single (.run "here" {}) .nil)))),
      (none, .cons (.run "We ship on Monday." {}) .nil (.single (.bookmarkEnd "0") .nil)),
      (some .center, .single (.run "Costs" { bold := some true, color := some "FF0000" }) .nil)] := by
  decide +kernel

/-- The first run of the document has no color. -/
theorem not_hasFinish_mixedDocument (digits : String) :
    ¬ mixedDocument.HasFinish (FormatTarget.all.means .standard) ⟨some digits, none, none⟩
      mixedDocument := by
  intro hfinish
  obtain ⟨r, hsame, hr⟩ := hfinish.rewritten
  have hparagraphs := congrArg Document.paragraphs hsame
  rw [Document.paragraphs_rewrite_tree] at hparagraphs
  obtain ⟨first, others, hsplit⟩ : ∃ first others, mixedDocument.paragraphs = first :: others :=
    ⟨_, _, rfl⟩
  rw [hsplit, List.map_cons] at hparagraphs
  have hstays : r first = first := (List.cons.inj hparagraphs).1.symm
  have hfirst := (hr first (hsplit ▸ List.mem_cons_self)).1 rfl
  rw [hstays] at hfirst
  obtain ⟨rfl, -⟩ := List.cons.inj hsplit
  obtain ⟨format, hformat, hcolor, -⟩ := hfirst.run 1 "Aims" {} .nil rfl
  obtain ⟨⟩ := Option.some.inj hformat
  cases hcolor

section
variable {row : List Char} (hrow : Numeral.IsRow row)
include hrow

theorem readStyle_ofRed (kind : ActionKind) (path : String) :
    Check.readStyle .standard kind path (.obj [("color", .str (Color.ofRed row))]) =
      .ok ⟨some (Color.ofRed row), none, none⟩ := by
  refine Check.readStyle_eq_ok_iff.2 ⟨⟨_, rfl⟩, rfl, rfl, rfl, ?_, nofun⟩
  rintro _ ⟨⟩
  exact Color.isValid_ofRed hrow

theorem overlong_ofRed (hlong : Numeral.maxDigits < row.length) :
    Style.Overlong ⟨some (Color.ofRed row), none, none⟩ row.length :=
  ⟨_, rfl, row, ⟨row, _, _, Color.read_ofRed hrow, List.mem_cons_self⟩, rfl, hlong⟩

/-- A color with a channel that is too long passes, and no paragraph gets it. -/
theorem styling_stopped_by_row (scorer : Heading.Scorer)
    (hlong : Numeral.maxDigits < row.length) :
    let host : Host := { document := mixedDocument }
    let style : Style := ⟨some (Color.ofRed row), none, none⟩
    made scorer [.updateTextFormat .all style] host = mixedDocument ∧
      ∃ f added after, (run ⟨.standard, scorer⟩ [own (.updateTextFormat .all style)]).runOn host =
        (.ok (.failed f added), after) := by
  intro host style
  have hs : style.Checked .standard :=
    (Check.readStyle_eq_ok_iff.1 (readStyle_ofRed hrow .updateTextFormat "")).checked
  have hall := styles_updateTextFormat ⟨.standard, scorer⟩ style .all
  have hsome : ∃ p ∈ host.document.passages, FormatTarget.all.means .standard p.style = true :=
    ⟨⟨0, "Aimshere", "Heading 1", ⟨0⟩⟩, by decide, rfl⟩
  rcases colorDigits_cases scorer hs with ⟨digits, hdigits⟩ | ⟨_, -, herror⟩
  · exact absurd hdigits (colorDigits_of_overlong (overlong_ofRed hrow hlong) _)
  · exact ⟨made_of_untold ready_mixedDocument (.cons hall .nil) herror, _, _, _,
      run_single_failed rfl (fails_of_styles ready_mixedDocument hall herror hsome)⟩

end

/-- A color of 4301 digits passes, and no paragraph gets it. -/
theorem styling_stopped_by_4301_digits :
    ∃ color style, Check.readStyle .standard .updateTextFormat "style"
        (.obj [("color", .str color)]) = .ok style ∧ style = ⟨some color, none, none⟩ ∧
      let host : Host := { document := mixedDocument }
      host.Ready ∧
      (∃ f added after, (run ⟨.standard, Heading.overlapScore⟩
        [own (.updateTextFormat .all style)]).runOn host = (.ok (.failed f added), after)) ∧
      ∀ digits, ¬ mixedDocument.HasFinish (FormatTarget.all.means .standard)
        ⟨some digits, none, none⟩
        (made Heading.overlapScore [.updateTextFormat .all style] host) := by
  have hrow : Numeral.IsRow (List.replicate 4301 '9') :=
    Numeral.isRow_replicate (by decide) (by decide)
  have hlong : Numeral.maxDigits < (List.replicate 4301 '9').length := by
    rw [List.length_replicate]
    decide
  obtain ⟨hmade, hfails⟩ := styling_stopped_by_row hrow Heading.overlapScore hlong
  refine ⟨_, _, readStyle_ofRed hrow _ _, rfl, ready_mixedDocument, hfails, fun digits => ?_⟩
  rw [hmade]
  exact not_hasFinish_mixedDocument digits

end Execution

end Redline
