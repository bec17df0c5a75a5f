import Redline.Proofs.Context.Chapters
import Redline.Proofs.Editing

/-!
# The sections that a prompt is about

A section is put into the context of a prompt if it has a keyword of the prompt, or if the prompt
mentions the beginning of its heading.  What is searched for keywords are its paragraphs as they are
shown, each cut to its length: a keyword behind the cut is not found.  How many paragraphs are shown
has no part in it.

## Main definitions

* `Context.Touches` — a prompt is about a heading with paragraphs.

## Main results

* `Context.build_relevant` — which sections are in the context.
* `Context.build_misses_keyword` — a keyword behind the cut.
-/

namespace Redline.Context

open Editing Redline.Text

variable {rules : Rules} {passages : List Passage} {prompt : String} {c : Chapter} {i : Nat}
  {host : Host}

/-- A prompt is about a heading with paragraphs: a keyword of it stands in them, or the beginning of
the heading stands in the prompt. -/
def Touches (rules : Rules) (prompt heading : String) (texts : List String) : Prop :=
  (∃ word ∈ keywords prompt rules.stopWords,
    word <:+: lower (heading ++ " " ++ " ".intercalate texts).toList) ∨
  (lower heading.toList).take headingChars <:+: lower prompt.toList

/-- The context has a section for the heading with the given position. -/
def Shows (context : Context) (i : Nat) : Prop := ∃ s ∈ context.relevant, s.headingIndex = i

theorem isRelevant_iff {s : RelevantSection} (h : s.heading ≠ "") :
    isRelevant (keywords prompt rules.stopWords) (lower prompt.toList) s = true ↔
      Touches rules prompt s.heading s.paragraphs := by
  have hheading : lower s.heading.toList ≠ [] := by
    intro hnil
    exact h (String.toList_eq_nil_iff.1 (lower_eq_nil.1 hnil))
  have hbeginning : ((lower s.heading.toList).take headingChars).isEmpty = false := by
    rw [List.isEmpty_eq_false_iff]
    intro hnil
    rcases List.take_eq_nil_iff.1 hnil with hzero | hnil
    · exact absurd hzero (by decide)
    · exact hheading hnil
  simp only [isRelevant, hbeginning, Bool.or_eq_true, List.any_eq_true, occursIn_iff,
    Bool.not_false, Bool.true_and, Touches]

/-- A heading is not blank. -/
theorem heading_ne_empty (hc : c ∈ chapters rules passages) : c.heading ≠ "" := by
  have hall : ∀ l : List Passage, (∀ p ∈ l, allBlank p.text.toList = false) →
      ∀ c ∈ chaptersOf rules l, c.heading ≠ "" := by
    intro l hl
    induction l with
    | nil => intro c hc; cases hc
    | cons p rest ih =>
      obtain ⟨hp, hrest⟩ := List.forall_mem_cons.1 hl
      rw [chaptersOf]
      cases rules.headingLevel? p.style with
      | none => exact ih hrest
      | some level =>
        refine List.forall_mem_cons.2 ⟨fun hempty => ?_, ih hrest⟩
        have hblank := isEmpty_trimmed p.text
        rw [hp, String.isEmpty_eq_false_iff] at hblank
        exact hblank hempty
  refine hall _ (fun p hp => ?_) c hc
  simpa [Snapshot.candidates] using (List.mem_filter.1 hp).2

/-- The sections of a context are the chapters that have paragraphs and that the prompt is about,
each with its first paragraphs. -/
theorem mem_relevantSections {s : RelevantSection} :
    s ∈ relevantSections rules prompt (Outline.ofPassages rules passages) ↔
      ∃ (i : Nat) (c : Chapter), (chapters rules passages)[i]? = some c ∧ c.texts ≠ [] ∧
        Touches rules prompt c.heading (c.texts.map (cut rules.contextParagraphChars)) ∧
        s = { c.shown rules.contextParagraphChars i with
          paragraphs := upTo rules.contextParagraphs
            (c.texts.map (cut rules.contextParagraphChars)) } := by
  have hshown : ∀ i c, c ∈ chapters rules passages →
      ((!(c.shown rules.contextParagraphChars i).paragraphs.isEmpty &&
        isRelevant (keywords prompt rules.stopWords) (lower prompt.toList)
          (c.shown rules.contextParagraphChars i)) = true ↔
        c.texts ≠ [] ∧
          Touches rules prompt c.heading (c.texts.map (cut rules.contextParagraphChars))) := by
    intro i c hc
    rw [Bool.and_eq_true, isRelevant_iff (s := c.shown rules.contextParagraphChars i)
      (heading_ne_empty hc)]
    simp [Chapter.shown]
  simp only [relevantSections, outline_eq, List.mem_map, List.mem_filter, List.mem_mapIdx]
  constructor
  · rintro ⟨_, ⟨⟨i, hi, rfl⟩, hs⟩, rfl⟩
    obtain ⟨hne, htouches⟩ := (hshown i _ (List.getElem_mem hi)).1 hs
    exact ⟨i, _, List.getElem?_eq_getElem hi, hne, htouches, rfl⟩
  · rintro ⟨i, c, hc, hne, htouches, rfl⟩
    obtain ⟨hi, rfl⟩ := List.getElem?_eq_some_iff.1 hc
    exact ⟨_, ⟨⟨i, hi, rfl⟩, (hshown i _ (List.getElem_mem hi)).2 ⟨hne, htouches⟩⟩, rfl⟩

/-- A chapter with paragraphs is in the context if and only if the prompt is about it, its
paragraphs cut. -/
theorem shows_iff (hc : (chapters rules passages)[i]? = some c) (hne : c.texts ≠ [])
    (horder : asksForOrder prompt = false) :
    (ofPassages rules prompt passages).Shows i ↔
      Touches rules prompt c.heading (c.texts.map (cut rules.contextParagraphChars)) := by
  have hwhole : wholeSection prompt (Outline.ofPassages rules passages) = [] := by
    rw [wholeSection, horder]
    rfl
  rw [Shows, ofPassages]
  simp only [hwhole, List.append_nil, mem_relevantSections]
  constructor
  · rintro ⟨_, ⟨j, e, he, -, htouches, rfl⟩, hj⟩
    obtain rfl : j = i := hj
    obtain rfl : e = c := Option.some.inj (he.symm.trans hc)
    exact htouches
  · intro htouches
    exact ⟨_, ⟨i, c, hc, hne, htouches, rfl⟩, rfl⟩

/-- What is not longer than a cut stays as it is. -/
theorem cut_of_length_le {chars : Int} {text : String} (h : (text.length : Int) ≤ chars) :
    cut chars text = text := by
  have hlength : text.toList.length ≤ chars.toNat := by
    rw [String.length_toList]
    omega
  rw [cut, upTo, if_neg (by omega), List.take_of_length_le hlength, String.ofList_toList]

theorem runOn_build (ha : host.Answers) (rules : Rules) (prompt : String) :
    (build rules prompt).runOn host =
      (.ok (ofPassages rules prompt host.document.passages), host) := by
  simp [build, Anchor.ensureHost, runOn_bind, runOn_map, ha.isOpen, ha.paragraphs]

/-- The chapters are those of the heading levels alone. -/
theorem chapters_congr {other : Rules} (h : other.headingLevel? = rules.headingLevel?) :
    chapters other passages = chapters rules passages := by
  have hbody : isBody other = isBody rules := by
    funext p
    rw [isBody, isBody, h]
  have hall : ∀ l, chaptersOf other l = chaptersOf rules l := by
    intro l
    induction l with
    | nil => rfl
    | cons p rest ih => rw [chaptersOf, chaptersOf, h, hbody, ih]
  exact hall _

/-- A chapter with paragraphs is in the context of a prompt that does not ask for another order if
and only if a keyword of the prompt stands in its heading and its paragraphs, each cut to its length,
or the beginning of its heading stands in the prompt.  Where no paragraph is longer than the cut,
these are its heading and the whole of its paragraphs.  It does not matter how many paragraphs are
shown. -/
theorem build_relevant (ha : host.Answers) (rules : Rules) (horder : asksForOrder prompt = false) :
    ∃ context, (build rules prompt).runOn host = (.ok context, host) ∧
      (∀ i c, (chapters rules host.document.passages)[i]? = some c → c.texts ≠ [] →
        (context.Shows i ↔
          Touches rules prompt c.heading (c.texts.map (cut rules.contextParagraphChars))) ∧
        ((∀ text ∈ c.texts, (text.length : Int) ≤ rules.contextParagraphChars) →
          (context.Shows i ↔ Touches rules prompt c.heading c.texts))) ∧
      ∀ count, ∃ other, (build { rules with contextParagraphs := count } prompt).runOn host =
          (.ok other, host) ∧
        ∀ i c, (chapters rules host.document.passages)[i]? = some c → c.texts ≠ [] →
          (other.Shows i ↔ context.Shows i) := by
  refine ⟨_, runOn_build ha rules prompt, fun i c hc hne => ?_, fun count => ?_⟩
  · have hshows := shows_iff hc hne horder
    refine ⟨hshows, fun hshort => ?_⟩
    rw [hshows, List.map_congr_left fun text ht => cut_of_length_le (hshort text ht), List.map_id']
  · refine ⟨_, runOn_build ha _ prompt, fun i c hc hne => ?_⟩
    have hsame : chapters { rules with contextParagraphs := count } host.document.passages =
        chapters rules host.document.passages := chapters_congr rfl
    rw [shows_iff hc hne horder, shows_iff (hsame.symm ▸ hc) hne horder]
    rfl

/-- Two chapters with a paragraph each. -/
def twoChapters : Document where
  body := .cons (.paragraph ⟨0⟩ "Heading 1" none) (.runOf "Aims".toList)
    (.cons (.paragraph ⟨1⟩ "Normal" none) (.runOf "We ship on Monday.".toList)
      (.cons (.paragraph ⟨2⟩ "Heading 2" none) (.runOf "Costs".toList)
        (.single (.paragraph ⟨3⟩ "Normal" none) (.runOf "The Budget is small.".toList))))
  nextHandle := 4

theorem build_relevant_budget :
    let host : Host := { document := twoChapters }
    host.Answers ∧ asksForOrder "Raise the budget" = false ∧
      ∃ context, (build .standard "Raise the budget").runOn host = (.ok context, host) ∧
        ¬ context.Shows 0 ∧ context.Shows 1 := by
  intro host
  have hanswers : host.Answers := ⟨rfl, rfl⟩
  have horder : asksForOrder "Raise the budget" = false := by decide +kernel
  have haims : (chapters .standard twoChapters.passages)[0]? =
      some ⟨"Aims", 1, ["We ship on Monday."]⟩ := by decide +kernel
  have hcosts : (chapters .standard twoChapters.passages)[1]? =
      some ⟨"Costs", 2, ["The Budget is small."]⟩ := by decide +kernel
  obtain ⟨context, hrun, hshows, -⟩ := build_relevant hanswers .standard horder
  refine ⟨hanswers, horder, context, hrun, ?_, ?_⟩
  · have hnot : ¬ Touches .standard "Raise the budget" "Aims" ["We ship on Monday."] := by
      let shown : RelevantSection := ⟨"Aims", 1, ["We ship on Monday."], 0⟩
      rw [← isRelevant_iff (show shown.heading ≠ "" by decide)]
      decide +kernel
    exact fun hshown => hnot (((hshows 0 _ haims (by decide)).2 (by decide)).1 hshown)
  · have hbudget : occursIn "budget".toList
        (lower ("Costs" ++ " " ++ " ".intercalate ["The Budget is small."]).toList) = true := by
      decide +kernel
    exact ((hshows 1 _ hcosts (by decide)).2 (by decide)).2
      (.inl ⟨"budget".toList, by decide +kernel, occursIn_iff.1 hbudget⟩)

/-- A chapter whose one paragraph names the budget at its end. -/
def longChapter : Document where
  body := .cons (.paragraph ⟨0⟩ "Heading 1" none) (.runOf "Aims".toList)
    (.single (.paragraph ⟨1⟩ "Normal" none)
      (.runOf "We ship on Monday and keep the budget.".toList))
  nextHandle := 2

/-- The prompt has a keyword of the chapter, and yet the chapter is not in the context, since the
keyword stands behind the cut. -/
theorem build_misses_keyword :
    let host : Host := { document := longChapter }
    let rules : Rules := { contextParagraphChars := 20 }
    let c : Chapter := ⟨"Aims", 1, ["We ship on Monday and keep the budget."]⟩
    host.Answers ∧ asksForOrder "Raise the budget" = false ∧
      chapters rules longChapter.passages = [c] ∧
      Touches rules "Raise the budget" c.heading c.texts ∧
      ∃ context, (build rules "Raise the budget").runOn host = (.ok context, host) ∧
        context.relevant = [] := by
  intro host rules c
  have hanswers : host.Answers := ⟨rfl, rfl⟩
  have hbudget : occursIn "budget".toList
      (lower (c.heading ++ " " ++ " ".intercalate c.texts).toList) = true := by
    decide +kernel
  have hempty : (ofPassages rules "Raise the budget" longChapter.passages).relevant = [] := by
    decide +kernel
  exact ⟨hanswers, by decide +kernel, by decide +kernel,
    .inl ⟨"budget".toList, by decide +kernel, occursIn_iff.1 hbudget⟩,
    _, runOn_build hanswers rules _, hempty⟩

end Redline.Context
