import Redline.Proofs.Editing
import Redline.Proofs.Heading.Ranking
import Redline.Proofs.Plan.Reading
import Redline.Proofs.Text.Strip

/-!
# Actions at the heading that was meant

An action that names a heading takes the first heading equal to its text, if there is one: only such
headings have the full score, and the search ends at the first of them whatever the threshold is.

## Main definitions

* `Heading.firstEqual?` — the first heading that is equal to a text.
* `Execution.PicksEqual` — actions take that heading.

## Main results

* `Execution.overlap_picks_equal` — the standard score ranks headings, and so the first equal
  heading is taken.
-/

namespace Redline

open Redline.Text

namespace Heading

variable {rules : Rules} {scorer : Scorer} {text : String} {best : Option Passage} {score : Score}
  {passages : List Passage} {p : Passage}

/-- The first heading that is equal to the text, both as they are compared. -/
def firstEqual? (rules : Rules) (passages : List Passage) (text : String) : Option Passage :=
  (headings rules passages).find? fun p => normalized text == normalized p.text

/-- The search ends at the first full score. -/
theorem bestFrom_of_full
    (hfull : ∀ q ∈ passages, scorer text q.text = .top ↔ normalized text = normalized q.text)
    (hp : passages.find? (fun q => normalized text == normalized q.text) = some p) :
    bestFrom scorer text best score passages = (some p, .top) := by
  induction passages generalizing best score with
  | nil => cases hp
  | cons q rest ih =>
    obtain ⟨hq, hrest⟩ := List.forall_mem_cons.1 hfull
    rw [bestFrom]
    by_cases heq : normalized text = normalized q.text
    · rw [List.find?_cons_of_pos (by simpa using heq)] at hp
      obtain rfl : q = p := Option.some.inj hp
      rw [hq.2 heq, if_pos rfl]
    · rw [List.find?_cons_of_neg (by simpa using heq)] at hp
      rw [if_neg (mt hq.1 heq)]
      split
      · exact ih hrest hp
      · exact ih hrest hp

theorem best?_of_full
    (hfull : ∀ q ∈ headings rules passages,
      scorer text q.text = .top ↔ normalized text = normalized q.text)
    (hp : firstEqual? rules passages text = some p) :
    best? rules scorer passages text = some (p, .top) := by
  simp only [best?, bestFrom_of_full hfull hp, if_true]

theorem normalized_ne_nil (h : allBlank text.toList = false) : normalized text ≠ [] := by
  intro hnil
  rw [strip_eq_nil.1 (lower_eq_nil.1 hnil)] at h
  cases h

theorem exactScorer_overlap_eq_top_iff {heading : String} (h : normalized text ≠ []) :
    exactScorer overlap text heading = .top ↔ normalized text = normalized heading := by
  rw [exactScorer, exact_eq_top, ranks_overlap.eq_one_iff]
  exact and_iff_left h

end Heading

namespace Execution

open Editing Heading

variable {setting : Setting} {host : Host} {plan : EditPlan} {rules : Rules} {value : Json}
  {text : String} {p : Passage}

/-- The heading that an action asks for. -/
def heading? : Action → Option Json
  | .insertText _ .afterHeading heading _ _ => some heading
  | .updateHeadingStyle .specific heading _ => some heading
  | _ => none

/-- Actions that ask for a heading take the first one that is equal to the text, if there is one. -/
structure PicksEqual (setting : Setting) (text : String) (host : Host) : Prop where
  inserts : ∀ p, firstEqual? setting.rules host.document.passages text = some p →
    ∀ anchor position blocks,
      (perform setting .insertText
          (.insertText anchor .afterHeading (.str text) position blocks)).runOn host =
        (insertBlocks setting (fun t => Host.insertParagraph t p.handle .after) blocks).runOn host
  styles : ∀ p, firstEqual? setting.rules host.document.passages text = some p →
    ∀ style,
      (perform setting .updateHeadingStyle (.updateHeadingStyle .specific (.str text) style)).runOn
          host =
        (queueStyle setting p.handle style).runOn host

/-- An action of a plan that was read asks for a heading by a text that is not blank. -/
theorem visible_of_heading? (h : Check.readEditPlan rules value = .ok plan) {action : Action}
    (ha : action ∈ plan.actions) {heading : Json} (hheading : heading? action = some heading) :
    ∃ text, heading = .str text ∧ allBlank text.toList = false := by
  obtain ⟨_, items, -, -, -, -, hgives⟩ := Check.readEditPlan_eq_ok_iff.1 h
  obtain ⟨item, -, hitem⟩ := Json.exists_mem_of_forall₂ hgives ha
  have hvisible : heading.IsVisible rules := by
    cases hitem.parts with
    | @insertText _ location _ _ _ _ _ _ _ _ hvisible =>
      cases location with
      | afterHeading => exact Option.some.inj hheading ▸ hvisible rfl
      | _ => cases hheading
    | @updateHeadingStyle target _ _ _ _ _ hvisible =>
      cases target with
      | specific => exact Option.some.inj hheading ▸ hvisible rfl
      | _ => cases hheading
    | _ => cases hheading
  obtain ⟨text, htext, hblank, -⟩ := hvisible
  exact ⟨text, htext, hblank⟩

theorem runOn_requireHeading (ha : host.Answers) {score : Score}
    (h : best? setting.rules setting.scorer host.document.passages text = some (p, score)) :
    (requireHeading setting text).runOn host = (.ok p, host) := by
  simp [requireHeading, runOn_bind, ha.paragraphs, h]

/-- Where full scores go to equal headings only, the first one of them is taken. -/
theorem picksEqual_of_full (ha : host.Answers)
    (hfull : ∀ q ∈ headings setting.rules host.document.passages,
      setting.scorer text q.text = .top ↔ normalized text = normalized q.text) :
    PicksEqual setting text host := by
  constructor
  · intro p hp anchor position blocks
    have hrequire := runOn_requireHeading ha (best?_of_full hfull hp)
    simp [perform, insertText, insertionPoint, headingText, runOn_bind, hrequire]
  · intro p hp style
    have hrequire := runOn_requireHeading ha (best?_of_full hfull hp)
    simp [perform, updateHeadingStyle, headingText, runOn_bind, hrequire]

/-- The standard score as a fraction ranks headings by how they compare with the text, and full
scores go to equal headings only.  So actions that ask for a heading by a text that is not blank
take the first heading equal to it, whatever other headings there are and whatever the threshold is;
and the actions of a plan that was read ask by no other texts.  The same is true of the rounded score
as long as no heading has more than `2 ^ 53` characters. -/
theorem overlap_picks_equal :
    Ranks overlap ∧
    (∀ (rules : Rules) (host : Host) (text : String), host.Answers →
      allBlank text.toList = false →
        PicksEqual ⟨rules, exactScorer overlap⟩ text host ∧
        ((∀ p ∈ host.document.passages, (normalized p.text).length ≤ 2 ^ 53) →
          PicksEqual ⟨rules, overlapScore⟩ text host)) ∧
    ∀ rules value plan, Check.readEditPlan rules value = .ok plan →
      ∀ action ∈ plan.actions, ∀ heading, heading? action = some heading →
        ∃ text, heading = .str text ∧ allBlank text.toList = false := by
  refine ⟨ranks_overlap, fun rules host text ha hvisible => ?_, ?_⟩
  · have hne := normalized_ne_nil hvisible
    constructor
    · exact picksEqual_of_full ha fun q _ => exactScorer_overlap_eq_top_iff hne
    · intro hsize
      refine picksEqual_of_full ha fun q hq => ?_
      have hlength := hsize q (List.mem_filter.1 hq).1
      exact (overlapScore_eq_top_iff hlength).trans (and_iff_left hne)
  · intro rules value plan hread action haction heading hheading
    exact visible_of_heading? hread haction hheading

/-- Headings of which two are equal to the text `costs`, and another one that has it as a part. -/
def costsDocument : Document where
  body := .cons (.paragraph ⟨0⟩ "Heading 1" none) (.runOf "All costs".toList)
    (.cons (.paragraph ⟨1⟩ "Normal" none) (.runOf "costs".toList)
      (.cons (.paragraph ⟨2⟩ "Heading 2" none) (.runOf "COSTS ".toList)
        (.single (.paragraph ⟨3⟩ "Heading 1" none) (.runOf "Costs".toList))))
  nextHandle := 4

theorem overlap_picks_equal_costs :
    let host : Host := { document := costsDocument }
    let value : Json := .obj [("version", .str "1.0"), ("actions", .arr [.obj
      [("type", .str "update_heading_style"), ("target", .str "specific"),
        ("heading_text", .str " Costs"), ("style", .obj [("bold", .bool true)])]])]
    let style : Style := ⟨none, none, some true⟩
    Check.readEditPlan .standard value =
        .ok ⟨[.updateHeadingStyle .specific (.str " Costs") style]⟩ ∧
      host.Answers ∧
      (∀ p ∈ costsDocument.passages, (normalized p.text).length ≤ 2 ^ 53) ∧
      (perform ⟨.standard, overlapScore⟩ .updateHeadingStyle
          (.updateHeadingStyle .specific (.str " Costs") style)).runOn host =
        (queueStyle ⟨.standard, overlapScore⟩ ⟨2⟩ style).runOn host := by
  intro host value style
  have hread : Check.readEditPlan .standard value =
      .ok ⟨[.updateHeadingStyle .specific (.str " Costs") style]⟩ := by rfl
  have hanswers : host.Answers := ⟨rfl, rfl⟩
  have hsize : ∀ p ∈ costsDocument.passages, (normalized p.text).length ≤ 2 ^ 53 := by
    decide +kernel
  have hfirst : firstEqual? .standard costsDocument.passages " Costs" =
      some ⟨2, "COSTS ", "Heading 2", ⟨2⟩⟩ := by decide +kernel
  obtain ⟨-, hpicks, hnames⟩ := overlap_picks_equal
  obtain ⟨text, htext, hvisible⟩ := hnames _ _ _ hread _ List.mem_cons_self _ rfl
  obtain rfl := Json.str.inj htext
  exact ⟨hread, hanswers, hsize,
    ((hpicks .standard host " Costs" hanswers hvisible).2 hsize).styles _ hfirst style⟩

end Execution

end Redline
