import Redline.Proofs.Document.Correcting
import Redline.Proofs.Execution.Run

/-!
# Correcting a text

An action that corrects a text fails where the text occurs nowhere.  Elsewhere it makes all matches
give way, which substitutes the text in every paragraph.  A run in which a match gives way is written
anew as a whole, and a return that it keeps becomes a line break; so this is said where no run keeps
one.

## Main definitions

* `Paragraph.Retexted` — a paragraph that has got another run text and kept everything else.
-/

namespace Redline

open Redline.Text

/-- The second paragraph is the first one with another run text. -/
structure Paragraph.Retexted (p q : Paragraph) (text : List Char) : Prop extends p.IsEdit q where
  style : q.style = p.style
  alignment : q.alignment = p.alignment
  runText : q.content.runText = text

namespace Document

variable {d : Document} {search : List Char} {replacement : String}

/-- The corrections of a document substitute the text in every paragraph. -/
theorem becomes_all_corrections (matchCase : Bool) (hd : d.WellFormed)
    (hreturn : d.SparesReturns search matchCase) (hs : search ≠ [])
    (hw : isWritable replacement.toList = true) :
    ∃ r : Paragraph → Paragraph,
      (∀ p ∈ d.paragraphs, p.Retexted (r p)
        (substitute matchCase search (replacement.toList.map readBack) p.content.runText)) ∧
      d.Becomes (d.corrections search matchCase replacement) (d.rewrite fun p => (r p).tree) := by
  refine ⟨_, fun p _ => ?_, becomes_corrections search matchCase hd hreturn hw⟩
  refine ⟨Paragraph.isEdit_corrected hw, rfl, rfl, ?_⟩
  rw [Paragraph.corrected, Forest.runText_corrected, corrected_spans hs]

end Document

namespace Execution

open Editing

variable {setting : Setting} {host : Host} {search replacement : String}

section
variable (ha : host.Answers) {matchCase : Bool}
include ha

theorem correctText_of_search_eq_nil
    (hnone : host.document.search (.literal search.toList matchCase false) = []) :
    (correctText search replacement matchCase).runOn host =
      (.error (.failure (.textMissing search)), host) := by
  simp [correctText, runOn_bind, ha.search, hnone]

theorem correctText_of_search_ne_nil
    (hsome : host.document.search (.literal search.toList matchCase false) ≠ []) :
    (correctText search replacement matchCase).runOn host =
      (.ok (), { host with
        pending := host.pending ++
          host.document.corrections search.toList matchCase replacement }) := by
  have hforM := @Host.runOn_forM_queue host _ (Effect.replace · replacement)
    (host.document.search (.literal search.toList matchCase false)).reverse
  simpa [correctText, runOn_bind, ha.search, hsome, Document.corrections] using hforM

theorem correctText_missing (hs : search.toList ≠ [])
    (h : ∀ p ∈ host.document.paragraphs, ¬ Occurs matchCase search.toList p.content.runText) :
    (correctText search replacement matchCase).runOn host =
      (.error (.failure (.textMissing search)), host) := by
  refine correctText_of_search_eq_nil ha ?_
  rw [Document.search, List.flatMap_eq_nil_iff]
  exact fun p hp => List.map_eq_nil_iff.2 ((spans_literal_eq_nil_iff hs).2 (h p hp))

theorem correctText_found (hs : search.toList ≠ [])
    (h : ∃ p ∈ host.document.paragraphs, Occurs matchCase search.toList p.content.runText) :
    (correctText search replacement matchCase).runOn host =
      (.ok (), { host with
        pending := host.pending ++
          host.document.corrections search.toList matchCase replacement }) := by
  refine correctText_of_search_ne_nil ha fun hnone => ?_
  obtain ⟨p, hp, ho⟩ := h
  rw [Document.search, List.flatMap_eq_nil_iff] at hnone
  exact (spans_literal_eq_nil_iff hs).1 (List.map_eq_nil_iff.1 (hnone p hp)) ho

end

/-- A plan that corrects one text fails and changes nothing where the text occurs nowhere; elsewhere
it succeeds, if the replacement can be written and no run keeps a return when a match gives way in it,
and substitutes the text in every paragraph. -/
theorem correctText_substitutes (setting : Setting) (host : Host) (search replacement : String)
    (matchCase : Option Bool) (hh : host.Ready) (hs : search ≠ "") :
    let plan : EditPlan := ⟨[.correctText search replacement matchCase]⟩
    let result := (run setting plan.typed).runOn host
    let occurs := ∃ p ∈ host.document.paragraphs,
      Occurs (matchCase.getD false) search.toList p.content.runText
    (¬ occurs → (∃ cause added, result.1 = .ok (.failed cause added) ∧
        cause.refusal.kind = .execution) ∧ result.2 = host) ∧
    (occurs → isWritable replacement.toList = true →
      host.document.SparesReturns search.toList (matchCase.getD false) →
      (∃ message, result.1 = .ok (.success message)) ∧
        result.2.document.paragraphs.map
            (fun p => (p.handle, p.style, p.alignment, p.content.runText)) =
          host.document.paragraphs.map fun p => (p.handle, p.style, p.alignment,
            substitute (matchCase.getD false) search.toList (replacement.toList.map readBack)
              p.content.runText)) := by
  intro plan result occurs
  have hs : search.toList ≠ [] := by simpa using hs
  have hplan : plan.typed = [own (.correctText search replacement matchCase)] := rfl
  constructor
  · intro hno
    have hfail : (perform setting .correctText
        (.correctText search replacement matchCase)).runOn host =
          (.error (.failure (.textMissing search)), host) :=
      correctText_missing hh.toAnswers hs fun p hp ho => hno ⟨p, hp, ho⟩
    have haction : (runAction setting (own (.correctText search replacement matchCase))).runOn
        host = _ := runAction_failure hfail
    have hrun := run_single_failed hh.isOpen haction
    simp only [result, hplan, hrun]
    refine ⟨⟨_, _, rfl, rfl⟩, ?_⟩
    rw [← hh.pending]
  · intro hyes hw hreturn
    obtain ⟨r, hr, hbecomes⟩ :=
      Document.becomes_all_corrections (matchCase.getD false) hh.wellFormed hreturn hs hw
    have hqueue : (perform setting .correctText
        (.correctText search replacement matchCase)).runOn host = (.ok (), { host with
          pending :=
            host.document.corrections search.toList (matchCase.getD false) replacement }) := by
      have hfound := @correctText_found host search replacement hh.toAnswers _ hs hyes
      rwa [hh.pending, List.nil_append] at hfound
    have hdoes : Does setting (.correctText search replacement matchCase) host _ :=
      does_of_becomes hqueue (by exact hh.isOpen) hbecomes
    obtain ⟨message, hrun⟩ := run_single_ok hh.isOpen hdoes
    simp only [result, hplan, hrun, Document.paragraphs_rewrite_tree, List.map_map]
    refine ⟨⟨_, rfl⟩, List.map_congr_left fun p hp => ?_⟩
    have hp := hr p hp
    simp [hp.handle, hp.style, hp.alignment, hp.runText]

/-- A document of one paragraph; its text is split into runs, an empty one among them. -/
def splitDocument : Document where
  body := .single (.paragraph ⟨0⟩ "Normal" none)
    (.cons (.run "ab" {}) .nil (.cons (.run "" {}) .nil
      (.cons (.run "cab" {}) .nil (.single (.run "cd" {}) .nil))))
  nextHandle := 1

theorem correctText_substitutes_across_runs :
    let result := (run ⟨.standard, fun _ _ => .zero⟩
      (EditPlan.typed ⟨[.correctText "bc" "-\r" none]⟩)).runOn { document := splitDocument }
    (∃ message, result.1 = .ok (.success message)) ∧
      result.2.document.paragraphs.map
          (fun p => (p.handle, p.style, p.alignment, p.content.runText)) =
        [(⟨0⟩, "Normal", none, "a-\na-\nd".toList)] := by
  intro result
  have hready : Host.Ready { document := splitDocument } := ⟨⟨rfl, rfl⟩, rfl, by decide⟩
  have hoccurs : ∃ p ∈ splitDocument.paragraphs, Occurs false "bc".toList p.content.runText :=
    ⟨_, List.mem_singleton_self _, ['a'], ['b', 'c'], "abcd".toList, rfl,
      .cons (by decide) (.cons (by decide) .nil)⟩
  have h := (correctText_substitutes ⟨.standard, fun _ _ => .zero⟩ { document := splitDocument }
    "bc" "-\r" none hready (by decide)).2 hoccurs (by decide) (by decide)
  refine ⟨h.1, h.2.trans ?_⟩
  have htext : substitute false "bc".toList ("-\r".toList.map readBack) "abcabcd".toList =
      "a-\na-\nd".toList := by
    simp [substitute, beginsWith, Pattern.agrees]
    decide
  exact congrArg (fun text => [((⟨0⟩ : Handle), "Normal", (none : Option Alignment), text)]) htext

/-- Two lines of one run, each with a return in it. -/
def returnDocument : Document where
  body := .single (.paragraph ⟨0⟩ "Normal" none) (.single (.run "a\rb a\rb" {}) .nil)
  nextHandle := 1

/-- When the last match gives way, the return of the first one becomes a line break; then the first
match is no longer what was found. -/
theorem correctText_stopped_by_return :
    let host : Host := { document := returnDocument }
    let result := (run ⟨.standard, fun _ _ => .zero⟩
      (EditPlan.typed ⟨[.correctText "a\rb" "x" none]⟩)).runOn host
    host.Ready ∧
      (∃ p ∈ host.document.paragraphs, Occurs false "a\rb".toList p.content.runText) ∧
      isWritable "x".toList = true ∧
      (∃ added, result.1 = .ok (.failed (.actionFailed "correct_text"
        (.effectFailed "replace 'a\\rb'" (.staleMatch 0 3))) added)) ∧
      result.2.document.paragraphs.map (·.content.runText) = ["a\nb x".toList] := by
  intro host result
  have hready : host.Ready := ⟨⟨rfl, rfl⟩, rfl, by decide⟩
  have hoccurs : Occurs false "a\rb".toList "a\rb a\rb".toList :=
    ⟨[], "a\rb".toList, " a\rb".toList, rfl,
      .cons (by decide) (.cons (by decide) (.cons (by decide) .nil))⟩
  have hqueue := @correctText_found host "a\rb" "x" hready.toAnswers false (by decide)
    ⟨_, List.mem_singleton_self _, hoccurs⟩
  have hcorrections : returnDocument.corrections "a\rb".toList false "x" =
      [.replace ⟨⟨0⟩, 4, 7, "a\rb".toList⟩ "x", .replace ⟨⟨0⟩, 0, 3, "a\rb".toList⟩ "x"] := by
    decide +kernel
  rw [show host.document = returnDocument from rfl, hcorrections] at hqueue
  have haction := @runAction_flush_fault ⟨.standard, fun _ _ => .zero⟩
    (.correctText "a\rb" "x" none) host _ _ _ hqueue rfl
  have hrun : result = _ := run_single_failed rfl haction
  refine ⟨hready, ⟨_, List.mem_singleton_self _, hoccurs⟩, by decide, ⟨_, congrArg Prod.fst hrun⟩,
    ?_⟩
  rw [hrun]
  decide

end Execution

end Redline
