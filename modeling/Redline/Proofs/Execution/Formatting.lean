import Redline.Proofs.Execution.Correct

/-!
# What a correction keeps

A correction rewrites runs in place.  Every element of a paragraph keeps its place and its look; a
run gets the text that the positions of its characters say, and everything that does not stand in a
run that a match touches is left alone.  What stands in a touched run, its text boxes, goes with the
old text of the run.

## Main definitions

* `Paragraph.Reworded` — a paragraph whose runs have got corrected texts, each its own.
-/

namespace Redline

open Redline.Text

/-- The second paragraph is the first one with the matches given way to a new text, each element in
its place and each run with its look. -/
structure Paragraph.Reworded (p q : Paragraph) (spans : List Span) (new : List Char) : Prop where
  handle : q.handle = p.handle
  style : q.style = p.style
  alignment : q.alignment = p.alignment
  /-- There are as many elements as before. -/
  none_iff : ∀ k, q.content.child? k = none ↔ p.content.child? k = none
  /-- Links and marks stay, with what is inside them. -/
  other : ∀ k e inside, p.content.child? k = some (e, inside) →
    (∀ text format, e ≠ .run text format) → q.content.child? k = some (e, inside)
  /-- Runs keep their look, and their characters stay in them; a new text goes where the first
  character of a match was. -/
  run : ∀ k text format inside, p.content.child? k = some (.run text format, inside) →
    ∃ text' inside', q.content.child? k = some (.run text' format, inside') ∧
      text'.toList = Text.corrected spans new (p.content.offset k) text.toList
  /-- A run that shares no character with a match stays as it is, unless it is empty and stands
  within a match. -/
  untouched : ∀ k, p.content.isTouched spans k = false →
    q.content.child? k = p.content.child? k

theorem Paragraph.reworded_corrected (p : Paragraph) {spans : List Span} (new : List Char)
    (hs : ∀ s ∈ spans, s.start < s.stop) : p.Reworded (p.corrected spans new) spans new where
  handle := rfl
  style := rfl
  alignment := rfl
  none_iff _ := Forest.child?_corrected_eq_none
  other _ _ _ hk he := Forest.child?_corrected_other he hk
  run k text format inside hk := by
    refine ⟨_, _, Forest.child?_corrected_run hk, ?_⟩
    rw [String.toList_ofList, Nat.zero_add]
  untouched _ hk := Forest.child?_corrected_of_not_touched hs hk

namespace Execution

open Editing

variable {setting : Setting} {host after : Host} {search replacement : String}
  {matchCase : Option Bool}

/-- A correction that is carried out makes all matches give way, if no run keeps a return when one of
them gives way in it. -/
theorem document_of_does_correctText (hh : host.Ready)
    (hreturn : host.document.SparesReturns search.toList (matchCase.getD false))
    (h : Does setting (.correctText search replacement matchCase) host after) :
    after.document = host.document.rewrite fun p => (p.corrected
      ((Pattern.literal search.toList (matchCase.getD false) false).spans p.content.runText)
        (replacement.toList.map readBack)).tree := by
  obtain ⟨mid, hperform, n, hflush⟩ := does_iff.1 h
  have hwork : (correctText search replacement (matchCase.getD false)).runOn host =
      (.ok (), mid) := hperform
  by_cases hfound : host.document.search
      (.literal search.toList (matchCase.getD false) false) = []
  · rw [correctText_of_search_eq_nil hh.toAnswers hfound] at hwork
    cases (Prod.mk.inj hwork).1
  rw [correctText_of_search_ne_nil hh.toAnswers hfound, hh.pending, List.nil_append] at hwork
  obtain ⟨-, rfl⟩ := Prod.mk.inj hwork
  obtain ⟨d, hbecomes, -, rfl⟩ := (Host.flush_eq_ok (by exact hh.isOpen)).1 hflush
  have hsome : host.document.corrections search.toList (matchCase.getD false) replacement ≠ [] := by
    simpa [Document.corrections] using hfound
  have hw := Document.isWritable_of_becomes_corrections hh.wellFormed hsome hbecomes
  have hall := Document.becomes_corrections search.toList (matchCase.getD false) hh.wellFormed
    hreturn hw
  rw [Document.becomes_iff] at hbecomes hall
  exact congrArg Progress.document (hbecomes.symm.trans hall)

/-- A correction that succeeds, and by which no run keeps a return when a match gives way in it,
changes the texts of runs and what stands in runs that it touches, and nothing else. -/
theorem correctText_keeps_runs (setting : Setting) (host after : Host)
    (search replacement : String) (matchCase : Option Bool) (hh : host.Ready)
    (hreturn : host.document.SparesReturns search.toList (matchCase.getD false))
    (h : Does setting (.correctText search replacement matchCase) host after) :
    ∃ r : Paragraph → Paragraph,
      after.document = host.document.rewrite (fun p => (r p).tree) ∧
      ∀ p ∈ host.document.paragraphs, p.Reworded (r p)
        ((Pattern.literal search.toList (matchCase.getD false) false).spans p.content.runText)
        (replacement.toList.map readBack) :=
  ⟨_, document_of_does_correctText hh hreturn h,
    fun p _ => p.reworded_corrected _ (inOrder_spans _ _ _).filled⟩

/-- A document of one paragraph.  Its text is split into runs of different looks, one of them empty,
with a bookmark and a link between them and text boxes in three of them. -/
def formattedDocument : Document where
  body := .single (.paragraph ⟨0⟩ "Normal" none)
    (.cons (.run "abcab" { bold := some true }) .nil
      (.cons (.bookmarkStart "bm" "0") .nil
      (.cons (.run "" {}) (.single .box .nil)
      (.cons .link (.single (.run "bc" {}) .nil)
      (.cons (.run "cd" { color := some "FF0000" }) (.single .box .nil)
      (.cons (.bookmarkEnd "0") .nil
      (.single (.run "e" {}) (.single .box .nil))))))))
  nextHandle := 1

theorem correctText_keeps_runs_formatted :
    ∃ after, Does ⟨.standard, fun _ _ => .zero⟩ (.correctText "bc" "-+" none)
        { document := formattedDocument } after ∧
      ∃ r : Paragraph → Paragraph,
        after.document = formattedDocument.rewrite (fun p => (r p).tree) ∧
        ∀ p ∈ formattedDocument.paragraphs, p.Reworded (r p)
          ((Pattern.literal "bc".toList false false).spans p.content.runText)
          ("-+".toList.map readBack) := by
  have hready : Host.Ready { document := formattedDocument } := ⟨⟨rfl, rfl⟩, rfl, by decide⟩
  obtain ⟨after, hdoes⟩ : ∃ after, Does ⟨.standard, fun _ _ => .zero⟩
    (.correctText "bc" "-+" none) { document := formattedDocument } after := ⟨_, rfl⟩
  exact ⟨after, hdoes, correctText_keeps_runs _ _ _ _ _ none hready (by decide) hdoes⟩

/-- A run with a return outside the match. -/
def returnLine : Document where
  body := .single (.paragraph ⟨0⟩ "Normal" none) (.single (.run "a\rb" {}) .nil)
  nextHandle := 1

/-- The return belongs to no match, and afterwards a line break stands in its place. -/
theorem correctText_breaks_line :
    let host : Host := { document := returnLine }
    host.Ready ∧ ∃ after, Does ⟨.standard, fun _ _ => .zero⟩ (.correctText "b" "c" none) host after ∧
      (∃ p, host.document.paragraphs = [p] ∧ p.content.runText = "a\rb".toList ∧
        (Pattern.literal "b".toList false false).spans p.content.runText = [⟨2, 3⟩]) ∧
      ∃ q, after.document.paragraphs = [q] ∧ q.content.runText = "a\nc".toList :=
  ⟨⟨⟨rfl, rfl⟩, rfl, by decide⟩, _, rfl, ⟨_, rfl, by decide, by decide⟩, _, rfl, by decide⟩

/-- One match lies in the first run; the other one ends behind the empty run and the link. -/
example :
    (formattedDocument.paragraphs.map fun p => (p.corrected
      ((Pattern.literal "bc".toList false false).spans p.content.runText) "-+".toList).content) =
      [.cons (.run "a-+a-+" { bold := some true }) .nil
        (.cons (.bookmarkStart "bm" "0") .nil
        (.cons (.run "" {}) .nil
        (.cons .link (.single (.run "bc" {}) .nil)
        (.cons (.run "d" { color := some "FF0000" }) .nil
        (.cons (.bookmarkEnd "0") .nil
        (.single (.run "e" {}) (.single .box .nil)))))))] := by decide

/-- A correction that succeeds, and by which no run keeps a return when a match gives way in it,
removes no characters but those of matches, and a text box stays where it was unless it stands in a
run that a match touches. -/
theorem correctText_keeps_boxes (setting : Setting) (host after : Host)
    (search replacement : String) (matchCase : Option Bool) (hh : host.Ready)
    (hreturn : host.document.SparesReturns search.toList (matchCase.getD false))
    (h : Does setting (.correctText search replacement matchCase) host after) :
    ∃ r : Paragraph → Paragraph,
      after.document = host.document.rewrite (fun p => (r p).tree) ∧
      ∀ p ∈ host.document.paragraphs,
        let spans :=
          (Pattern.literal search.toList (matchCase.getD false) false).spans p.content.runText
        (r p).handle = p.handle ∧
        (r p).content.runText =
          Text.corrected spans (replacement.toList.map readBack) 0 p.content.runText ∧
        ∀ k path inside, p.content.at? (k :: path) = some (.box, inside) →
          ((r p).content.at? (k :: path) = some (.box, inside) ↔
            p.content.isTouched spans k = false) := by
  refine ⟨_, document_of_does_correctText hh hreturn h, fun p _ => ?_⟩
  intro spans
  refine ⟨rfl, Forest.runText_corrected _, fun k path inside hbox =>
    ⟨fun hstays => ?_, fun hk => ?_⟩⟩
  · by_contra htouched
    rw [Bool.not_eq_false] at htouched
    have hpath : path ≠ [] := by
      rintro rfl
      have hchild : p.content.child? k = some (.box, inside) := by
        simpa [Forest.at?] using hbox
      rw [Forest.isTouched_of_child? hchild (by simp)] at htouched
      cases htouched
    rw [Paragraph.corrected, Forest.at?_corrected_of_touched hpath htouched] at hstays
    cases hstays
  · exact (Forest.at?_corrected_of_not_touched path (inOrder_spans _ _ _).filled hk).trans hbox

theorem correctText_keeps_boxes_formatted :
    ∃ after, Does ⟨.standard, fun _ _ => .zero⟩ (.correctText "bc" "-+" none)
        { document := formattedDocument } after ∧
      ∃ r : Paragraph → Paragraph,
        after.document = formattedDocument.rewrite (fun p => (r p).tree) ∧
        ∀ p ∈ formattedDocument.paragraphs,
          (r p).content.at? [6, 0] = some (.box, .nil) ∧
          (r p).content.at? [4, 0] ≠ some (.box, .nil) := by
  have hready : Host.Ready { document := formattedDocument } := ⟨⟨rfl, rfl⟩, rfl, by decide⟩
  obtain ⟨after, hdoes⟩ : ∃ after, Does ⟨.standard, fun _ _ => .zero⟩
    (.correctText "bc" "-+" none) { document := formattedDocument } after := ⟨_, rfl⟩
  obtain ⟨r, hafter, hr⟩ := correctText_keeps_boxes _ _ _ _ _ none hready (by decide) hdoes
  refine ⟨after, hdoes, r, hafter, fun p hp => ?_⟩
  obtain ⟨-, -, hboxes⟩ := hr p hp
  obtain rfl := List.mem_singleton.1 hp
  refine ⟨(hboxes 6 [0] .nil (by decide)).2 (by decide), fun hstays => ?_⟩
  exact absurd ((hboxes 4 [0] .nil (by decide)).1 hstays) (by decide)

/-- A text box in the run of a match. -/
def boxedRun : Document where
  body := .single (.paragraph ⟨0⟩ "Normal" none) (.single (.run "abc" {})
    (.single .box (.single (.paragraph ⟨1⟩ "Normal" none) (.single (.run "boxed" {}) .nil))))
  nextHandle := 2

/-- The text box goes although none of its characters belongs to the match. -/
theorem correctText_loses_box :
    let host : Host := { document := boxedRun }
    let box := Forest.single (.paragraph ⟨1⟩ "Normal" none) (.single (.run "boxed" {}) .nil)
    host.Ready ∧ ∃ after, Does ⟨.standard, fun _ _ => .zero⟩ (.correctText "b" "x" none) host after ∧
      ∃ before now, host.document.paragraphs = [before] ∧
        before.content.at? [0, 0] = some (.box, box) ∧
        after.document.paragraphs = [now] ∧ now.content.runText = "axc".toList ∧
        now.content.at? [0, 0] = none :=
  ⟨⟨⟨rfl, rfl⟩, rfl, by decide⟩, _, rfl, _, _, rfl, by decide, rfl, by decide, by decide⟩

end Execution

end Redline
