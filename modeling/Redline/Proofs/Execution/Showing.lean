import Redline.Proofs.Execution.Correct
import Redline.Proofs.Execution.Stopping
import Redline.Proofs.Forest.Showing

/-!
# What a search finds is shown

A search reads run texts, so that the places it finds are places of runs.  What it finds is part of
the text that a paragraph shows, unless a link with a text stands within the match.  So a correction
leaves a paragraph alone that does not show the text, whether it succeeds or not.
-/

namespace Redline

open Redline.Text

theorem Document.mem_search {d : Document} {pattern : Pattern} {m : Match} :
    m ∈ d.search pattern ↔ ∃ p ∈ d.paragraphs, ∃ s ∈ pattern.spans p.content.runText,
      m = ⟨p.handle, s.start, s.stop,
        (p.content.runText.drop s.start).take (s.stop - s.start)⟩ := by
  simp [search, eq_comm]

namespace Execution

open Editing

variable {setting : Setting} {host : Host} {search replacement : String} {matchCase : Option Bool}

/-- However a correction ends, paragraphs without a match stay as they are. -/
theorem document_runAction_correctText (hh : host.Ready) :
    ∃ r : Paragraph → Paragraph,
      ((runAction setting (own (.correctText search replacement matchCase))).runOn host).2.document =
        host.document.rewrite (fun p => (r p).tree) ∧
      ∀ p ∈ host.document.paragraphs, p.handle = (r p).handle ∧
        ((Pattern.literal search.toList (matchCase.getD false) false).spans p.content.runText = [] →
          r p = p) := by
  obtain ⟨word, hrun⟩ := runOn_runAction setting (own (.correctText search replacement matchCase))
  rw [hrun, preparation_own]
  change ∃ r : Paragraph → Paragraph, ((correctText search replacement
    (matchCase.getD false)).thenFlush.runOn host).2.document = _ ∧ _
  by_cases hfound : host.document.search
      (.literal search.toList (matchCase.getD false) false) = []
  · refine ⟨id, ?_, fun p _ => ⟨rfl, fun _ => rfl⟩⟩
    rw [thenFlush_of_error (correctText_of_search_eq_nil hh.toAnswers hfound)]
    simp [Document.rewrite, Forest.rewrite_self]
  · have hstep : Host.step host.isOpen = Effect.apply := by
      rw [hh.isOpen]
      rfl
    rw [thenFlush_leaves (correctText_of_search_ne_nil hh.toAnswers hfound), Host.flush_leaves]
    simp only [hh.pending, List.nil_append, hstep]
    exact Document.applyAll_corrections search.toList (matchCase.getD false) replacement
      hh.wellFormed

/-- A search for a text as it stands finds the text in run texts, and what it finds is part of what
the paragraph shows, unless a link with a text stands within the match. -/
theorem search_finds_shown {d : Document} {search : List Char} {matchCase wholeWord : Bool} {m : Match}
    (hm : m ∈ d.search (.literal search matchCase wholeWord)) :
    ∃ p ∈ d.paragraphs, p.handle = m.paragraph ∧ Agree matchCase search m.text ∧
      m.text = (p.content.runText.drop m.start).take (m.stop - m.start) ∧
      (¬ p.content.LinkWithin m.start m.stop → m.text <:+: p.content.shownText) := by
  obtain ⟨p, hp, s, hs, rfl⟩ := Document.mem_search.1 hm
  obtain ⟨-, -, hagree⟩ := agree_of_mem_spans hs
  exact ⟨p, hp, rfl, hagree, rfl, Forest.stretch_infix_shownText⟩

/-- What a search for a text as it stands finds is part of what the paragraph shows, unless a link
with a text stands within the match.  So a correction, however it ends, leaves a paragraph alone that
does not show the text and has no such match. -/
theorem correctText_leaves_unshown (setting : Setting) (host : Host) (search replacement : String)
    (matchCase : Option Bool) (wholeWord : Bool) (hh : host.Ready) :
    let pattern := Pattern.literal search.toList (matchCase.getD false)
    let result := (runAction setting
      (own (.correctText search replacement matchCase))).runOn host
    (∃ found, (Host.search (pattern wholeWord)).runOn host = (.ok found, host) ∧
      ∀ m ∈ found, ∃ p ∈ host.document.paragraphs, p.handle = m.paragraph ∧
        Agree (matchCase.getD false) search.toList m.text ∧
        m.text = (p.content.runText.drop m.start).take (m.stop - m.start) ∧
        (¬ p.content.LinkWithin m.start m.stop → m.text <:+: p.content.shownText)) ∧
    ∃ r : Paragraph → Paragraph,
      result.2.document = host.document.rewrite (fun p => (r p).tree) ∧
      ∀ p ∈ host.document.paragraphs, p.handle = (r p).handle ∧
        (¬ Occurs (matchCase.getD false) search.toList p.content.shownText →
          (∀ m ∈ host.document.search (pattern false), m.paragraph = p.handle →
            ¬ p.content.LinkWithin m.start m.stop) →
          r p = p) := by
  intro pattern result
  refine ⟨⟨_, hh.toAnswers.search _, fun m hm => search_finds_shown hm⟩, ?_⟩
  obtain ⟨r, hafter, hr⟩ := document_runAction_correctText hh
  refine ⟨r, hafter, fun p hp => ⟨(hr p hp).1, fun hshown hlinks => (hr p hp).2 ?_⟩⟩
  rw [List.eq_nil_iff_forall_not_mem]
  intro s hs
  have hm := Document.mem_search.2 ⟨p, hp, s, hs, rfl⟩
  obtain ⟨-, -, hagree⟩ := agree_of_mem_spans hs
  have hinfix := Forest.stretch_infix_shownText (hlinks _ hm rfl)
  obtain ⟨before, after, hsplit⟩ := hinfix
  exact hshown ⟨before, _, after, by rw [← hsplit, List.append_assoc], hagree⟩

/-- The first paragraph shows a text in a link; the second one has it in its runs, beside a link. -/
def linkedParagraphs : List Paragraph :=
  [⟨⟨0⟩, "Normal", none, .cons (.run "a" {}) .nil
      (.cons .link (.single (.run "b-c" {}) .nil) (.single (.run "d" {}) .nil))⟩,
    ⟨⟨1⟩, "Normal", none, .cons (.run "ab" {}) .nil
      (.cons (.run "c" {}) .nil (.single .link (.single (.run "d" {}) .nil)))⟩]

theorem correctText_leaves_unshown_beside_link :
    let d : Document :=
      { body := Forest.join (linkedParagraphs.map Paragraph.tree), nextHandle := 2 }
    ∃ r : Paragraph → Paragraph,
      ((runAction ⟨.standard, fun _ _ => .zero⟩ (own (.correctText "bc" "\x00" none))).runOn
        { document := d }).2.document = d.rewrite (fun p => (r p).tree) ∧
      ∀ p ∈ d.paragraphs, p.handle = ⟨0⟩ → r p = p := by
  intro d
  have hready : Host.Ready { document := d } := ⟨⟨rfl, rfl⟩, rfl, by decide⟩
  obtain ⟨-, r, hafter, hr⟩ := correctText_leaves_unshown ⟨.standard, fun _ _ => .zero⟩
    { document := d } "bc" "\x00" none false hready
  refine ⟨r, hafter, fun p hp hzero => (hr p hp).2 ?_ ?_⟩
  · have hshown : ∀ q ∈ d.paragraphs, q.handle = ⟨0⟩ → q.content.shownText = "ab-cd".toList := by
      decide
    rw [hshown p hp hzero]
    exact (spans_literal_eq_nil_iff (by decide)).1 (by decide)
  · have hnone : ∀ m ∈ d.search (.literal "bc".toList false false), m.paragraph ≠ ⟨0⟩ := by decide
    exact fun m hm he => absurd (he.trans hzero) (hnone m hm)

/-- A link with a text between two runs. -/
def linkedLine : Document where
  body := .single (.paragraph ⟨0⟩ "Normal" none) (.cons (.run "ab" {}) .nil
    (.cons .link (.single (.run "X" {}) .nil) (.single (.run "cd" {}) .nil)))
  nextHandle := 1

/-- A match reaches across a link: what is found is not shown, and the paragraph is corrected. -/
theorem search_finds_across_link :
    let host : Host := { document := linkedLine }
    host.Ready ∧
      (Host.search (.literal "bc".toList false false)).runOn host =
        (.ok [⟨⟨0⟩, 1, 3, "bc".toList⟩], host) ∧
      ∃ p after q, linkedLine.paragraphs = [p] ∧ p.content.shownText = "abXcd".toList ∧
        ¬ "bc".toList <:+: p.content.shownText ∧
        ¬ Occurs false "bc".toList p.content.shownText ∧
        Does ⟨.standard, fun _ _ => .zero⟩ (.correctText "bc" "Z" none) host after ∧
        after.document.paragraphs = [q] ∧ q.content.shownText = "aZXd".toList := by
  intro host
  have hready : host.Ready := ⟨⟨rfl, rfl⟩, rfl, by decide⟩
  refine ⟨hready, hready.toAnswers.search _, _, _, _, rfl, by decide, by decide, ?_, rfl, rfl,
    by decide⟩
  exact (spans_literal_eq_nil_iff (by decide)).1 (by decide)

end Execution

end Redline
