import Redline.Proofs.Document.Exchanging
import Redline.Proofs.Snapshot.Refinement

/-!
# Bookmarks of a paragraph whose text is set

Setting a text moves the start marks of the paragraph in front of it and the end marks behind it, so
the marks of several bookmarks change places.  As long as no paragraph of a text box stands in the
paragraph, each mark opens or closes in the same paragraph as before, and starts and ends keep their
order among their own kind: no bookmark notices.

## Main results

* `Host.setText_keeps_bookmarks` — what setting the text of a paragraph does to a document.
-/

namespace Redline

open Editing Text

variable {host : Host} {p : Paragraph} {text : List Char}

namespace Forest

variable {content : Forest}

theorem sober_of_everyParagraph_eq_nil (hbox : content.everyParagraph = []) : content.Sober := by
  rw [everyParagraph_eq, List.flatMap_eq_nil_iff] at hbox
  intro q hq
  exact absurd (hbox q hq) (List.cons_ne_nil _ _)

end Forest

namespace Effect

variable {content : Forest} (hw : isWritable text = true)
include hw

@[simp] theorem everyParagraph_textContent : (textContent text content).everyParagraph = [] := by
  rw [textContent, if_pos hw, Forest.everyParagraph_append, Forest.everyParagraph_append,
    (Forest.AllMarks.startMarks content).everyParagraph_eq,
    (Forest.AllMarks.endMarks content).everyParagraph_eq]
  rfl

@[simp] theorem starts_textContent : (textContent text content).starts = content.starts := by
  have hrun : (Forest.runOf text).starts = [] := rfl
  rw [textContent, if_pos hw, Forest.starts_append, Forest.starts_append, Forest.starts_startMarks,
    Forest.starts_endMarks, hrun, List.nil_append, List.append_nil]

@[simp] theorem stops_textContent : (textContent text content).stops = content.stops := by
  have hrun : (Forest.runOf text).stops = [] := rfl
  rw [textContent, if_pos hw, Forest.stops_append, Forest.stops_append, Forest.stops_startMarks,
    Forest.stops_endMarks, hrun, List.nil_append, List.nil_append]

theorem sober_textContent : (textContent text content).Sober :=
  Forest.sober_of_everyParagraph_eq_nil (everyParagraph_textContent hw)

variable (hbox : content.everyParagraph = [])
include hbox

/-- The paragraph has the bookmarks that it had. -/
theorem bookmarksIn_textContent (h : Handle) :
    (textContent text content).bookmarksIn (some h) = content.bookmarksIn (some h) := by
  have hold := Forest.sober_of_everyParagraph_eq_nil hbox
  rw [hold.bookmarksIn, (sober_textContent hw).bookmarksIn, starts_textContent hw]

theorem bookmarkEndsIn_textContent (h : Handle) (before : Option Handle) :
    (textContent text content).bookmarkEndsIn (some h) before =
      content.bookmarkEndsIn (some h) before := by
  have hold := Forest.sober_of_everyParagraph_eq_nil hbox
  rw [hold.bookmarkEndsIn, (sober_textContent hw).bookmarkEndsIn, stops_textContent hw]

end Effect

namespace Host

/-- Setting the text of a paragraph in which no other one stands makes that text its text, with line
feeds for line ends, and changes no other paragraph.  All bookmarks stay, in their order, and each
of them keeps its paragraphs. -/
theorem setText_keeps_bookmarks (hopen : host.isOpen = true) (hpending : host.pending = [])
    (hd : host.document.WellFormed) (hp : p ∈ host.document.paragraphs)
    (hbox : p.content.everyParagraph = []) {text : String}
    (hw : isWritable text.toList = true) :
    ∃ (d : Document) (q : Paragraph),
      (do queue (.setText p.handle text); flush : Editing Nat).runOn host =
        (.ok 1, { host with
          document := d
          flushCount := host.flushCount + 1
          lastFlush := [.made (.setText p.handle text)] }) ∧
      q.handle = p.handle ∧ q.text = String.ofList (text.toList.map readBack) ∧
      q.style = p.style ∧ q.alignment = p.alignment ∧
      d.paragraphs = host.document.paragraphs.map
        (fun other => if other.handle = p.handle then q else other) ∧
      d.body.bookmarks = host.document.body.bookmarks ∧
      ∀ b, d.body.bookmarkRange b = host.document.body.bookmarkRange b := by
  let q : Paragraph := { p with content := Effect.textContent text.toList p.content }
  have hbecomes : host.document.Becomes [.setText p.handle text] (host.document.put q) :=
    (Document.becomes_setText hd hp text).2 ⟨hw, rfl⟩
  have hexchanged : host.document.body.Exchanged p q (host.document.put q).body :=
    hd.exchanged_put hp rfl
  have hsame : q.content.everyParagraph = p.content.everyParagraph := by
    rw [hbox, Effect.everyParagraph_textContent hw]
  have hends : (host.document.put q).body.bookmarkEnds = host.document.body.bookmarkEnds :=
    hexchanged.bookmarkEndsIn_eq rfl hsame
      (Effect.bookmarkEndsIn_textContent hw hbox p.handle none) none none
  let queued : Host := { host with pending := [.setText p.handle text] }
  have hqueued : queued.isOpen = true := hopen
  have hflush := (flush_eq_ok hqueued).2 ⟨host.document.put q, hbecomes, rfl, rfl⟩
  refine ⟨host.document.put q, q, ?_, rfl, ?_, rfl, rfl, Document.paragraphs_put q _, ?_,
    fun b => ?_⟩
  · rw [runOn_bind, runOn_queue, hpending]
    exact hflush.trans (by rw [← hpending]; rfl)
  · rw [Paragraph.text, Effect.shownText_textContent hw]
  · exact hexchanged.bookmarksIn_eq rfl hsame (Effect.bookmarksIn_textContent hw hbox p.handle) none
  · refine Forest.bookmarkRange_congr (Document.listed_put _ q) ?_
    rw [Forest.closing, Forest.closing, hends]

/-- Two lines with bookmarks that cross: one around the first line, one from its middle to the other
line, where its end is repeated, one without end in the middle, and one that ends before it
starts. -/
def crossedLines : Document where
  body :=
    .cons (.bookmarkStart "around" "0") .nil
      (.cons (.paragraph ⟨0⟩ "Quote" (some .center))
        (.cons (.run "a" {}) .nil
          (.cons (.bookmarkEnd "3") .nil
          (.cons (.bookmarkStart "across" "1") .nil
          (.cons (.run "b" {}) .nil
          (.cons (.bookmarkStart "open" "2") .nil
          (.single (.run "c" {}) .nil))))))
      (.cons (.bookmarkEnd "0") .nil
      (.single (.paragraph ⟨1⟩ "Normal" none)
        (.cons (.bookmarkStart "back" "3") .nil
          (.cons (.bookmarkEnd "1") .nil
          (.cons (.run "d" {}) .nil
          (.single (.bookmarkEnd "1") .nil)))))))
  nextHandle := 2

/-- The first line gets another text, and the bookmarks are what they were. -/
theorem setText_keeps_bookmarks_crossed :
    ∃ d, (do queue (.setText ⟨0⟩ "x\ry"); flush : Editing Nat).runOn { document := crossedLines } =
        (.ok 1, {
          document := d
          flushCount := 1
          lastFlush := [.made (.setText ⟨0⟩ "x\ry")] }) ∧
      d.paragraphs.map (fun p => (p.text, p.style)) = [("x\ny", "Quote"), ("d", "Normal")] ∧
      d.body.bookmarks = [⟨"around", "0", some ⟨0⟩⟩, ⟨"across", "1", some ⟨0⟩⟩,
        ⟨"open", "2", some ⟨0⟩⟩, ⟨"back", "3", some ⟨1⟩⟩] ∧
      d.body.bookmarks.map d.body.bookmarkRange = [[⟨0⟩], [⟨0⟩, ⟨1⟩], [⟨0⟩], [⟨1⟩]] := by
  obtain ⟨first, second, hlines, hh, hbox, hother⟩ : ∃ first second,
      crossedLines.paragraphs = [first, second] ∧ first.handle = ⟨0⟩ ∧
      first.content.everyParagraph = [] ∧ first.style = "Quote" ∧ second.handle ≠ ⟨0⟩ ∧
      (second.text, second.style) = ("d", "Normal") :=
    ⟨_, _, rfl, rfl, rfl, rfl, by decide, by decide⟩
  obtain ⟨hquote, hapart, hsecond⟩ := hother
  have hmem : first ∈ crossedLines.paragraphs := hlines ▸ List.mem_cons_self
  have hw : isWritable "x\ry".toList = true := by decide
  let host : Host := { document := crossedLines }
  have hopen : host.isOpen = true := rfl
  have hwell : host.document.WellFormed := by decide
  obtain ⟨d, q, hrun, -, htext, hstyle, -, hparagraphs, hbookmarks, hrange⟩ :=
    setText_keeps_bookmarks hopen rfl hwell hmem hbox hw
  rw [hh] at hrun hparagraphs
  refine ⟨d, hrun, ?_, hbookmarks.trans (by decide), ?_⟩
  · have htold : q.text = "x\ny" := htext.trans (by decide)
    have hlines : host.document.paragraphs = [first, second] := hlines
    simp [hparagraphs, hlines, hh, hapart, htold, hstyle, hquote, hsecond]
  · have hsame : d.body.bookmarkRange = crossedLines.body.bookmarkRange := funext hrange
    rw [hbookmarks, hsame]
    decide

end Host

end Redline
