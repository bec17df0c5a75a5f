import Redline.Proofs.Anchor.Range
import Redline.Proofs.Document.Replacing
import Redline.Proofs.Execution.Blocks
import Redline.Proofs.Execution.Run

/-!
# Replacing a section

A replacement of a section queues one effect that clears its range, a chain of insertions in front of
what remains of that, and one that deletes the remnant.  When it succeeds, the paragraphs of its
blocks stand in the place of the range.

## Main definitions

* `Block.toParagraphs` — the paragraphs of blocks.
-/

namespace Redline

namespace Document

variable {d : Document} {first : Handle} {others : List Handle}

theorem inside_makeAll (hd : d.WellFormed) {h : Handle} (hl : h ∈ d.body.listed)
    (texts : List String) : (d.makeAll texts).inside h = d.inside h := by
  obtain ⟨p, hp, rfl⟩ := mem_listed_iff.1 hl
  have hp' : p ∈ (d.makeAll texts).paragraphs := by rwa [paragraphs, body_makeAll]
  rw [hd.inside_eq_content hp, (hd.makeAll texts).inside_eq_content hp']

/-- What is made on the way does not change what a replacement does. -/
theorem replacing_makeAll (hd : d.WellFormed) (hl : (first :: others) ⊆ d.body.listed)
    (texts : List String) (news : List Paragraph) :
    (d.makeAll texts).replacing first others news = d.replacing first others news := by
  have hstarts : (d.makeAll texts).startsOf (first :: others) = d.startsOf (first :: others) := by
    rw [startsOf, startsOf]
    congr 1
    exact List.map_congr_left fun h hh => by rw [inside_makeAll hd (hl hh)]
  have hends : (d.makeAll texts).endsOf (first :: others) = d.endsOf (first :: others) := by
    rw [endsOf, endsOf]
    congr 1
    exact List.map_congr_left fun h hh => by rw [inside_makeAll hd (hl hh)]
  funext p
  simp only [replacing, cleared, hstarts, hends, body_makeAll]

end Document

/-! ## The paragraphs of blocks -/

/-- The paragraphs of blocks; `n` is the number of the first handle. -/
def Block.toParagraphs (sheet : Stylesheet) (n : Nat) (blocks : List Block) : List Paragraph :=
  (blocks.zipIdx n).map fun (block, n) => block.toParagraph sheet n

namespace Execution

open Editing

variable {host mid after : Host} {scorer : Heading.Scorer} {anchor : String} {blocks : List Block}
  {items : List (String × List Look)} {news : List Paragraph} {sheet : Stylesheet}

/-- Blocks that have been inserted with all their looks. -/
theorem eq_toParagraphs_of_dressed {n : Nat}
    (hi : List.Forall₂ (fun block item =>
      itemOf blockText (blockLooks ⟨.standard, scorer⟩) block = some item) blocks items)
    (hn : Document.Dressed sheet (Document.insertions sheet n items) news) :
    news = Block.toParagraphs sheet n blocks := by
  induction hi generalizing n news with
  | nil => simpa [Document.Dressed, Document.insertions, Block.toParagraphs] using hn
  | cons hitem _ ih =>
    obtain ⟨hw, looks, hlooks, rfl⟩ := itemOf_eq_some.1 hitem
    obtain ⟨q, rest, hq, hrest, rfl⟩ := List.forall₂_cons_left_iff.1 hn
    rw [giveAll_made hw hlooks hq, ih hrest]
    rfl

theorem clearRange_run (first : Handle) (others : List Handle) :
    (Host.clearRange (first :: others)).runOn host =
      (.ok first, host.queueing host.document [.clearRange first others]) := by
  simp [Host.clearRange, runOn_map, Host.queueing]

/-- What a replacement of a range that is not empty queues. -/
theorem replaceRange_eq_ok {setting : Setting} (hopen : host.isOpen = true) {first : Handle}
    {others : List Handle} :
    (do
      let remnant ← Host.clearRange (first :: others)
      insertBlocks setting (fun text => Host.insertParagraph text remnant .before) blocks
      Host.queue (.delete remnant)).runOn host = (.ok (), mid) ↔
      ∃ items, List.Forall₂ (fun block item =>
          itemOf blockText (blockLooks setting) block = some item) blocks items ∧
        mid = host.queueing (host.document.makeAll (items.map Prod.fst))
          (Document.replacementEffects first others
            (Document.insertions host.document.styles host.document.nextHandle items)) := by
  have hopen' : (host.queueing host.document [.clearRange first others]).isOpen = true := hopen
  simp only [runOn_bind, clearRange_run, insertBlocks_eq_insertEach]
  rw [← runOn_bind, bind_eq_ok]
  simp only [insertEach_eq_ok queueBlockStyle_eq_ok hopen', Host.queueing_queueing,
    Host.document_queueing, Host.runOn_queue]
  constructor
  · rintro ⟨_, _, ⟨items, hitems, rfl⟩, heq⟩
    refine ⟨items, hitems, ?_⟩
    rw [← (Prod.mk.inj heq).2]
    simp [Host.queueing, Document.replacementEffects]
  · rintro ⟨items, hitems, rfl⟩
    refine ⟨(), _, ⟨items, hitems, rfl⟩, ?_⟩
    simp [Host.queueing, Document.replacementEffects]

theorem replaceSection_eq_ok {setting : Setting} (hh : host.Ready)
    (hne : anchor ≠ setting.rules.defaultAnchor) :
    (replaceSection setting anchor blocks).runOn host = (.ok (), mid) ↔
      ∃ first others, host.document.range? setting.rules anchor = some (first :: others) ∧
        ∃ items, List.Forall₂ (fun block item =>
            itemOf blockText (blockLooks setting) block = some item) blocks items ∧
          mid = host.queueing (host.document.makeAll (items.map Prod.fst))
            (Document.replacementEffects first others
              (Document.insertions host.document.styles host.document.nextHandle items)) := by
  rw [replaceSection, if_neg hne, bind_eq_ok]
  simp only [hh.replacedRange hh.wellFormed.nodup_listed hne]
  constructor
  · rintro ⟨range, _, ⟨hrange, rfl⟩, hrest⟩
    cases range with
    | nil => simp [requireRange, runOn_bind] at hrest
    | cons first others =>
      simp only [requireRange, List.isEmpty_cons, Bool.false_eq_true, if_false, pure_bind] at hrest
      exact ⟨first, others, hrange, (replaceRange_eq_ok hh.isOpen).1 hrest⟩
  · rintro ⟨first, others, hrange, hitems⟩
    refine ⟨_, host, ⟨hrange, rfl⟩, ?_⟩
    simp only [requireRange, List.isEmpty_cons, Bool.false_eq_true, if_false, pure_bind]
    exact (replaceRange_eq_ok hh.isOpen).2 hitems

/-- What a replacement that succeeds has done to the document. -/
theorem does_replaceSection {setting : Setting} (hh : host.Ready)
    (hne : anchor ≠ setting.rules.defaultAnchor)
    (h : Does setting (.replaceSection anchor blocks) host after) :
    ∃ first others items news,
      host.document.range? setting.rules anchor = some (first :: others) ∧
      List.Forall₂ (fun block item => itemOf blockText (blockLooks setting) block = some item)
        blocks items ∧
      Document.Dressed host.document.styles
        (Document.insertions host.document.styles host.document.nextHandle items) news ∧
      after.document.body =
        host.document.body.rewrite (host.document.replacing first others news) ∧
      after.document.nextHandle = host.document.nextHandle + items.length ∧
      after.document.styles = host.document.styles ∧ after.Ready := by
  obtain ⟨mid, hperform, hflush⟩ := does_iff.1 h
  obtain ⟨first, others, hrange, items, hitems, rfl⟩ := (replaceSection_eq_ok hh hne).1 hperform
  obtain ⟨d, hbecomes, rfl⟩ := hh.flush_queueing.1 hflush
  have hsub := Document.range?_sublist hh.wellFormed hrange
  have hmade := hh.wellFormed.makeAll (items.map Prod.fst)
  obtain ⟨news, hnews, hbody, hnext⟩ := Document.becomes_replacement hmade
    (hh.wellFormed.nodup_listed.sublist hsub) (by simpa using hsub.subset)
    (Document.awaits_makeAll _ items) hbecomes
  rw [Document.body_makeAll, Document.replacing_makeAll hh.wellFormed hsub.subset] at hbody
  rw [Document.styles_makeAll] at hnews
  refine ⟨first, others, items, news, hrange, hitems, hnews, hbody, by simpa using hnext,
    by simpa using hbecomes.styles, hh.flushed ?_⟩
  exact hmade.becomes hbecomes fun _ he => Document.keeps_replacementEffects he

/-- A replacement of a section under the standard rules puts one paragraph for each block, in order,
in the place of the first paragraph of the range, and takes the others of the range out; the last
paragraph of a cell all of whose own paragraphs go stays without its content.  Every other paragraph
is as it was. -/
theorem replaceSection_replaces_range (hh : host.Ready)
    (hne : anchor ≠ Rules.standard.defaultAnchor)
    (h : Does ⟨.standard, scorer⟩ (.replaceSection anchor blocks) host after) :
    ∃ first others, host.document.range? .standard anchor = some (first :: others) ∧
      after.document.paragraphs = host.document.paragraphs.flatMap
        (host.document.replaced first others
          (Block.toParagraphs host.document.styles host.document.nextHandle blocks)) := by
  obtain ⟨first, others, items, news, hrange, hitems, hnews, hbody, _, _, _⟩ :=
    does_replaceSection hh hne h
  refine ⟨first, others, hrange, ?_⟩
  rw [Document.paragraphs, hbody, Forest.paragraphs_rewrite,
    ← eq_toParagraphs_of_dressed hitems hnews]
  exact List.flatMap_congr fun p hp =>
    Document.paragraphs_replacing hh.wellFormed (Document.range?_sublist hh.wellFormed hrange) news hp

/-- A document with a bookmark from its first paragraph through one behind a table, whose only cell
holds two paragraphs. -/
def bookmarkedDocument : Document where
  body := .cons (.paragraph ⟨0⟩ "Title" none)
      (.cons (.bookmarkStart "part" "7") .nil (.single (.run "one" {}) .nil))
    (.cons .table (.single .row (.single .cell
        (.cons (.paragraph ⟨1⟩ "Normal" none) (.single (.run "two" {}) .nil)
          (.single (.paragraph ⟨2⟩ "Quote" (some .right)) (.single (.run "three" {}) .nil)))))
      (.cons (.paragraph ⟨3⟩ "Normal" none)
          (.cons (.run "four" {}) .nil (.single (.bookmarkEnd "7") .nil))
        (.single (.paragraph ⟨4⟩ "Normal" (some .left)) (.single (.run "five" {}) .nil))))
  nextHandle := 5

theorem replaceSection_replaces_range_across_cell :
    ∃ after, Does ⟨.standard, fun _ _ => .zero⟩
        (.replaceSection "part" [.heading "a\rb" 2 (some { color := some "#f00" }),
          .paragraph "c" (some { alignment := some "center", bold := some true })])
        { document := bookmarkedDocument } after ∧
      after.document.paragraphs =
        [⟨⟨5⟩, "Heading 2", none, .single (.run "a\nb" { color := some "FF0000" }) .nil⟩,
          ⟨⟨6⟩, "Normal", some .center, .single (.run "c" { bold := some true }) .nil⟩,
          ⟨⟨2⟩, "Quote", some .right, .nil⟩,
          ⟨⟨4⟩, "Normal", some .left, .single (.run "five" {}) .nil⟩] := by
  have hready : Host.Ready { document := bookmarkedDocument } := ⟨⟨rfl, rfl⟩, rfl, by decide⟩
  obtain ⟨after, hdoes⟩ : ∃ after, Does ⟨.standard, fun _ _ => .zero⟩
      (.replaceSection "part" [.heading "a\rb" 2 (some { color := some "#f00" }),
        .paragraph "c" (some { alignment := some "center", bold := some true })])
      { document := bookmarkedDocument } after := ⟨_, rfl⟩
  obtain ⟨first, others, hrange, hparagraphs⟩ :=
    replaceSection_replaces_range hready (by decide) hdoes
  obtain ⟨rfl, rfl⟩ := List.cons.inj (Option.some.inj (hrange.symm.trans
    (show _ = some [⟨0⟩, ⟨1⟩, ⟨2⟩, ⟨3⟩] by decide)))
  exact ⟨after, hdoes, hparagraphs.trans (by decide)⟩

end Execution

end Redline
