import Redline.Proofs.Document.Accepting
import Redline.Proofs.Document.Regaining
import Redline.Proofs.Execution.Bookmarks
import Redline.Proofs.Landing

/-!
# Replacing a section again and again

An anchor that names a content control or a bookmark stands for the new paragraphs once its section
has been replaced.  So the next replacement takes these, and of several replacements only the last
one shows.

## Main definitions

* `Execution.HasPut` — blocks that stand in the place of a range.
* `Paragraph.look` — a paragraph but for its handle.
-/

namespace Redline

open Editing

/-- What a paragraph is, but for its handle. -/
def Paragraph.look (p : Paragraph) : String × Option Alignment × Forest :=
  (p.style, p.alignment, p.content)

namespace Block

variable {sheet : Stylesheet} {n : Nat} {blocks : List Block}

/-- The paragraphs of blocks differ in their handles alone, whatever the first of these is. -/
theorem map_look_toParagraphs (sheet : Stylesheet) (n k : Nat) (blocks : List Block) :
    (toParagraphs sheet n blocks).map (·.look) = (toParagraphs sheet k blocks).map (·.look) := by
  induction blocks generalizing n k with
  | nil => rfl
  | cons block rest ih =>
    exact congrArg (List.cons (block.toParagraph sheet 0).look) (ih (n + 1) (k + 1))

theorem le_of_mem_toParagraphs {q : Paragraph} (hq : q ∈ toParagraphs sheet n blocks) :
    n ≤ q.handle.number := by
  induction blocks generalizing n with
  | nil => cases hq
  | cons block rest ih =>
    rcases List.mem_cons.1 hq with rfl | hq
    · exact le_rfl
    · exact (Nat.le_succ n).trans (ih hq)

theorem toParagraphs_ne_nil (hb : blocks ≠ []) : toParagraphs sheet n blocks ≠ [] := by
  cases blocks with
  | nil => exact absurd rfl hb
  | cons block rest => exact List.cons_ne_nil _ _

end Block

namespace Execution

variable {host mid after : Host} {start : Document} {scorer : Heading.Scorer} {anchor : String}
  {blocks next : List Block} {strategy : Strategy} {first : Handle} {others : List Handle}
  {items : List (String × List Look)} {n k : Nat} {sheet : Stylesheet}

/-! ## One replacement -/

/-- Looks that the paragraphs of texts have got can be given to others as well. -/
theorem known_of_dressed {news : List Paragraph}
    (h : Document.Dressed sheet (Document.insertions sheet n items) news) :
    ∀ i ∈ Document.insertions sheet k items, ∀ look ∈ i.looks, look.Known sheet := by
  induction items generalizing n k news with
  | nil => simp [Document.insertions]
  | cons item rest ih =>
    obtain ⟨q, others, hq, hrest, rfl⟩ := List.forall₂_cons_left_iff.1 h
    exact List.forall_mem_cons.2 ⟨Look.known_of_giveAll hq, ih hrest⟩

/-- The paragraphs of blocks, with handles from `n` on, have taken the place of a range. -/
structure HasPut (start : Document) (first : Handle) (others : List Handle) (n : Nat)
    (blocks : List Block) (host : Host) : Prop where
  ready : host.Ready
  nextHandle : start.nextHandle ≤ host.document.nextHandle
  styles : host.document.styles = start.styles
  supplants : start.Supplants host.document first others
    (Block.toParagraphs start.styles n blocks)

theorem hasPut_of_does (hh : host.Ready) (hne : anchor ≠ Rules.standard.defaultAnchor)
    (h : Does ⟨.standard, scorer⟩ (.replaceSection anchor blocks) host after) :
    ∃ first others, host.document.range? .standard anchor = some (first :: others) ∧
      HasPut host.document first others host.document.nextHandle blocks after := by
  obtain ⟨first, others, items, news, hrange, hitems, hnews, hbody, hnext, hstyles, hready⟩ :=
    does_replaceSection hh hne h
  obtain rfl := eq_toParagraphs_of_dressed hitems hnews
  refine ⟨first, others, hrange, hready, by omega, hstyles, hh.wellFormed, hready.wellFormed,
    Document.range?_sublist hh.wellFormed hrange, Document.unmarked_of_dressed hnews,
    fun q hq => ?_, hbody⟩
  exact notMem_listed_of_le hh.wellFormed (Block.le_of_mem_toParagraphs hq)

/-- What has been carried out on one host can be carried out on another one of the same styles where
the anchor has a range. -/
theorem does_of_does (hh : host.Ready) (hm : mid.Ready)
    (hstyles : mid.document.styles = host.document.styles)
    (hne : anchor ≠ Rules.standard.defaultAnchor)
    (hrange : host.document.range? .standard anchor = some (first :: others))
    (h : Does ⟨.standard, scorer⟩ (.replaceSection anchor blocks) mid after) :
    ∃ alone, Does ⟨.standard, scorer⟩ (.replaceSection anchor blocks) host alone := by
  obtain ⟨_, _, items, news, _, hitems, hnews, _⟩ := does_replaceSection hm hne h
  rw [hstyles] at hnews
  have hsub := Document.range?_sublist hh.wellFormed hrange
  obtain ⟨d, hbecomes, _⟩ := Document.accepts_replacement
    (hh.wellFormed.makeAll (items.map Prod.fst)) (by simpa using known_of_dressed hnews)
    (hh.wellFormed.nodup_listed.sublist hsub) (by simpa using hsub.subset)
    (Document.awaits_makeAll host.document items)
  have hqueue : (replaceSection ⟨.standard, scorer⟩ anchor blocks).runOn host = (.ok (), _) :=
    (replaceSection_eq_ok hh hne).2 ⟨first, others, hrange, items, hitems, rfl⟩
  obtain ⟨n, hflush⟩ := hh.flush_queueing.2 ⟨d, hbecomes, rfl⟩
  exact ⟨_, does_iff.2 ⟨_, hqueue, n, hflush⟩⟩

/-- Documents in which the same blocks have taken the place of one range differ in handles alone. -/
theorem HasPut.map_look_eq (hp : HasPut start first others n blocks host)
    (hp' : HasPut start first others k blocks after) :
    host.document.paragraphs.map (·.look) = after.document.paragraphs.map (·.look) := by
  have hs := hp.supplants
  simp only [Document.paragraphs, hs.body, hp'.supplants.body, Forest.paragraphs_rewrite,
    List.map_flatMap]
  refine List.flatMap_congr fun p hp => ?_
  rw [Document.paragraphs_replacing hs.wellFormed hs.sublist _ hp,
    Document.paragraphs_replacing hs.wellFormed hs.sublist _ hp]
  have hlooks := Block.map_look_toParagraphs start.styles n k blocks
  have hnil : Block.toParagraphs start.styles n blocks = [] ↔
      Block.toParagraphs start.styles k blocks = [] := by
    rw [← List.map_eq_nil_iff, hlooks, List.map_eq_nil_iff]
  simp only [Document.replaced, hnil]
  split
  · rw [List.map_append, List.map_append, hlooks]
  · rfl

/-! ## One replacement after the other -/

section
variable (hne : anchor ≠ Rules.standard.defaultAnchor)
  (hns : anchor ≠ Rules.standard.selectionAnchor) (hnames : start.Names anchor strategy)
  (hr : start.resolution? .standard anchor = some ⟨strategy, first :: others, none⟩)
include hnames hr

theorem HasPut.resolution? (hp : HasPut start first others n blocks host)
    (hb : strategy = .bookmark → blocks ≠ []) :
    host.document.resolution? .standard anchor =
      some ⟨strategy, (Block.toParagraphs start.styles n blocks).map (·.handle), none⟩ :=
  hnames.resolution?_of_supplants hr hp.supplants fun h => Block.toParagraphs_ne_nil (hb h)

include hne hns

/-- Blocks that replace those in the place of a range stand in its place themselves. -/
theorem HasPut.replaces (hp : HasPut start first others n blocks host)
    (hb : strategy = .bookmark → blocks ≠ []) (hb' : strategy = .bookmark → next ≠ [])
    (h : Does ⟨.standard, scorer⟩ (.replaceSection anchor next) host after) :
    HasPut start first others host.document.nextHandle next after := by
  obtain ⟨m, ms, hrange, hput⟩ := hasPut_of_does hp.ready hne h
  have hfound := hp.resolution? hnames hr hb
  have hhandles : (Block.toParagraphs start.styles n blocks).map (·.handle) = m :: ms :=
    Option.some.inj ((Document.range?_of_resolution? hns hfound).symm.trans hrange)
  rw [hhandles] at hfound
  have hs := hp.supplants
  have hnext : strategy = .bookmark →
      Block.toParagraphs start.styles host.document.nextHandle next ≠ [] :=
    fun h => Block.toParagraphs_ne_nil (hb' h)
  have hafter := hput.supplants
  rw [hp.styles] at hafter
  refine ⟨hput.ready, hp.nextHandle.trans hput.nextHandle, hput.styles.trans hp.styles,
    hs.wellFormed, hafter.wellFormed', hs.sublist, hafter.unmarked, fun q hq => ?_, ?_⟩
  · exact notMem_listed_of_le hs.wellFormed
      (hp.nextHandle.trans (Block.le_of_mem_toParagraphs hq))
  · rw [hafter.body]
    exact hs.body_replacing hhandles
      (Document.givesWay_of_resolution? hs.wellFormed hr hs.sublist hnext)
      (Document.givesWay_of_resolution? hp.ready.wellFormed hfound hafter.sublist hnext)

/-- Whatever has replaced the blocks that stand in the place of a range, stands there itself. -/
theorem HasPut.run {rows : List (List Block)} (hp : HasPut start first others n blocks host)
    (hb : strategy = .bookmark → blocks ≠ [])
    (hrows : strategy = .bookmark → ∀ row ∈ rows, row ≠ [])
    (hruns : OneByOne (fun row => Does ⟨.standard, scorer⟩ (.replaceSection anchor row))
      rows host mid) :
    ∃ n blocks, HasPut start first others n blocks mid ∧ (strategy = .bookmark → blocks ≠ []) := by
  induction hruns generalizing n blocks with
  | nil host => exact ⟨n, blocks, hp, hb⟩
  | @cons row rest host mid after hstep _ ih =>
    have hrow : strategy = .bookmark → row ≠ [] := fun h => hrows h row List.mem_cons_self
    exact ih (hp.replaces hne hns hnames hr hb hrow hstep) hrow fun h other hother =>
      hrows h other (List.mem_cons_of_mem _ hother)

end

/-- Of replacements of an anchor, one after the other, the last one has put its blocks in the place
of the range that the anchor had at first. -/
theorem hasPut_of_run (hh : host.Ready) (hne : anchor ≠ Rules.standard.defaultAnchor)
    (hns : anchor ≠ Rules.standard.selectionAnchor) (hnames : host.document.Names anchor strategy)
    {rows : List (List Block)} (hrows : strategy = .bookmark → ∀ row ∈ blocks :: rows, row ≠ [])
    (hruns : OneByOne (fun row => Does ⟨.standard, scorer⟩ (.replaceSection anchor row))
      rows host mid)
    (h : Does ⟨.standard, scorer⟩ (.replaceSection anchor blocks) mid after) :
    mid.Ready ∧ host.document.nextHandle ≤ mid.document.nextHandle ∧
      mid.document.styles = host.document.styles ∧ ∃ first others,
      host.document.resolution? .standard anchor = some ⟨strategy, first :: others, none⟩ ∧
      HasPut host.document first others mid.document.nextHandle blocks after := by
  obtain ⟨range, hr⟩ := hnames.resolution? .standard
  have hrange := Document.range?_of_resolution? hns hr
  obtain _ | ⟨hstep, hrest⟩ := hruns
  · obtain ⟨first, others, hfirst, hput⟩ := hasPut_of_does hh hne h
    obtain rfl := Option.some.inj (hrange.symm.trans hfirst)
    exact ⟨hh, le_rfl, rfl, first, others, hr, hput⟩
  · obtain ⟨first, others, hfirst, hput⟩ := hasPut_of_does hh hne hstep
    obtain rfl := Option.some.inj (hrange.symm.trans hfirst)
    obtain ⟨n, last, hmid, hlast⟩ := hput.run hne hns hnames hr
      (fun h => hrows h _ (by simp)) (fun h row hrow => hrows h row (by simp [hrow])) hrest
    exact ⟨hmid.ready, hmid.nextHandle, hmid.styles, first, others, hr,
      hmid.replaces hne hns hnames hr hlast (fun h => hrows h _ List.mem_cons_self) h⟩

/-- A content control or a bookmark that an anchor names is found by the same strategy after any
number of replacements of the anchor, but for the default anchor and that of the selection.  It then
stands for exactly the paragraphs of the last one, and the document reads as if only that one had
been carried out.  For a bookmark the replacements must put something in. -/
theorem replaced_anchor_regained (hh : host.Ready) (hne : anchor ≠ Rules.standard.defaultAnchor)
    (hns : anchor ≠ Rules.standard.selectionAnchor)
    (hnames : host.document.Names anchor strategy) :
    (∃ range, (Anchor.resolve .standard anchor).runOn host =
      (.ok ⟨strategy, range, none⟩, host)) ∧
    ∀ rows mid blocks after, (strategy = .bookmark → ∀ row ∈ blocks :: rows, row ≠ []) →
      OneByOne (fun row => Does ⟨.standard, scorer⟩ (.replaceSection anchor row)) rows host mid →
      Does ⟨.standard, scorer⟩ (.replaceSection anchor blocks) mid after →
      let news := Block.toParagraphs host.document.styles mid.document.nextHandle blocks
      after.document.paragraphs.filter
          (fun q => decide (mid.document.nextHandle ≤ q.handle.number)) = news ∧
      (Anchor.resolve .standard anchor).runOn after =
        (.ok ⟨strategy, news.map (·.handle), none⟩, after) ∧
      ∃ alone, Does ⟨.standard, scorer⟩ (.replaceSection anchor blocks) host alone ∧
        alone.document.paragraphs.map (·.look) = after.document.paragraphs.map (·.look) := by
  constructor
  · obtain ⟨range, hr⟩ := hnames.resolution? .standard
    exact ⟨range, (hh.toAnswers.resolve hne).2 ⟨hr, rfl⟩⟩
  intro rows mid blocks after hrows hruns h news
  have hblocks : strategy = .bookmark → blocks ≠ [] := fun hb => hrows hb _ List.mem_cons_self
  obtain ⟨hmid, hle, hstyles, first, others, hr, hput⟩ :=
    hasPut_of_run hh hne hns hnames hrows hruns h
  refine ⟨hput.supplants.filter_paragraphs hle fun q hq => Block.le_of_mem_toParagraphs hq,
    (hput.ready.toAnswers.resolve hne).2 ⟨hput.resolution? hnames hr hblocks, rfl⟩, ?_⟩
  have hrange := Document.range?_of_resolution? hns hr
  obtain ⟨alone, halone⟩ := does_of_does hh hmid hstyles hne hrange h
  obtain ⟨first', others', hrange', hput'⟩ := hasPut_of_does hh hne halone
  obtain ⟨rfl, rfl⟩ := List.cons.inj (Option.some.inj (hrange.symm.trans hrange'))
  exact ⟨alone, halone, hput'.map_look_eq hput⟩

theorem names_bookmarkedDocument : bookmarkedDocument.Names "part" .bookmark := by
  have hp : ⟨⟨0⟩, "Title", none, .cons (.bookmarkStart "part" "7") .nil
      (.single (.run "one" {}) .nil)⟩ ∈ bookmarkedDocument.paragraphs := by decide
  have hq : ⟨⟨3⟩, "Normal", none, .cons (.run "four" {}) .nil
      (.single (.bookmarkEnd "7") .nil)⟩ ∈ bookmarkedDocument.paragraphs := by decide
  have hstart : Element.bookmarkStart "part" "7" ∈
      (.cons (.bookmarkStart "part" "7") .nil (.single (.run "one" {}) .nil) : Forest).elements :=
    List.mem_cons_self
  exact .bookmark (by decide) hp hstart hq (by decide) (by decide) (by decide) (by decide)

theorem replaced_anchor_regained_twice :
    ∃ mid after,
      OneByOne (fun row => Does ⟨.standard, fun _ _ => .zero⟩ (.replaceSection "part" row))
        [[.heading "a" 2 none, .paragraph "b" none]] { document := bookmarkedDocument } mid ∧
      Does ⟨.standard, fun _ _ => .zero⟩ (.replaceSection "part" [.paragraph "c" none]) mid after ∧
      (Anchor.resolve .standard "part").runOn after = (.ok ⟨.bookmark, [⟨7⟩], none⟩, after) ∧
      ∃ alone, Does ⟨.standard, fun _ _ => .zero⟩ (.replaceSection "part" [.paragraph "c" none])
          { document := bookmarkedDocument } alone ∧
        alone.document.paragraphs.map (·.look) = after.document.paragraphs.map (·.look) := by
  have hready : Host.Ready { document := bookmarkedDocument } := ⟨⟨rfl, rfl⟩, rfl, by decide⟩
  obtain ⟨mid, after, hruns, h, hnext⟩ : ∃ mid after,
      OneByOne (fun row => Does ⟨.standard, fun _ _ => .zero⟩ (.replaceSection "part" row))
        [[.heading "a" 2 none, .paragraph "b" none]] { document := bookmarkedDocument } mid ∧
      Does ⟨.standard, fun _ _ => .zero⟩ (.replaceSection "part" [.paragraph "c" none]) mid after ∧
      mid.document.nextHandle = 7 :=
    ⟨_, _, .cons rfl (.nil _), rfl, rfl⟩
  obtain ⟨_, hfound, halone⟩ := (replaced_anchor_regained hready (by decide) (by decide)
    names_bookmarkedDocument).2 _ mid _ after (by decide) hruns h
  rw [hnext] at hfound
  exact ⟨mid, after, hruns, h, hfound, halone⟩

/-- Two content controls have the reserved anchors as tags, the third one is a marked selection, and
a bookmark stands behind them. -/
def reservedDocument : Document where
  body := .cons (.control ⟨0⟩ (some ⟨some "main", none⟩))
      (.single (.paragraph ⟨1⟩ "Normal" none) .nil)
    (.cons (.control ⟨2⟩ (some ⟨some "selected", none⟩))
        (.single (.paragraph ⟨3⟩ "Normal" none) .nil)
      (.cons (.control ⟨4⟩ (some ⟨some "selected_1", none⟩))
          (.single (.paragraph ⟨5⟩ "Normal" none) .nil)
        (.cons (.paragraph ⟨6⟩ "Normal" none)
            (.cons (.bookmarkStart "bm" "0") .nil (.single (.bookmarkEnd "0") .nil))
          (.single (.paragraph ⟨7⟩ "Normal" none) .nil))))
  nextHandle := 8

/-- A replacement of the default anchor takes the whole body, and one of the anchor of the selection
takes the latest selection, whatever content control has that tag.  A bookmark in whose place
nothing has been put comes to stand for the next paragraph. -/
theorem reserved_anchor_not_regained :
    let host : Host := { document := reservedDocument }
    let does anchor blocks :=
      Does ⟨.standard, fun _ _ => .zero⟩ (.replaceSection anchor blocks) host
    let resolves anchor host strategy range :=
      (Anchor.resolve .standard anchor).runOn host = (.ok ⟨strategy, range, none⟩, host)
    host.Ready ∧
    (reservedDocument.Names "main" .marker ∧ resolves "main" host .marker [⟨1⟩] ∧
      ∃ after, does "main" [.paragraph "new" none] after ∧ resolves "main" after .default [⟨8⟩]) ∧
    (reservedDocument.Names "selected" .marker ∧ resolves "selected" host .marker [⟨3⟩] ∧
      ∃ after, does "selected" [.paragraph "new" none] after ∧
        resolves "selected" after .marker [⟨3⟩]) ∧
    reservedDocument.Names "bm" .bookmark ∧ resolves "bm" host .bookmark [⟨6⟩] ∧
      ∃ after, does "bm" [] after ∧ resolves "bm" after .bookmark [⟨7⟩] := by
  have hp : ⟨⟨6⟩, "Normal", none, .cons (.bookmarkStart "bm" "0") .nil
      (.single (.bookmarkEnd "0") .nil)⟩ ∈ reservedDocument.paragraphs := by decide
  have hstart : Element.bookmarkStart "bm" "0" ∈
      (.cons (.bookmarkStart "bm" "0") .nil (.single (.bookmarkEnd "0") .nil) : Forest).elements :=
    List.mem_cons_self
  obtain ⟨after, hdoes, hopen, hmarker, hbookmark, hheading, hdefault⟩ : ∃ after,
      Does ⟨.standard, fun _ _ => .zero⟩ (.replaceSection "main" [.paragraph "new" none])
        { document := reservedDocument } after ∧ after.isOpen = true ∧
      (Anchor.attempt .standard "main" .marker).runOn after = (.ok none, after) ∧
      (Anchor.attempt .standard "main" .bookmark).runOn after = (.ok none, after) ∧
      (Anchor.attempt .standard "main" .heading).runOn after = (.ok none, after) ∧
      (Anchor.attempt .standard "main" .default).runOn after =
        (.ok (some ⟨.default, [⟨8⟩], none⟩), after) :=
    ⟨_, rfl, rfl, rfl, rfl, rfl, rfl⟩
  have hfound : (Anchor.resolve .standard "main").runOn after =
      (.ok ⟨.default, [⟨8⟩], none⟩, after) := by
    rw [Anchor.resolve_of_isOpen hopen, Strategy.all, Anchor.resolveFrom_none hmarker,
      Anchor.resolveFrom_none hbookmark, Anchor.resolveFrom_none hheading,
      Anchor.resolveFrom_found hdefault]
  refine ⟨⟨⟨rfl, rfl⟩, rfl, by decide⟩, ⟨?_, rfl, after, hdoes, hfound⟩, ⟨?_, rfl, _, rfl, rfl⟩,
    ?_, rfl, _, rfl, rfl⟩
  · exact .marker (by decide : ⟨"main", none, ⟨0⟩⟩ ∈ reservedDocument.body.markers) rfl
  · exact .marker (by decide : ⟨"selected", none, ⟨2⟩⟩ ∈ reservedDocument.body.markers) rfl
  · exact .bookmark (by decide) hp hstart hp (by decide) (by decide) (by decide) (by decide)

end Execution

end Redline
