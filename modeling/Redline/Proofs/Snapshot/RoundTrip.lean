import Redline.Proofs.Document.Rebuilding
import Redline.Proofs.Run.Landing
import Redline.Proofs.Snapshot.Sections

/-!
# Writing and taking a snapshot

Blocks that are written in the place of a whole body come back in the next snapshot, but for those
that are blank; and the blocks of a snapshot, written into any document, give the same snapshot.

## Main definitions

* `Stylesheet.DefinesBlocks` — the paragraphs of blocks show the styles that the blocks ask for.
* `Block.piece`, `Block.pieces` — what a snapshot tells of blocks that have been written.
* `Snapshot.Block.toPlan?` — the block of a plan that writes a block of a snapshot.
-/

namespace Redline

open Editing Redline.Text
open Snapshot (Piece candidates)

variable {host after : Host} {scorer : Heading.Scorer} {sheet : Stylesheet} {block : Block}
  {blocks : List Block}

/-- Paragraphs that are given the styles of these blocks show the styles that were asked for. -/
def Stylesheet.DefinesBlocks (sheet : Stylesheet) (rules : Rules) (blocks : List Block) : Prop :=
  ∀ block ∈ blocks, sheet.Defines (Execution.blockStyleName rules block)

theorem Stylesheet.DefinesBlocks.knows {rules : Rules} (h : sheet.DefinesBlocks rules blocks) :
    sheet.KnowsBlocks rules blocks := fun block hblock => (h block hblock).knows

/-! ## Writing -/

namespace Execution

/-- Checked blocks of styles that the document knows take the place of the whole body, unless the
color of one has a channel with too many digits. -/
theorem replaceBody_cases (scorer : Heading.Scorer) (hh : host.Ready)
    (hb : ∀ block ∈ blocks, block.Checked .standard)
    (hk : host.document.styles.KnowsBlocks .standard blocks) :
    (∃ style ∈ blocks.filterMap blockLook, ∃ n, style.Overlong n) ∨
      ∃ after, Does ⟨.standard, scorer⟩ (.replaceSection Rules.standard.defaultAnchor blocks) host
          after ∧ after.Ready ∧ after.document.paragraphs =
            Block.toParagraphs host.document.styles host.document.nextHandle blocks := by
  rcases hrun : (replaceSection ⟨.standard, scorer⟩ Rules.standard.defaultAnchor blocks).runOn host
    with ⟨mishap | _, mid⟩
  · rw [replaceSection, if_pos rfl, runOn_bind, Host.runOn_queue] at hrun
    obtain ⟨style, hstyle, n, hlong, _⟩ :=
      insertBlocks_error (Host.inserting_insertParagraphInBody .start) hb (by exact hh.isOpen) hrun
    exact .inl ⟨style, hstyle, n, hlong⟩
  · have hperform := hrun
    rw [replaceSection, if_pos rfl, runOn_bind, Host.runOn_queue, insertBlocks_eq_insertEach] at hrun
    obtain ⟨items, hitems, rfl⟩ :=
      insertEach_inBody_eq_ok queueBlockStyle_eq_ok (by exact hh.isOpen) hrun
    have hmade := hh.wellFormed.makeAll (items.map Prod.fst)
    have hawaits := Document.awaits_makeAll host.document items
    obtain ⟨d, hbecomes, hwell⟩ :=
      Document.accepts_clearBody .start hmade (by simpa using known_of_items hb hk hitems) hawaits
    obtain ⟨news, hnews, hbody⟩ := Document.body_clearBody hmade hawaits hbecomes
    rw [Document.styles_makeAll] at hnews
    have hqueued : ({ host with pending := host.pending ++ [.clearBody] } : Host).queueing
        (host.document.makeAll (items.map Prod.fst)) (Document.bodyChain .start
          (Document.insertions host.document.styles host.document.nextHandle items)) =
        host.queueing (host.document.makeAll (items.map Prod.fst))
          (.clearBody :: Document.bodyChain .start
            (Document.insertions host.document.styles host.document.nextHandle items)) := by
      simp [Host.queueing]
    obtain ⟨n, hflush⟩ := hh.flush_queueing.2 ⟨d, hbecomes, rfl⟩
    refine .inr ⟨_, does_iff.2 ⟨_, hperform, n, hqueued ▸ hflush⟩, hh.flushed hwell,
      ?_⟩
    rw [← eq_toParagraphs_of_dressed hitems hnews, ← Forest.paragraphs_join_tree news, ← hbody]
    rfl

end Execution

/-! ## What comes back -/

theorem isBlank_readBack (c : Char) : isBlank (readBack c) = isBlank c := by
  by_cases hc : c = '\r'
  · subst hc
    decide
  · simp [readBack, hc]

theorem allBlank_map_readBack (text : List Char) : allBlank (text.map readBack) = allBlank text := by
  simp [allBlank, Function.comp_def, isBlank_readBack]

namespace Block

/-- The text of a block, with feeds for returns. -/
def readText (block : Block) : String :=
  String.ofList ((Execution.blockText block).toList.map readBack)

/-- The level of a heading. -/
def level? : Block → Option Int
  | .paragraph _ _ => none
  | .heading _ level _ => some level

/-- What a snapshot tells of a block that has been written. -/
def piece (block : Block) : Snapshot.Piece := ⟨trimmed block.readText, block.level?⟩

/-- What a snapshot tells of blocks that have been written, in order; blank ones are passed over. -/
def pieces (blocks : List Block) : List Snapshot.Piece :=
  (blocks.filter fun block => !allBlank (Execution.blockText block).toList).map piece

theorem text_toParagraph (sheet : Stylesheet) (n : Nat) (block : Block) :
    (block.toParagraph sheet n).text = block.readText := by
  by_cases ht : Execution.blockText block = ""
  · simp [toParagraph, content, Paragraph.text, readText, ht, Forest.shownText]
  · simp [toParagraph, content, Paragraph.text, readText, ht, Forest.shownText, Forest.single]

theorem headingLevel?_heading {level : Int} (hone : 1 ≤ level) (hthree : level ≤ 3) :
    Rules.standard.headingLevel? s!"Heading {level}" = some level := by
  obtain rfl | rfl | rfl : level = 1 ∨ level = 2 ∨ level = 3 := by omega
  all_goals decide

theorem headingLevel?_toParagraph (n : Nat) (hb : block.Checked .standard)
    (hd : sheet.Defines (Execution.blockStyleName .standard block)) :
    Rules.standard.headingLevel? (block.toParagraph sheet n).style = block.level? := by
  rw [toParagraph, hd.shownAs_eq]
  cases hb with
  | paragraph _ _ => exact (by decide : Rules.standard.headingLevel? "Normal" = none)
  | heading _ hone hthree _ =>
    rw [Execution.blockStyleName, Execution.headingStyle_standard]
    exact headingLevel?_heading hone hthree

theorem ofPassage_toParagraph (n index : Nat) (hb : block.Checked .standard)
    (hd : sheet.Defines (Execution.blockStyleName .standard block)) :
    Piece.ofPassage .standard ((block.toParagraph sheet n).passage index) = block.piece := by
  simp [Piece.ofPassage, Paragraph.passage, piece, text_toParagraph,
    headingLevel?_toParagraph n hb hd]

/-- The pieces of paragraphs that have been written for blocks. -/
theorem map_ofPassage_toParagraphs (hb : ∀ block ∈ blocks, block.Checked .standard)
    (hd : sheet.DefinesBlocks .standard blocks) (n index : Nat) :
    (candidates (((toParagraphs sheet n blocks).zipIdx index).map fun e => e.1.passage e.2)).map
      (Piece.ofPassage .standard) = pieces blocks := by
  induction blocks generalizing n index with
  | nil => rfl
  | cons block rest ih =>
    obtain ⟨hblock, hrest⟩ := List.forall_mem_cons.1 hb
    obtain ⟨hstyle, hstyles⟩ := List.forall_mem_cons.1 hd
    have hblank : allBlank ((block.toParagraph sheet n).passage index).text.toList =
        allBlank (Execution.blockText block).toList := by
      simp [Paragraph.passage, text_toParagraph, readText, allBlank_map_readBack]
    have hrest := ih hrest hstyles (n + 1) (index + 1)
    simp only [toParagraphs, List.zipIdx_cons, List.map_cons, candidates, List.filter_cons, hblank,
      pieces] at hrest ⊢
    by_cases h : allBlank (Execution.blockText block).toList = true
    · simpa [h] using hrest
    · simpa [h, ofPassage_toParagraph n index hblock hstyle] using hrest

end Block

/-! ## Taking a snapshot and writing it -/

namespace Snapshot

variable {source : Host}

/-- The block of a plan that writes a block of a snapshot. -/
def Block.toPlan? (block : Block) : Option Redline.Block :=
  match block.type, block.text, block.level with
  | .str "heading", .str text, .int level => some (.heading text level none)
  | .str "paragraph", .str text, .null => some (.paragraph text none)
  | _, _, _ => none

/-- The block of a plan that writes a piece. -/
def Piece.toPlan (p : Piece) : Redline.Block :=
  match p.level with
  | some level => .heading p.text level none
  | none => .paragraph p.text none

theorem extract_run (rules : Rules) (epoch : String) (ha : host.Answers) :
    (extract rules epoch).runOn host =
      (.ok (ofPieces epoch ((candidates host.document.passages).map (Piece.ofPassage rules))),
        host) := by
  simp [extract, Anchor.ensureHost, runOn_bind, runOn_map, ha.isOpen, ha.paragraphs,
    ofPassages_eq_ofPieces]

theorem forM_checkId (ids : List String) : (ids.map Json.str).forM checkId = .ok () := by
  induction ids with
  | nil => rfl
  | cons id rest ih => exact ih

/-- The ordered blocks of a snapshot that has been taken are those of its pieces. -/
theorem orderedBlocks_taken (rules : Rules) (epoch : String) (passages : List Passage) :
    (ofPieces epoch ((candidates passages).map (Piece.ofPassage rules))).orderedBlocks =
      .ok ((labelled ((candidates passages).map (Piece.ofPassage rules))).map
        fun e => e.2.block e.1) := by
  have hids : (numbered passages).map (fun e => Json.str e.1) =
      ((numbered passages).map (·.1)).map Json.str := by simp
  have hblocks : ((numbered passages).map fun e => Json.str e.1).filterMap
      (ofPassages rules epoch passages).block? =
        (numbered passages).map fun e => blockOf rules e.1 e.2 := by
    rw [List.filterMap_map, ← List.filterMap_eq_map]
    exact List.filterMap_congr fun e he => block?_ofPassages rules epoch he
  have hall : (ofPassages rules epoch passages).orderedBlocks =
      .ok ((ofPassages rules epoch passages).blocks.map (·.2)) := by
    rw [orderedBlocks, listedIds_ofPassages, hblocks, blocks_ofPassages, hids, forM_checkId]
    simp [bind, Except.bind]
  rw [ofPassages_eq_ofPieces] at hall
  exact hall.trans (by simp [ofPieces])

theorem map_labelled (pieces : List Piece) :
    (labelled pieces).map (fun e => e.2.toPlan) = pieces.map Piece.toPlan := by
  have hall : pieces.zipIdx.map Prod.fst = pieces := List.zipIdx_map_fst 0 pieces
  calc (labelled pieces).map (fun e => e.2.toPlan)
      = (pieces.zipIdx.map Prod.fst).map Piece.toPlan := by
        rw [labelled, List.mapIdx_eq_zipIdx_map, List.map_map, List.map_map]
        rfl
    _ = pieces.map Piece.toPlan := by rw [hall]

theorem mapM_toPlan? (pieces : List (String × Piece)) :
    (pieces.map fun e => e.2.block e.1).mapM Block.toPlan? =
      some (pieces.map fun e => e.2.toPlan) := by
  induction pieces with
  | nil => rfl
  | cons e rest ih =>
    have he : (e.2.block e.1).toPlan? = some e.2.toPlan := by
      obtain ⟨id, text, _ | level⟩ := e <;> rfl
    rw [List.map_cons, List.mapM_cons, he, ih]
    rfl

/-- A piece that reads back as it is written. -/
structure Piece.Plain (p : Piece) : Prop where
  visible : allBlank p.text.toList = false
  stripped : trimmed p.text = p.text
  readable : ∀ c ∈ p.text.toList, isReadable c = true
  level : ∀ level ∈ p.level, 1 ≤ level ∧ level ≤ 3

theorem Piece.Plain.checked {p : Piece} (h : p.Plain) : p.toPlan.Checked .standard := by
  have hw : isWritable p.text.toList = true :=
    isWritable_iff.2 fun c hc => (isReadable_iff.1 (h.readable c hc)).1
  rw [toPlan]
  cases hl : p.level with
  | none => exact .paragraph hw nofun
  | some level =>
    obtain ⟨hone, hthree⟩ := h.level level hl
    exact .heading hw hone hthree nofun

theorem Piece.Plain.piece {p : Piece} (h : p.Plain) : p.toPlan.piece = p := by
  have hread : String.ofList (p.text.toList.map readBack) = p.text := by
    rw [map_readBack_of_readable h.readable, String.ofList_toList]
  obtain ⟨text, _ | level⟩ := p <;>
    simpa [toPlan, Redline.Block.piece, Redline.Block.readText, Redline.Block.level?,
      Execution.blockText, hread] using h.stripped

theorem Piece.blockLook_toPlan (p : Piece) : Execution.blockLook p.toPlan = none := by
  obtain ⟨text, _ | level⟩ := p <;> rfl

/-- Plain pieces come back as they were. -/
theorem pieces_toPlan {pieces : List Piece} (h : ∀ p ∈ pieces, p.Plain) :
    Block.pieces (pieces.map Piece.toPlan) = pieces := by
  have hvisible : (pieces.map Piece.toPlan).filter
      (fun block => !allBlank (Execution.blockText block).toList) = pieces.map Piece.toPlan := by
    rw [List.filter_eq_self, List.forall_mem_map]
    intro p hp
    obtain ⟨text, _ | level⟩ := p <;>
      simpa [Piece.toPlan, Execution.blockText] using (h _ hp).visible
  rw [Block.pieces, hvisible, List.map_map]
  exact (List.map_congr_left fun p hp => (h p hp).piece).trans (List.map_id' pieces)

theorem levels_standard {style : String} {level : Int}
    (h : Rules.standard.headingLevel? style = some level) : 1 ≤ level ∧ level ≤ 3 := by
  rw [Rules.headingLevel?] at h
  split at h
  · cases h
  · have hmem := mem_of_lookup h
    simp only [Rules.standard, List.mem_cons, Prod.mk.injEq, List.not_mem_nil, or_false] at hmem
    omega

theorem mem_characters_of_mem_runText {f : Forest} {c : Char} (hc : c ∈ f.runText) :
    c ∈ f.characters := by
  induction f with
  | nil => simp [Forest.runText, Forest.runTexts] at hc
  | cons e inside rest _ ih =>
    simp only [Forest.characters, List.mem_append]
    cases e with
    | run text format =>
      have hc : c ∈ text.toList ∨ c ∈ rest.runText := by
        simpa [Forest.runText, Forest.runTexts] using hc
      exact hc.imp id fun hc => .inr (ih hc)
    | _ => exact .inr (.inr (ih hc))

theorem mem_characters_of_mem_shownText {f : Forest} {c : Char} (hc : c ∈ f.shownText) :
    c ∈ f.characters := by
  induction f with
  | nil => simp [Forest.shownText] at hc
  | cons e inside rest _ ih =>
    simp only [Forest.characters, List.mem_append]
    cases e with
    | run text format =>
      exact (List.mem_append.1 hc).imp id fun hc => .inr (ih hc)
    | link =>
      exact .inr ((List.mem_append.1 hc).imp mem_characters_of_mem_runText ih)
    | _ => exact .inr (.inr (ih hc))

theorem strip_subset (text : List Char) : strip text ⊆ text := fun _ hc =>
  (List.dropWhile_suffix isBlank).subset ((List.rdropWhile_prefix isBlank _).subset hc)

/-- The pieces of a document without returns are plain. -/
theorem plain_of_mem_candidates {d : Document} (hd : d.OfKind isReadable) {p : Passage}
    (hp : p ∈ candidates d.passages) : (Piece.ofPassage .standard p).Plain := by
  obtain ⟨hp, hvisible⟩ := List.mem_filter.1 hp
  obtain ⟨⟨q, index⟩, hq, rfl⟩ := List.mem_map.1 hp
  have hreadable : ∀ c ∈ q.content.shownText, isReadable c = true := fun c hc =>
    (hd _ List.mem_cons_self).content (List.fst_mem_of_mem_zipIdx hq) c
      (mem_characters_of_mem_shownText hc)
  have htext : (q.passage index).text.toList = q.content.shownText := by
    simp [Paragraph.passage, Paragraph.text]
  refine ⟨?_, ?_, fun c hc => ?_, fun level hlevel => levels_standard hlevel⟩
  · rw [Bool.eq_false_iff, ne_eq, ← strip_eq_nil, Piece.ofPassage, trimmed, String.toList_ofList,
      strip_strip, strip_eq_nil]
    simpa using hvisible
  · simp [Piece.ofPassage, trimmed]
  · refine hreadable c ?_
    rw [Piece.ofPassage, trimmed, String.toList_ofList, htext] at hc
    exact strip_subset _ hc

/-- After checked blocks have taken the place of a whole body, the next snapshot has their pieces if
the document defines their styles. -/
theorem replaceBody_extract (scorer : Heading.Scorer) (epoch : String) (hh : host.Ready)
    {blocks : List Redline.Block} (hb : ∀ block ∈ blocks, block.Checked .standard)
    (hk : host.document.styles.KnowsBlocks .standard blocks) :
    (∃ style ∈ blocks.filterMap Execution.blockLook, ∃ n, style.Overlong n) ∨
      ∃ after, Execution.Does ⟨.standard, scorer⟩
          (.replaceSection Rules.standard.defaultAnchor blocks) host after ∧
        after.document.paragraphs =
          Block.toParagraphs host.document.styles host.document.nextHandle blocks ∧
        (host.document.styles.DefinesBlocks .standard blocks →
          (extract .standard epoch).runOn after =
            (.ok (ofPieces epoch (Block.pieces blocks)), after)) := by
  refine (Execution.replaceBody_cases scorer hh hb hk).imp_right ?_
  rintro ⟨after, hdoes, hready, hparagraphs⟩
  refine ⟨after, hdoes, hparagraphs, fun hd => ?_⟩
  rw [extract_run _ _ hready.toAnswers, Document.passages, hparagraphs,
    Block.map_ofPassage_toParagraphs hb hd]

/-- Writing and taking a snapshot are inverse.  Checked blocks that are written in the place of the
body of a document are all of its paragraphs then; only a style that the document does not know, or a
color with too many digits, keeps them from being written.  If the document defines their styles, the
snapshot that is taken next has the pieces of these blocks.  And the blocks of the snapshot of a
document without returns, written in the place of the body of any document that defines their
styles, give the same snapshot again. -/
theorem extract_inverts_writing (scorer : Heading.Scorer) (epoch newEpoch : String)
    (hh : host.Ready) :
    (∀ blocks : List Redline.Block, (∀ block ∈ blocks, block.Checked .standard) →
      (∃ style ∈ blocks.filterMap Execution.blockLook, ∃ n, style.Overlong n) ∨
      ¬ host.document.styles.KnowsBlocks .standard blocks ∨
      ∃ after, Execution.Does ⟨.standard, scorer⟩
          (.replaceSection Rules.standard.defaultAnchor blocks) host after ∧
        after.document.paragraphs =
          Block.toParagraphs host.document.styles host.document.nextHandle blocks ∧
        (host.document.styles.DefinesBlocks .standard blocks →
          (extract .standard epoch).runOn after =
            (.ok (ofPieces epoch (Block.pieces blocks)), after))) ∧
    ∀ source : Host, source.Answers → source.document.OfKind isReadable →
      let blocks := (candidates source.document.passages).map fun p =>
        (Piece.ofPassage .standard p).toPlan
      ∃ taken ordered, (extract .standard epoch).runOn source = (.ok taken, source) ∧
        taken.orderedBlocks = .ok ordered ∧ ordered.mapM Block.toPlan? = some blocks ∧
        (host.document.styles.DefinesBlocks .standard blocks → ∃ after again,
          Execution.Does ⟨.standard, scorer⟩
            (.replaceSection Rules.standard.defaultAnchor blocks) host after ∧
          (extract .standard newEpoch).runOn after = (.ok again, after) ∧
          again.toJson = taken.toJson) := by
  refine ⟨fun blocks hb => ?_, fun source hs hreadable => ?_⟩
  · by_cases hk : host.document.styles.KnowsBlocks .standard blocks
    · exact (replaceBody_extract scorer epoch hh hb hk).imp_right .inr
    · exact .inr (.inl hk)
  let pieces := (candidates source.document.passages).map (Piece.ofPassage .standard)
  have hblocks : ((candidates source.document.passages).map fun p =>
      (Piece.ofPassage .standard p).toPlan) = pieces.map Piece.toPlan := by
    simp [pieces, Function.comp_def]
  have hplain : ∀ p ∈ pieces, p.Plain := by
    intro p hp
    obtain ⟨q, hq, rfl⟩ := List.mem_map.1 hp
    exact plain_of_mem_candidates hreadable hq
  have hchecked : ∀ block ∈ pieces.map Piece.toPlan, block.Checked .standard :=
    List.forall_mem_map.2 fun p hp => (hplain p hp).checked
  have hlooks : (pieces.map Piece.toPlan).filterMap Execution.blockLook = [] := by
    simp [List.filterMap_map, Piece.blockLook_toPlan]
  have hplan : ((labelled pieces).map fun e => e.2.block e.1).mapM Block.toPlan? =
      some (pieces.map Piece.toPlan) := by
    rw [mapM_toPlan?, map_labelled]
  rw [hblocks]
  refine ⟨_, _, extract_run _ _ hs, orderedBlocks_taken .standard epoch _, hplan, fun hd => ?_⟩
  obtain ⟨style, hstyle, -⟩ | ⟨after, hdoes, -, hagain⟩ :=
    replaceBody_extract scorer newEpoch hh hchecked hd.knows
  · simp [hlooks] at hstyle
  · refine ⟨after, _, hdoes, hagain hd, ?_⟩
    rw [pieces_toPlan hplain]
    rfl

/-- A page with a note before its only heading. -/
def page : Document where
  body :=
    .cons (.paragraph ⟨0⟩ "Quote" (some .center)) (.runOf " To do ".toList)
      (.cons (.paragraph ⟨1⟩ "Heading 2" none) (.runOf "Plan\nB".toList)
        (.cons (.paragraph ⟨2⟩ "Normal" none) (.runOf "  ".toList)
          (.single .table (.single .row (.single .cell
            (.single (.paragraph ⟨3⟩ "Normal" none) (.runOf "Ship it.".toList)))))))
  nextHandle := 4

theorem ready_page : Host.Ready { document := page } := ⟨⟨rfl, rfl⟩, rfl, by decide⟩

/-- A heading with a return in its text, a blank paragraph and a colored one. -/
def pageBlocks : List Redline.Block := [.heading "Plan\rB " 2 (some { bold := some true }),
  .paragraph " " none, .paragraph "\tShip it." (some { color := some "teal" })]

theorem checked_pageBlocks : ∀ block ∈ pageBlocks, block.Checked .standard := by
  simp only [pageBlocks, List.forall_mem_cons, List.not_mem_nil, false_implies, implies_true,
    and_true]
  refine ⟨.heading (by decide) (by decide) (by decide) ?_, .paragraph (by decide) nofun,
    .paragraph (by decide) ?_⟩
  · rintro _ ⟨⟩
    exact ⟨nofun, nofun⟩
  · rintro _ ⟨⟩
    refine ⟨?_, nofun⟩
    rintro _ ⟨⟩
    decide

theorem not_overlong_pageBlocks {style : Style} {n : Nat}
    (hstyle : style ∈ pageBlocks.filterMap Execution.blockLook) : ¬style.Overlong n := by
  rintro ⟨color, hcolor, row, ⟨red, green, blue, hread, -⟩, -⟩
  have hstyles : pageBlocks.filterMap Execution.blockLook =
      [{ bold := some true }, { color := some "teal" }] := rfl
  simp only [hstyles, List.mem_cons, List.not_mem_nil, or_false] at hstyle
  rcases hstyle with rfl | rfl
  · cases hcolor
  · obtain rfl := Option.some.inj hcolor
    cases (show Color.read "teal" = .name "teal" by decide).symm.trans hread

theorem extract_inverts_writing_page :
    (∃ after, Execution.Does ⟨.standard, fun _ _ => .zero⟩ (.replaceSection "main" pageBlocks)
        { document := page } after ∧
      (extract .standard "now").runOn after = (.ok (ofPieces "now" [⟨"Plan\nB", some 2⟩,
        ⟨"Ship it.", none⟩]), after)) ∧
    ∃ taken after again, (extract .standard "now").runOn { document := page } =
        (.ok taken, { document := page }) ∧
      (extract .standard "later").runOn after = (.ok again, after) ∧ again.toJson = taken.toJson := by
  have hdefines : Stylesheet.standard.DefinesBlocks .standard pageBlocks := by
    simp only [Stylesheet.DefinesBlocks]
    decide +kernel
  obtain ⟨hwrites, hback⟩ := extract_inverts_writing (fun _ _ => .zero) "now" "later" ready_page
  constructor
  · rcases hwrites pageBlocks checked_pageBlocks with
      ⟨style, hstyle, n, hlong⟩ | hunknown | ⟨after, hdoes, -, hextract⟩
    · exact absurd hlong (not_overlong_pageBlocks hstyle)
    · exact absurd hdefines.knows hunknown
    · have hpieces : Block.pieces pageBlocks = [⟨"Plan\nB", some 2⟩, ⟨"Ship it.", none⟩] := by decide
      exact ⟨after, hdoes, hpieces ▸ hextract hdefines⟩
  · have hstyles : ∀ p ∈ candidates page.passages, Stylesheet.standard.Defines
        (Execution.blockStyleName .standard (Piece.ofPassage .standard p).toPlan) := by
      decide +kernel
    obtain ⟨taken, _, htaken, -, -, hwritten⟩ :=
      hback { document := page } ready_page.toAnswers (by decide)
    obtain ⟨after, again, -, hagain, hjson⟩ := hwritten (List.forall_mem_map.2 hstyles)
    exact ⟨taken, after, again, htaken, hagain, hjson⟩

example : (ofPieces "now" [⟨"To do", none⟩, ⟨"Plan\nB", some 2⟩, ⟨"Ship it.", none⟩]).sections =
    [⟨.str "s1", .str "Introduction", 1, [.str "b1"]⟩,
      ⟨.str "s2", .str "Plan\nB", 2, [.str "b2", .str "b3"]⟩] := by rfl

/-- A paragraph whose color has that many nines in its first channel. -/
def colored (n : Nat) : Redline.Block := .paragraph "Hi" (some { color := some (nines n) })

theorem isRow_nines {n : Nat} (hn : Numeral.maxDigits < n) :
    Numeral.IsRow (List.replicate n '9') :=
  Numeral.isRow_replicate (by decide) (Nat.ne_of_gt (Nat.zero_lt_of_lt hn))

theorem checked_colored {n : Nat} (hn : Numeral.maxDigits < n) :
    (colored n).Checked .standard := by
  refine .paragraph (by decide) ?_
  rintro _ ⟨⟩
  refine ⟨?_, nofun⟩
  rintro _ ⟨⟩
  exact Color.isValid_ofRed (isRow_nines hn)

theorem replaceBody_colored {n : Nat} (hn : Numeral.maxDigits < n) (hopen : host.isOpen = true) :
    ∃ mid, (Execution.replaceSection ⟨.standard, scorer⟩ Rules.standard.defaultAnchor
        [colored n]).runOn host = (.error (.fault (.longInteger n)), mid) ∧
      mid.document.body = host.document.body := by
  have hlong : Numeral.maxDigits < (List.replicate n '9').length := by simpa using hn
  have hsome : (nines n).isEmpty = false := by simp [nines, Color.ofRed]
  have hcolor : Execution.colorDigits ⟨.standard, scorer⟩ { color := some (nines n) } =
      .error (.longInteger n) := by
    simp only [Execution.colorDigits, hsome]
    exact (Color.rgb?_ofRed (isRow_nines hn) hlong).trans (by rw [List.length_replicate])
  let h : Handle := ⟨host.document.nextHandle⟩
  have hmade : (Host.insertParagraphInBody "Hi" .start).runOn
      { host with pending := host.pending ++ [.clearBody] } =
        (.ok h, Host.queueing { host with pending := host.pending ++ [.clearBody] }
          (host.document.make "Hi") [.insertInBody h "Hi" .start]) :=
    (Execution.insertParagraphInBody_eq_ok (by exact hopen)).2
      ⟨show isWritable "Hi".toList = true by decide, rfl, rfl⟩
  refine ⟨host.queueing (host.document.make "Hi")
    [.clearBody, .insertInBody h "Hi" .start, .setStyle h "Normal"], ?_, rfl⟩
  rw [Execution.replaceSection, if_pos rfl, runOn_bind, Host.runOn_queue]
  simp only [Execution.insertBlocks, colored, Execution.blockText, runOn_bind, hmade,
    Execution.queueBlockStyle, Execution.blockLook, Host.runOn_queue, Execution.queueStyle_eq,
    hcolor, lift, runOn_fault, Execution.blockStyleName]
  simp [Host.queueing, h, Rules.standard]

/-- A block is checked though its color has too many digits; the body stays as it is then. -/
theorem replaceBody_stopped_by_4301_digits :
    (colored 4301).Checked .standard ∧ ∃ f added after,
      (Execution.run ⟨.standard, Heading.overlapScore⟩
          [Execution.own (.replaceSection "main" [colored 4301])]).runOn { document := page } =
        (.ok (.failed f added), after) ∧ after.document.body = page.body := by
  have hlong : Numeral.maxDigits < 4301 := by decide
  obtain ⟨mid, hrun, hbody⟩ := @replaceBody_colored { document := page } Heading.overlapScore _
    hlong rfl
  exact ⟨checked_colored hlong, _, _, _,
    Execution.run_single_failed rfl (Execution.runAction_fault hrun), hbody⟩

end Snapshot

end Redline
