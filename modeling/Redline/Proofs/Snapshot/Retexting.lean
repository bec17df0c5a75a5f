import Redline.Proofs.Run.Inserting
import Redline.Proofs.Snapshot.Partition

/-!
# Ids outlive replacements

A block plan that only replaces texts, by texts that show something, changes no id.  The snapshot
that is taken after its run is the one that it was run with, but for the texts: a block reads as the
last replacement of it, and a section has the text of its heading for a title.

On its own document a snapshot finds for each block the paragraph that it was taken from, also where
paragraphs read the same.  A replacement keeps the style of its paragraph, and no paragraph becomes
blank or ceases to be, so headings stay headings and the numbering does not shift.

## Main definitions

* `Snapshot.newText?` — the text that operations give to a block.
* `Snapshot.retexted` — a snapshot with these texts.

## Main results

* `Snapshot.ofPieces_retexted` — the snapshot of pieces with other texts.
* `Snapshot.outline_of_replacements` — the paragraphs after a run of replacements.
* `Snapshot.replacements_keep_ids` — taking a snapshot, replacing, taking one again.
-/

namespace Redline

open Editing Redline.Text

theorem Text.strip_map_readBack (text : List Char) :
    strip (text.map readBack) = (strip text).map readBack := by
  have hblank : isBlank ∘ readBack = isBlank := funext isBlank_readBack
  simp [strip, List.dropWhile_map, ← List.map_reverse, hblank]

/-- A paragraph of the list as an entry; no alignment is known of it. -/
def Passage.entry (p : Passage) : Entry := ⟨some p.handle, p.style, none, p.text.toList⟩

namespace Snapshot

variable {rules : Rules} {snapshot s : Snapshot} {m : Mapping} {op : Operation}
  {ops : List Operation} {id : String} {e : String × Piece} {pieces others : List Piece}
  {d : Document} {known : Nat} {host after : Host}

/-! ## Snapshots with other texts -/

/-- The text that operations give to a block, if one of them is on it: the trimmed content of the
last one, with feeds for returns. -/
def newText? (ops : List Operation) (id : String) : Option String :=
  ((ops.filter fun op => op.target == id).getLast?).map fun op =>
    String.ofList ((strip op.content.toList).map readBack)

/-- A block with the text that operations give to it. -/
def Block.retexted (ops : List Operation) (id : String) (b : Block) : Block :=
  { b with text := ((newText? ops id).map Json.str).getD b.text }

/-- A section with the text of its heading for a title; the introduction keeps its own. -/
def Section.retitled (blockOf? : Json → Option Block) (x : Section) : Section :=
  match x.blocks.head?.bind blockOf? with
  | some b => if b.type.str? = some "heading" then { x with title := b.text } else x
  | none => x

/-- A snapshot whose blocks have the texts that operations give to them, and its sections the titles
that go with these.  All ids, types and levels are as they were, and so is what a section lists. -/
def retexted (ops : List Operation) (s : Snapshot) : Snapshot :=
  let t : Snapshot := { s with blocks := s.blocks.map fun e => (e.1, e.2.retexted ops e.1) }
  { t with sections := s.sections.map (Section.retitled t.block?) }

theorem blocks_retexted (ops : List Operation) (s : Snapshot) :
    (s.retexted ops).blocks = s.blocks.map fun e => (e.1, e.2.retexted ops e.1) := rfl

theorem blockIds_retexted (ops : List Operation) (s : Snapshot) :
    (s.retexted ops).blockIds = s.blockIds := by
  simp [blockIds, blocks_retexted]

theorem Section.retitled_cases (blockOf? : Json → Option Block) (x : Section) :
    ∃ title, x.retitled blockOf? = { x with title } := by
  rw [retitled]
  split
  · split
    · exact ⟨_, rfl⟩
    · exact ⟨x.title, rfl⟩
  · exact ⟨x.title, rfl⟩

/-- The sections have their ids and levels, and list what they did. -/
theorem sections_retexted (ops : List Operation) (s : Snapshot) :
    (s.retexted ops).sections.map (fun x => (x.id, x.level, x.blocks)) =
      s.sections.map fun x => (x.id, x.level, x.blocks) := by
  rw [retexted, List.map_map]
  refine List.map_congr_left fun x _ => ?_
  obtain ⟨title, htitle⟩ := x.retitled_cases _
  rw [Function.comp_apply, htitle]

/-! ## Pieces with other texts -/

/-- A piece with the text that operations give to its block. -/
def Piece.retexted (ops : List Operation) (id : String) (p : Piece) : Piece :=
  { p with text := (newText? ops id).getD p.text }

/-- A numbered piece with the text that operations give to its block. -/
def relabelled (ops : List Operation) (e : String × Piece) : String × Piece :=
  (e.1, e.2.retexted ops e.1)

theorem block_retexted (ops : List Operation) (id : String) (p : Piece) :
    (p.retexted ops id).block id = (p.block id).retexted ops id := by
  obtain ⟨text, level⟩ := p
  cases level <;> cases h : newText? ops id <;>
    simp [Piece.retexted, Piece.block, Block.retexted, h]

/-- Texts have no say in the grouping. -/
theorem groups_map_relabelled (ops : List Operation) (labels : List (String × Piece)) :
    groups (labels.map (relabelled ops)) = (groups labels).map (List.map (relabelled ops)) := by
  induction labels using List.reverseRecOn with
  | nil => rfl
  | append_singleton labels e ih =>
    have hsame : (relabelled ops e).2.isHeading = e.2.isHeading := rfl
    rw [List.map_append, List.map_singleton]
    by_cases he : e.2.isHeading = true
    · rw [groups_concat_heading he, groups_concat_heading (hsame.trans he), ih, List.map_append]
      rfl
    · have he : e.2.isHeading = false := by simpa using he
      rcases List.eq_nil_or_concat' (groups labels) with hnone | ⟨first, last, hg⟩
      · obtain rfl : labels = [] := List.splitBy_eq_nil.1 hnone
        rfl
      · have hmapped : groups (labels.map (relabelled ops)) =
            first.map (List.map (relabelled ops)) ++ [last.map (relabelled ops)] := by
          rw [ih, hg, List.map_append]
          rfl
        rw [groups_concat_paragraph he hg, groups_concat_paragraph (hsame.trans he) hmapped]
        simp

section
variable (epoch : String) (hlabels : labelled others = (labelled pieces).map (relabelled ops))
include hlabels

theorem blocks_ofPieces_retexted :
    (ofPieces epoch others).blocks = ((ofPieces epoch pieces).retexted ops).blocks := by
  rw [blocks_retexted, ofPieces, ofPieces, hlabels, List.map_map, List.map_map]
  exact List.map_congr_left fun e _ => congrArg _ (block_retexted ops e.1 e.2)

/-- The section of a group gets the new text of its heading for a title. -/
theorem sectionOf_retexted {group : List (String × Piece)} (hg : group ∈ groups (labelled pieces))
    (position : Nat) :
    sectionOf position (group.map (relabelled ops)) =
      (sectionOf position group).retitled (ofPieces epoch others).block? := by
  obtain ⟨e, rest, rfl⟩ := List.exists_cons_of_ne_nil (List.ne_nil_of_mem_splitBy hg)
  have he : relabelled ops e ∈ labelled others :=
    hlabels ▸ List.mem_map_of_mem (mem_of_mem_groups hg List.mem_cons_self)
  have hblock : (ofPieces epoch others).block? (.str e.1) =
      some ((e.2.retexted ops e.1).block e.1) := block?_ofPieces epoch he
  rw [List.map_cons]
  cases hlevel : e.2.level with
  | some level =>
    have hnew : (relabelled ops e).2.level = some level := hlevel
    rw [sectionOf_heading hlevel, sectionOf_heading hnew]
    simp [Section.retitled, hblock, Piece.block, hlevel, relabelled, Piece.retexted, Json.str?]
  | none =>
    have hnew : (relabelled ops e).2.level = none := hlevel
    rw [sectionOf_introduction hlevel, sectionOf_introduction hnew]
    simp [Section.retitled, hblock, Piece.block, hlevel, relabelled, Piece.retexted, Json.str?]

/-- The snapshot of pieces with other texts is the snapshot of the pieces with these texts. -/
theorem ofPieces_retexted : ofPieces epoch others = (ofPieces epoch pieces).retexted ops := by
  have hblocks := blocks_ofPieces_retexted epoch hlabels
  have hfind : (ofPieces epoch others).block? = ((ofPieces epoch pieces).retexted ops).block? := by
    funext id
    rw [block?, block?, hblocks]
  have hsections : (ofPieces epoch others).sections =
      ((ofPieces epoch pieces).retexted ops).sections := by
    have hold : ((ofPieces epoch pieces).retexted ops).sections =
        ((groups (labelled pieces)).mapIdx sectionOf).map
          (Section.retitled (ofPieces epoch others).block?) := hfind ▸ rfl
    have hnew : (ofPieces epoch others).sections =
        ((groups (labelled pieces)).map (List.map (relabelled ops))).mapIdx sectionOf := by
      rw [← groups_map_relabelled, ← hlabels]
      rfl
    refine List.ext_getElem? fun k => ?_
    rw [hold, hnew, List.getElem?_mapIdx, List.getElem?_map, List.getElem?_map,
      List.getElem?_mapIdx]
    cases hg : (groups (labelled pieces))[k]? with
    | none => rfl
    | some group =>
      exact congrArg some (sectionOf_retexted epoch hlabels (List.mem_of_getElem? hg) k)
  exact congrArg₂ (fun sections blocks => Snapshot.mk sections blocks epoch) hsections hblocks

end

/-! ## A snapshot and its own document -/

theorem numberedFrom_eq_mapIdx (position : Nat) (passages : List Passage) :
    numberedFrom position passages = passages.mapIdx fun k p => (blockId (position + k), p) := by
  induction passages generalizing position with
  | nil => rfl
  | cons p rest ih =>
    rw [numberedFrom, ih, List.mapIdx_cons]
    simp [Nat.add_assoc, Nat.add_comm 1]

/-- What is told of the paragraphs that are not blank, under the ids of their blocks. -/
theorem labelled_map_candidates (f : Passage → Piece) (passages : List Passage) :
    labelled ((candidates passages).map f) = (numbered passages).map fun e => (e.1, f e.2) := by
  rw [numbered, numberedFrom_eq_mapIdx]
  refine List.ext_getElem? fun k => ?_
  simp [labelled, Option.map_map, Function.comp_def]

theorem mem_candidates_of_mem_numbered {passages : List Passage} {e : String × Passage}
    (he : e ∈ numbered passages) : e.2 ∈ candidates passages := by
  rw [← map_snd_numberedFrom 0 (candidates passages)]
  exact List.mem_map_of_mem he

section
variable (hd : d.WellFormed)
include hd

theorem nodup_handles_passages : (d.passages.map (·.handle)).Nodup :=
  d.map_handle_passages ▸ hd.nodup_listed

theorem nodup_handles_numbered : ((numbered d.passages).map (·.2.handle)).Nodup := by
  have hhandles := congrArg (List.map (·.handle)) (map_snd_numberedFrom 0 (candidates d.passages))
  rw [List.map_map] at hhandles
  exact hhandles ▸ (nodup_handles_passages hd).sublist (List.filter_sublist.map _)

variable (hm : m.matched = numbered d.passages)
include hm

/-- When each block has its own paragraph, an operation works on the paragraph of the block that it
is on, -/
theorem handle?_eq_iff {e : String × Passage} (he : e ∈ numbered d.passages) :
    m.handle? op = some e.2.handle ↔ op.target = e.1 := by
  constructor
  · intro hop
    obtain ⟨q, hq, hsame⟩ := Option.map_eq_some_iff.1 hop
    have hown : (op.target, q) ∈ numbered d.passages := mem_of_lookup (hm ▸ hq)
    exact congrArg Prod.fst
      (List.inj_on_of_nodup_map (nodup_handles_numbered hd) hown he hsame)
  · intro htarget
    have hids : ((numbered d.passages).map (·.1)).Nodup := nodup_ids_numberedFrom 0 _
    rw [Mapping.handle?, htarget, hm, lookup_of_mem hids he, Option.map_some]

/-- and none works on a blank paragraph. -/
theorem handle?_ne_of_blank {p : Passage} (hp : p ∈ d.passages)
    (hblank : allBlank p.text.toList = true) : m.handle? op ≠ some p.handle := by
  intro hop
  obtain ⟨q, hq, hsame⟩ := Option.map_eq_some_iff.1 hop
  have hown : (op.target, q) ∈ numbered d.passages := mem_of_lookup (hm ▸ hq)
  obtain rfl : q = p :=
    List.inj_on_of_nodup_map (nodup_handles_passages hd) (mem_of_mem_numbered hown).1 hp hsame
  have hcandidate : q ∈ candidates d.passages := mem_candidates_of_mem_numbered hown
  simp [candidates, hblank] at hcandidate

end

/-! ## What there is to tell of a document -/

/-- What a snapshot tells of an entry, nothing if that is blank. -/
def Entry.piece? (rules : Rules) (e : Entry) : Option Piece :=
  if allBlank e.text then none
  else some ⟨String.ofList (strip e.text), rules.headingLevel? e.style⟩

/-- What is told of passages by their handles, styles and texts is told of the paragraphs. -/
theorem filterMap_passages {F : Passage → Option Piece} {G : Paragraph → Option Piece}
    (h : ∀ p index, F (p.passage index) = G p) (d : Document) :
    d.passages.filterMap F = d.paragraphs.filterMap G := by
  have hall : d.paragraphs.zipIdx.map Prod.fst = d.paragraphs := List.zipIdx_map_fst 0 _
  calc d.passages.filterMap F
      = d.paragraphs.zipIdx.filterMap (fun e => G e.1) := by
        rw [Document.passages, List.filterMap_map]
        exact List.filterMap_congr fun e _ => h e.1 e.2
    _ = (d.paragraphs.zipIdx.map Prod.fst).filterMap G := by
        rw [List.filterMap_map]
        rfl
    _ = d.paragraphs.filterMap G := by rw [hall]

/-- What is told of those that are not blank. -/
theorem map_candidates {F : Passage → Option Piece} {f : Passage → Piece}
    {passages : List Passage}
    (h : ∀ p ∈ passages, F p = if allBlank p.text.toList then none else some (f p)) :
    (candidates passages).map f = passages.filterMap F := by
  rw [candidates, ← List.filterMap_eq_map, List.filterMap_filter]
  refine List.filterMap_congr fun p hp => ?_
  rw [h p hp]
  by_cases hblank : allBlank p.text.toList = true <;> simp [hblank]

/-- The pieces of a document are told by its outline. -/
theorem pieces_eq_filterMap_outline (rules : Rules) (known : Nat) (d : Document) :
    (candidates d.passages).map (Piece.ofPassage rules) =
      (d.outline known).filterMap (Entry.piece? rules) := by
  rw [Document.outline, List.filterMap_map, ← filterMap_passages
    (F := fun p => Entry.piece? rules ⟨none, p.style, none, p.text.toList⟩)
    fun p index => by simp [Entry.piece?, Paragraph.passage, Paragraph.text, Paragraph.entry]]
  exact map_candidates fun p _ => rfl

/-! ## Replacements -/

/-- An entry after replacements. -/
def replaced (m : Mapping) (ops : List Operation) (e : Entry) : Entry :=
  { e with text := (((ops.filter fun op => m.handle? op == e.original).getLast?).map fun op =>
      op.content.toList.map readBack).getD e.text }

theorem edited_of_replacements (style : String) (hall : ∀ op ∈ ops, op.kind = .replace)
    (e : Entry) : edited style m ops e = [replaced m ops e] := by
  have hkind : ∀ kind, opsOn m ops e kind =
      if kind = .replace then ops.filter fun op => m.handle? op == e.original else [] := by
    intro kind
    by_cases hk : kind = .replace
    · rw [if_pos hk, opsOn, List.filter_eq_self]
      exact fun op hop => beq_iff_eq.2 ((hall op (List.mem_of_mem_filter hop)).trans hk.symm)
    · rw [if_neg hk, opsOn, List.filter_eq_nil_iff]
      exact fun op hop hkind => hk
        ((beq_iff_eq.1 hkind).symm.trans (hall op (List.mem_of_mem_filter hop)))
  simp [edited, hkind, replaced]

section
variable (hh : host.Ready) (hm : m.Sound host.document.nextHandle host.document)
  (hrun : (runOperations rules snapshot m 0 ops).runOn host = (.ok (), after))
include hh hm hrun

/-- A run of replacements gives the paragraphs other texts. -/
theorem outline_of_replacements (hall : ∀ op ∈ ops, op.kind = .replace) :
    after.document.outline host.document.nextHandle =
      (host.document.outline host.document.nextHandle).map (replaced m ops) := by
  have hold : ∀ e ∈ host.document.outline host.document.nextHandle, e.original.isSome := by
    simp [outline_nextHandle hh.wellFormed]
  rw [(runOperations_follows hh le_rfl hm hrun).2, editOutlines_eq hold,
    funext (edited_of_replacements _ hall), List.map_eq_flatMap]

/-- Operations leave a host on which others can be run. -/
theorem ready_of_runOperations : after.Ready := by
  let good (mid : Host) : Prop := mid.Ready ∧
    host.document.nextHandle ≤ mid.document.nextHandle ∧
      m.Sound host.document.nextHandle mid.document
  have hstep : ∀ op ∈ ops, ∀ mid next, good mid →
      Flushed (preparation rules snapshot m op) mid next → good next := by
    rintro op - mid next ⟨hmid, hknown, hsound⟩ hflushed
    have hone : (runOperation rules snapshot m 0 op).runOn mid = (.ok (), next) :=
      runOperation_eq_ok_iff.2 hflushed
    obtain ⟨h, hfinds, _, hwork, hflush⟩ := runOperation_eq_ok.1 hone
    obtain ⟨hl, hlow⟩ := hsound op h hfinds.2
    obtain ⟨-, hfollows⟩ := performOperation_follows hmid hl hknown hlow hwork hflush
    exact ⟨hfollows.ready, hknown.trans hfollows.nextHandle, hfollows.sound hsound⟩
  exact ((runOperations_eq_ok_iff.1 hrun).keeps hstep ⟨hh, le_rfl, hm⟩).1

end

section
variable (hd : d.WellFormed) (hm : m.matched = numbered d.passages)
  (hvisible : ∀ op ∈ ops, allBlank op.content.toList = false)
include hd hm hvisible

/-- Replacements by texts that show something make no paragraph blank and leave blank ones alone. -/
theorem allBlank_replaced {p : Passage} (hp : p ∈ d.passages) :
    allBlank (replaced m ops p.entry).text = allBlank p.text.toList := by
  rw [replaced]
  cases hlast : (ops.filter fun op => m.handle? op == p.entry.original).getLast? with
  | none => rfl
  | some op =>
    obtain ⟨hop, hon⟩ := List.mem_filter.1 (List.mem_of_getLast? hlast)
    have hshown : allBlank p.text.toList = false := by
      by_contra hblank
      exact handle?_ne_of_blank hd hm hp (by simpa using hblank) (beq_iff_eq.1 hon)
    rw [hshown, Option.map_some, Option.getD_some, allBlank_map_readBack, hvisible op hop]

/-- After replacements by texts that show something, each piece has the text that they give to its
block. -/
theorem pieces_of_replacements {d' : Document} (rules : Rules)
    (houtline : d'.outline known = (d.outline d.nextHandle).map (replaced m ops)) :
    labelled ((candidates d'.passages).map (Piece.ofPassage rules)) =
      (labelled ((candidates d.passages).map (Piece.ofPassage rules))).map (relabelled ops) := by
  have hpieces : (candidates d'.passages).map (Piece.ofPassage rules) =
      (candidates d.passages).map fun p =>
        ⟨String.ofList (strip (replaced m ops p.entry).text), rules.headingLevel? p.style⟩ := by
    rw [pieces_eq_filterMap_outline rules known, houtline, outline_nextHandle hd,
      List.filterMap_map, List.filterMap_map]
    have hold : ∀ p ∈ d.passages, Entry.piece? rules (replaced m ops p.entry) =
        if allBlank p.text.toList then none else
          some ⟨String.ofList (strip (replaced m ops p.entry).text), rules.headingLevel? p.style⟩ :=
      fun p hp => allBlank_replaced hd hm hvisible hp ▸ rfl
    rw [map_candidates hold]
    refine (filterMap_passages (fun p index => ?_) d).symm
    simp [Entry.piece?, replaced, Passage.entry, Paragraph.passage, Paragraph.text]
  rw [hpieces, labelled_map_candidates, labelled_map_candidates, List.map_map]
  refine List.map_congr_left fun e he => ?_
  have hon : (ops.filter fun op => m.handle? op == e.2.entry.original) =
      ops.filter fun op => op.target == e.1 :=
    List.filter_congr fun op _ => Bool.eq_iff_iff.2 (by
      simpa [Passage.entry] using handle?_eq_iff hd hm he)
  simp only [Function.comp_apply, relabelled, Piece.retexted, newText?, replaced, hon,
    Piece.ofPassage]
  cases (ops.filter fun op => op.target == e.1).getLast? with
  | none => rfl
  | some op => simp [strip_map_readBack]

end

/-- A plan that replaces texts of blocks by texts that show something succeeds with the snapshot of
the document.  Another snapshot then is the same one with these texts: all blocks have their ids,
types and levels, and all sections their ids and levels, and list what they did. -/
theorem replacements_keep_ids (rules : Rules) (epoch newEpoch : String) (hh : host.Ready) :
    ∃ s, (extract rules epoch).runOn host = (.ok s, host) ∧
      ∀ plan : BlockPlan, (∀ op ∈ plan.operations, op.kind = .replace ∧ op.target ∈ s.blockIds ∧
          allBlank op.content.toList = false ∧ isWritable op.content.toList = true) →
        ∃ after, (run rules s plan).runOn host = (.ok (), after) ∧
          (extract rules newEpoch).runOn after =
            (.ok { s.retexted plan.operations with epoch := newEpoch }, after) := by
  refine ⟨_, extract_run rules epoch hh.toAnswers, fun plan hplan => ?_⟩
  rw [← ofPassages_eq_ofPieces] at hplan ⊢
  obtain ⟨m, hrematch, hmatched⟩ := rematch_ofPassages rules epoch hh.toAnswers
  have hmapping : (ofPassages rules epoch host.document.passages).mapping rules
      host.document.passages = .ok m := by
    rw [rematch, runOn_bind, hh.paragraphs] at hrematch
    exact (lift_eq_ok.1 hrematch).1
  have hsound := sound_mapping hh.wellFormed hmapping
  have hfits : ∀ op ∈ plan.operations, op.Fits host.document.styles rules ∧
      ∃ h, m.Finds (ofPassages rules epoch host.document.passages) op h := by
    intro op hop
    obtain ⟨hkind, htarget, -, hw⟩ := hplan op hop
    rw [blockIds, blocks_ofPassages, List.map_map] at htarget
    obtain ⟨e, he, hid⟩ := List.mem_map.1 htarget
    have hid : op.target = e.1 := hid.symm
    have hblock : (ofPassages rules epoch host.document.passages).blocks.lookup op.target =
        some (blockOf rules e.1 e.2) := hid ▸ block?_ofPassages rules epoch he
    exact ⟨by simpa [Operation.Fits, hkind] using hw, e.2.handle, by simp [hblock],
      (handle?_eq_iff hh.wellFormed hmatched he).2 hid⟩
  obtain ⟨after, hrun⟩ := runOperations_of_fits 0 hh le_rfl hsound hfits
  have hready := ready_of_runOperations hh hsound hrun
  have houtline := outline_of_replacements hh hsound hrun fun op hop => (hplan op hop).1
  have hpieces := pieces_of_replacements hh.wellFormed hmatched
    (fun op hop => (hplan op hop).2.2.1) rules houtline
  refine ⟨after, (run_of_rematch hh.isOpen hrematch).trans hrun, ?_⟩
  rw [extract_run rules newEpoch hready.toAnswers, ofPieces_retexted newEpoch hpieces,
    ofPassages_eq_ofPieces]
  rfl

/-- A blank heading, then a line, a heading and a cell that read the same. -/
def planThrice : Document where
  body :=
    .cons (.paragraph ⟨0⟩ "Heading 1" none) (.runOf " ".toList)
      (.cons (.paragraph ⟨1⟩ "Normal" none) (.runOf "Plan".toList)
      (.cons (.paragraph ⟨2⟩ "Heading 2" none) (.runOf " Plan ".toList)
      (.single .table (.single .row (.single .cell
        (.single (.paragraph ⟨3⟩ "Normal" none) (.runOf "Plan".toList)))))))
  nextHandle := 4

/-- All three get another text, the cell two of them. -/
def rewording : BlockPlan :=
  ⟨[⟨.replace, "b3", "soon", ""⟩, ⟨.replace, "b1", " first\r then ", ""⟩,
    ⟨.replace, "b2", "Aims", ""⟩, ⟨.replace, "b3", "by\tMay", ""⟩]⟩

theorem replacements_keep_ids_rewording :
    ∃ after, (run .standard (ofPassages .standard "then" planThrice.passages) rewording).runOn
        { document := planThrice } = (.ok (), after) ∧
      (extract .standard "now").runOn after = (.ok {
        sections := [⟨.str "s1", .str "Introduction", 1, [.str "b1"]⟩,
          ⟨.str "s2", .str "Aims", 2, [.str "b2", .str "b3"]⟩]
        blocks := [("b1", ⟨.str "b1", .str "paragraph", .str "first\n then", .null⟩),
          ("b2", ⟨.str "b2", .str "heading", .str "Aims", .int 2⟩),
          ("b3", ⟨.str "b3", .str "paragraph", .str "by\tMay", .null⟩)]
        epoch := "now" }, after) := by
  have hready : Host.Ready { document := planThrice } := ⟨⟨rfl, rfl⟩, rfl, by decide⟩
  obtain ⟨s, hextract, hall⟩ := replacements_keep_ids .standard "then" "now" hready
  have htaken := extract_run .standard "then" hready.toAnswers
  rw [← ofPassages_eq_ofPieces] at htaken
  obtain rfl : s = ofPassages .standard "then" planThrice.passages :=
    Except.ok.inj (Prod.mk.inj (hextract.symm.trans htaken)).1
  obtain ⟨after, hrun, hagain⟩ := hall rewording (by decide)
  exact ⟨after, hrun, hagain.trans (by rfl)⟩

end Snapshot

end Redline
