import Mathlib.Data.List.Nodup
import Redline.Proofs.Snapshot.RoundTrip

/-!
# A snapshot is a partition

The blocks of a snapshot are numbered in document order, and its sections, one behind the other,
list each of them once.  Headings stand in front of their sections and nowhere else, and only the
first section can do without one.

## Main definitions

* `Snapshot.Made` — how a section of a snapshot is made.
* `Snapshot.Partitions` — what a snapshot says of the paragraphs that it was taken of.
-/

namespace Redline.Snapshot

variable {rules : Rules} {epoch : String} {s : Snapshot} {pieces : List Piece}
  {labels group : List (String × Piece)} {e : String × Piece} {position : Nat} {host : Host}

/-- An id of a block that is no heading. -/
def IsParagraph (s : Snapshot) (id : Json) : Prop :=
  ∃ text, s.block? id = some ⟨id, .str "paragraph", text, .null⟩

/-- How the section with the given position is made.  A section has a heading in front of what else
it lists, and that heading's title and level; the first one may be an introduction instead. -/
inductive Made (s : Snapshot) (position : Nat) : Section → Prop
  | headed {first : Json} {rest : List Json} {title : Json} {level : Int}
      (hfirst : s.block? first = some ⟨first, .str "heading", title, .int level⟩)
      (hrest : ∀ id ∈ rest, s.IsParagraph id) :
      Made s position ⟨.str (sectionId position), title, level, first :: rest⟩
  | introduction {first : Json} {rest : List Json} (hfront : position = 0)
      (hall : ∀ id ∈ first :: rest, s.IsParagraph id) :
      Made s position ⟨.str (sectionId position), .str introductionTitle, 1, first :: rest⟩

/-- A snapshot partitions the paragraphs that it shows. -/
structure Partitions (rules : Rules) (shown : List Passage) (s : Snapshot) : Prop where
  /-- The blocks are the paragraphs, numbered in order, with trimmed texts. -/
  blocks : s.blocks = shown.mapIdx fun k p => (blockId k, blockOf rules (blockId k) p)
  /-- Headings are the paragraphs whose style has a level. -/
  heading_iff : ∀ k p, shown[k]? = some p → ∀ level,
    (∃ b, s.block? (.str (blockId k)) = some b ∧ b.type = .str "heading" ∧ b.level = .int level) ↔
      rules.headingLevel? p.style = some level
  /-- One behind the other, the sections list all blocks in order. -/
  listed : s.listedIds = (List.range shown.length).map fun k => .str (blockId k)
  /-- No block belongs to two sections. -/
  once : ∀ k < shown.length, ∃! j : Nat, ∃ x : Section, s.sections[j]? = some x ∧
    Json.str (blockId k) ∈ x.blocks
  made : ∀ (j : Nat) (x : Section), s.sections[j]? = some x → s.Made j x
  /-- There is an introduction if the first paragraph is no heading. -/
  introduced :
    (∃ ids, s.sections[0]? = some ⟨.str (sectionId 0), .str introductionTitle, 1, ids⟩ ∧
      ∀ id ∈ ids, s.IsParagraph id) ↔
    ∃ p, shown.head? = some p ∧ rules.headingLevel? p.style = none

/-! ## Blocks -/

theorem getElem?_labelled (k : Nat) :
    (labelled pieces)[k]? = pieces[k]?.map fun p => (blockId k, p) := by
  rw [labelled, List.getElem?_mapIdx]

theorem ids_labelled (pieces : List Piece) :
    (labelled pieces).map (·.1) = (List.range pieces.length).map blockId := by
  refine List.ext_getElem? fun k => ?_
  rw [List.getElem?_map, getElem?_labelled, List.getElem?_map]
  by_cases hk : k < pieces.length
  · simp [hk]
  · simp [hk]

theorem nodup_ids_labelled (pieces : List Piece) : ((labelled pieces).map (·.1)).Nodup := by
  rw [ids_labelled]
  exact List.nodup_range.map blockId_injective

/-- The block of an id is that of the piece with this id. -/
theorem block?_ofPieces (epoch : String) (he : e ∈ labelled pieces) :
    (ofPieces epoch pieces).block? (.str e.1) = some (e.2.block e.1) := by
  have hids : ((ofPieces epoch pieces).blocks.map (·.1)).Nodup := by
    rw [ofPieces, List.map_map]
    exact nodup_ids_labelled pieces
  exact lookup_of_mem hids (List.mem_map_of_mem (f := fun e => (e.1, e.2.block e.1)) he)

theorem block_of_level {level : Int} (hlevel : e.2.level = some level) :
    e.2.block e.1 = ⟨.str e.1, .str "heading", .str e.2.text, .int level⟩ := by
  rw [Piece.block, hlevel]

theorem isParagraph_ofPieces (epoch : String) (he : e ∈ labelled pieces)
    (hlevel : e.2.isHeading = false) :
    (ofPieces epoch pieces).IsParagraph (.str e.1) := by
  have hnone : e.2.level = none := by simpa [Piece.isHeading] using hlevel
  refine ⟨.str e.2.text, ?_⟩
  rw [block?_ofPieces epoch he, Piece.block, hnone]

/-! ## Groups -/

/-- Behind the first piece of a group there is no heading. -/
theorem isHeading_of_mem_tail (hg : group ∈ groups labels) (he : e ∈ group.tail) :
    e.2.isHeading = false := by
  have hchain := List.isChain_of_mem_splitBy hg
  rw [List.isChain_iff_getElem] at hchain
  obtain ⟨i, hi, rfl⟩ := List.mem_iff_getElem.1 he
  rw [List.length_tail] at hi
  simpa using hchain i (by omega)

/-- Every group but the first begins with a heading. -/
theorem head_of_groups_succ (hg : (groups labels)[position + 1]? = some group) :
    ∃ e rest, group = e :: rest ∧ e.2.isHeading = true := by
  have hchain := List.isChain_getLast_head_splitBy (fun _ e => !e.2.isHeading) labels
  rw [List.isChain_iff_getElem] at hchain
  obtain ⟨hlt, hget⟩ := List.getElem?_eq_some_iff.1 hg
  obtain ⟨_, hne, hheading⟩ := hchain position hlt
  have hgroup : (labels.splitBy fun _ e => !e.2.isHeading)[position + 1] = group := hget
  simp only [hgroup] at hne hheading
  obtain ⟨e, rest, rfl⟩ := List.exists_cons_of_ne_nil hne
  exact ⟨e, rest, rfl, by simpa using hheading⟩

/-- The first group begins as the pieces do. -/
theorem head?_of_groups_zero (hg : (groups labels)[0]? = some group) :
    group.head? = labels.head? := by
  have hflat : (groups labels).flatten = labels := List.flatten_splitBy _ _
  have hne : group ≠ [] := List.ne_nil_of_mem_splitBy (List.mem_of_getElem? hg)
  rw [← hflat]
  cases hgroups : groups labels with
  | nil => simp [hgroups] at hg
  | cons first rest =>
    obtain rfl : first = group := by simpa [hgroups] using hg
    rw [List.flatten_cons, List.head?_append_of_ne_nil _ hne]

/-! ## Sections -/

theorem sectionOf_heading {rest : List (String × Piece)} {level : Int}
    (hlevel : e.2.level = some level) :
    sectionOf position (e :: rest) =
      ⟨.str (sectionId position), .str e.2.text, level,
        .str e.1 :: rest.map fun e => .str e.1⟩ := by
  simp [sectionOf, hlevel]

theorem sectionOf_introduction {rest : List (String × Piece)} (hlevel : e.2.level = none) :
    sectionOf position (e :: rest) =
      ⟨.str (sectionId position), .str introductionTitle, 1,
        .str e.1 :: rest.map fun e => .str e.1⟩ := by
  simp [sectionOf, hlevel]

theorem mem_of_mem_groups (hg : group ∈ groups labels) (he : e ∈ group) : e ∈ labels := by
  rw [← List.flatten_splitBy (fun _ e => !e.2.isHeading) labels]
  exact List.mem_flatten_of_mem hg he

/-- The ids behind the first one of a group are those of paragraphs. -/
theorem isParagraph_of_mem_tail (epoch : String) (hg : group ∈ groups (labelled pieces)) :
    ∀ id ∈ group.tail.map fun e => Json.str e.1, (ofPieces epoch pieces).IsParagraph id := by
  intro id hid
  obtain ⟨e, he, rfl⟩ := List.mem_map.1 hid
  exact isParagraph_ofPieces epoch (mem_of_mem_groups hg (List.mem_of_mem_tail he))
    (isHeading_of_mem_tail hg he)

/-- The section of a group has a heading in front, or it is the introduction. -/
theorem made_sectionOf (hg : (groups (labelled pieces))[position]? = some group) :
    (ofPieces epoch pieces).Made position (sectionOf position group) := by
  have hmem := List.mem_of_getElem? hg
  have htail := isParagraph_of_mem_tail epoch hmem
  obtain ⟨e, rest, rfl⟩ := List.exists_cons_of_ne_nil (List.ne_nil_of_mem_splitBy hmem)
  have he : e ∈ labelled pieces := mem_of_mem_groups hmem List.mem_cons_self
  have hblock := block?_ofPieces epoch he
  cases hlevel : e.2.level with
  | some level =>
    rw [sectionOf_heading hlevel]
    rw [block_of_level hlevel] at hblock
    exact .headed hblock htail
  | none =>
    have hplain : e.2.isHeading = false := by simp [Piece.isHeading, hlevel]
    have hfront : position = 0 := by
      cases position with
      | zero => rfl
      | succ n =>
        obtain ⟨x, xs, hx, hheading⟩ := head_of_groups_succ hg
        obtain ⟨rfl, -⟩ := List.cons.inj hx
        exact absurd hheading (by simp [hplain])
    rw [sectionOf_introduction hlevel]
    exact .introduction hfront
      (List.forall_mem_cons.2 ⟨isParagraph_ofPieces epoch he hplain, htail⟩)

/-- An introduction comes first if the first piece is no heading. -/
theorem introduced_ofPieces (epoch : String) (pieces : List Piece) :
    (∃ ids, (ofPieces epoch pieces).sections[0]? =
        some ⟨.str (sectionId 0), .str introductionTitle, 1, ids⟩ ∧
      ∀ id ∈ ids, (ofPieces epoch pieces).IsParagraph id) ↔
    ∃ p, pieces.head? = some p ∧ p.level = none := by
  have hsections : (ofPieces epoch pieces).sections[0]? =
      (groups (labelled pieces))[0]?.map (sectionOf 0) := by
    rw [ofPieces, List.getElem?_mapIdx]
  have hhead : (labelled pieces).head? = pieces.head?.map fun p => (blockId 0, p) := by
    rw [List.head?_eq_getElem?, List.head?_eq_getElem?, getElem?_labelled]
  rw [hsections]
  constructor
  · rintro ⟨ids, hsection, hids⟩
    obtain ⟨group, hg, hgroup⟩ := Option.map_eq_some_iff.1 hsection
    have hfirst := head?_of_groups_zero hg
    obtain ⟨e, rest, rfl⟩ := List.exists_cons_of_ne_nil
      (List.ne_nil_of_mem_splitBy (List.mem_of_getElem? hg))
    rw [hhead] at hfirst
    obtain ⟨p, hp, rfl⟩ := Option.map_eq_some_iff.1 hfirst.symm
    refine ⟨p, hp, ?_⟩
    -- The block of a heading is no paragraph.
    cases hlevel : p.level with
    | none => rfl
    | some level =>
      have hmem := mem_of_mem_groups (List.mem_of_getElem? hg) List.mem_cons_self
      have hblock := block?_ofPieces epoch hmem
      rw [block_of_level hlevel] at hblock
      rw [sectionOf_heading hlevel] at hgroup
      obtain ⟨-, -, -, rfl⟩ := Section.mk.inj hgroup
      obtain ⟨text, hparagraph⟩ := hids (.str (blockId 0)) List.mem_cons_self
      rw [hblock] at hparagraph
      simp at hparagraph
  · rintro ⟨p, hp, hlevel⟩
    cases hg : (groups (labelled pieces))[0]? with
    | none =>
      have hnil : labelled pieces = [] := by simpa [groups] using hg
      rw [hnil, hp] at hhead
      cases hhead
    | some group =>
      have hfirst := head?_of_groups_zero hg
      have hmem := List.mem_of_getElem? hg
      rw [hhead, hp] at hfirst
      obtain ⟨rest, rfl⟩ : ∃ rest, group = (blockId 0, p) :: rest := by
        cases group with
        | nil => cases hfirst
        | cons e rest => exact ⟨rest, by rw [Option.some.inj hfirst]⟩
      refine ⟨_, congrArg some (sectionOf_introduction hlevel), ?_⟩
      refine List.forall_mem_cons.2 ⟨isParagraph_ofPieces epoch (mem_of_mem_groups hmem
        List.mem_cons_self) (by simp [Piece.isHeading, hlevel]),
          isParagraph_of_mem_tail epoch hmem⟩

/-- What is listed once belongs to one section. -/
theorem existsUnique_section (hn : s.listedIds.Nodup) {id : Json} (hid : id ∈ s.listedIds) :
    ∃! j : Nat, ∃ x : Section, s.sections[j]? = some x ∧ id ∈ x.blocks := by
  obtain ⟨x, hx, hidx⟩ := List.mem_flatMap.1 hid
  obtain ⟨j, hj⟩ := List.mem_iff_getElem?.1 hx
  refine ⟨j, ⟨x, hj, hidx⟩, ?_⟩
  rintro k ⟨y, hk, hidy⟩
  have hapart := (List.nodup_flatMap.1 hn).2
  rw [List.pairwise_iff_getElem] at hapart
  obtain ⟨hjlt, rfl⟩ := List.getElem?_eq_some_iff.1 hj
  obtain ⟨hklt, rfl⟩ := List.getElem?_eq_some_iff.1 hk
  by_contra hne
  rcases Nat.lt_or_gt_of_ne hne with hlt | hlt
  · exact hapart k j hklt hjlt hlt hidy hidx
  · exact hapart j k hjlt hklt hlt hidx hidy

theorem listedIds_ofPieces (epoch : String) (pieces : List Piece) :
    (ofPieces epoch pieces).listedIds =
      (List.range pieces.length).map fun k => .str (blockId k) := by
  have hblocks : ∀ (position : Nat) (group : List (String × Piece)),
      (sectionOf position group).blocks = group.map fun e => .str e.1 := by
    intro position group
    simp only [sectionOf]
    split <;> rfl
  have hmap : ((groups (labelled pieces)).mapIdx sectionOf).map (·.blocks) =
      (groups (labelled pieces)).map fun group => group.map fun e => Json.str e.1 := by
    refine List.ext_getElem? fun k => ?_
    simp only [List.getElem?_map, List.getElem?_mapIdx, Option.map_map, Function.comp_def, hblocks]
  have hflat : (groups (labelled pieces)).flatten = labelled pieces := List.flatten_splitBy _ _
  calc (ofPieces epoch pieces).listedIds
      = ((groups (labelled pieces)).map fun group => group.map fun e => Json.str e.1).flatten := by
        rw [listedIds, ofPieces, List.flatMap_def, hmap]
    _ = (labelled pieces).map fun e => Json.str e.1 := by rw [← List.map_flatten, hflat]
    _ = ((labelled pieces).map (·.1)).map Json.str := by rw [List.map_map]; rfl
    _ = (List.range pieces.length).map fun k => .str (blockId k) := by
        rw [ids_labelled, List.map_map]; rfl

/-! ## Taking a snapshot -/

theorem block_ofPassage (rules : Rules) (id : String) (p : Passage) :
    (Piece.ofPassage rules p).block id = blockOf rules id p := by
  cases hl : rules.headingLevel? p.style <;> simp [Piece.block, Piece.ofPassage, blockOf, hl]

theorem heading_iff_blockOf {id : String} {p : Passage} {level : Int} :
    (∃ b, some (blockOf rules id p) = some b ∧ b.type = .str "heading" ∧ b.level = .int level) ↔
      rules.headingLevel? p.style = some level := by
  cases hl : rules.headingLevel? p.style <;> simp [blockOf, hl]

/-- The snapshot of pieces partitions the paragraphs that they are pieces of. -/
theorem partitions_ofPieces (rules : Rules) (epoch : String) (shown : List Passage) :
    (ofPieces epoch (shown.map (Piece.ofPassage rules))).Partitions rules shown := by
  have hlength : (shown.map (Piece.ofPassage rules)).length = shown.length := List.length_map _
  have hlisted := listedIds_ofPieces epoch (shown.map (Piece.ofPassage rules))
  rw [hlength] at hlisted
  constructor
  case blocks =>
    refine List.ext_getElem? fun k => ?_
    rw [ofPieces, List.getElem?_map, getElem?_labelled, List.getElem?_map, List.getElem?_mapIdx]
    cases shown[k]? with
    | none => rfl
    | some p => simp [block_ofPassage]
  case heading_iff =>
    intro k p hp level
    have hmem : (blockId k, Piece.ofPassage rules p) ∈
        labelled (shown.map (Piece.ofPassage rules)) := by
      refine List.mem_of_getElem? (i := k) ?_
      rw [getElem?_labelled, List.getElem?_map, hp]
      rfl
    rw [block?_ofPieces epoch hmem, block_ofPassage]
    exact heading_iff_blockOf
  case listed => exact hlisted
  case once =>
    intro k hk
    have hinj : Function.Injective fun k => Json.str (blockId k) := fun i j h =>
      blockId_injective (Json.str.inj h)
    refine existsUnique_section ?_ ?_
    · rw [hlisted]
      exact List.nodup_range.map hinj
    · rw [hlisted]
      exact List.mem_map_of_mem (List.mem_range.2 hk)
  case made =>
    intro j x hx
    rw [ofPieces, List.getElem?_mapIdx] at hx
    obtain ⟨group, hg, rfl⟩ := Option.map_eq_some_iff.1 hx
    exact made_sectionOf hg
  case introduced =>
    rw [introduced_ofPieces, List.head?_map]
    simp [Piece.ofPassage]

/-- The snapshot that is taken of a document partitions the paragraphs that are not blank. -/
theorem extract_partitions (rules : Rules) (epoch : String) (ha : host.Answers) :
    ∃ s, (extract rules epoch).runOn host = (.ok s, host) ∧
      s.Partitions rules (candidates host.document.passages) :=
  ⟨_, extract_run rules epoch ha, partitions_ofPieces rules epoch _⟩

theorem extract_partitions_page :
    ∃ s, (extract .standard "one").runOn { document := page } = (.ok s, { document := page }) ∧
      s.Partitions .standard (candidates page.passages) ∧
      s.listedIds = [.str "b1", .str "b2", .str "b3"] := by
  obtain ⟨s, hrun, hs⟩ := extract_partitions .standard "one" ready_page.toAnswers
  refine ⟨s, hrun, hs, ?_⟩
  have hlength : (candidates page.passages).length = 3 := by decide
  rw [hs.listed, hlength]
  rfl

end Redline.Snapshot
