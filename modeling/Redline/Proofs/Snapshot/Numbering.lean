import Std.Data.String.ToNat
import Redline.Proofs.Text.Strip
import Redline.Snapshot.Rematch

/-!
# What a snapshot holds

The blocks of a snapshot are the paragraphs that are not blank, numbered in document order, and its
sections list all of them in this order.  The written form of a snapshot keeps everything but the
epoch.

## Main definitions

* `Snapshot.blockId` — the id of the block with a given position.
* `Snapshot.blockOf` — the block of a paragraph.
* `Snapshot.numbered` — the paragraphs that are not blank, under the ids of their blocks.
-/

namespace Redline.Snapshot

open Redline.Text

variable {rules : Rules} {passages : List Passage}

/-- The id of the block with the given position; ids count from one. -/
def blockId (position : Nat) : String := s!"b{position + 1}"

/-- The block of a paragraph. -/
def blockOf (rules : Rules) (id : String) (p : Passage) : Block :=
  match rules.headingLevel? p.style with
  | some level => ⟨.str id, .str "heading", .str (trimmed p.text), .int level⟩
  | none => ⟨.str id, .str "paragraph", .str (trimmed p.text), .null⟩

/-- Paragraphs under the ids of their blocks, the first one at the given position. -/
def numberedFrom (position : Nat) : List Passage → List (String × Passage)
  | [] => []
  | p :: rest => (blockId position, p) :: numberedFrom (position + 1) rest

/-- The paragraphs that are not blank, under the ids of their blocks. -/
def numbered (passages : List Passage) : List (String × Passage) :=
  numberedFrom 0 (candidates passages)

/-! ## Ids -/

theorem blockId_injective : Function.Injective blockId := by
  intro m n h
  have hrepr : Nat.repr (m + 1) = Nat.repr (n + 1) := by simpa [blockId] using h
  simpa using congrArg String.toNat? hrepr

theorem mem_ids_numberedFrom {id : String} {position : Nat} {passages : List Passage}
    (h : id ∈ (numberedFrom position passages).map (·.1)) : ∃ k ≥ position, id = blockId k := by
  induction passages generalizing position with
  | nil => simp [numberedFrom] at h
  | cons p rest ih =>
    rw [numberedFrom, List.map_cons] at h
    rcases List.mem_cons.1 h with rfl | h
    · exact ⟨position, le_rfl, rfl⟩
    · obtain ⟨k, hk, hid⟩ := ih h
      exact ⟨k, by omega, hid⟩

/-- No two blocks of a snapshot have one id. -/
theorem nodup_ids_numberedFrom (position : Nat) (passages : List Passage) :
    ((numberedFrom position passages).map (·.1)).Nodup := by
  induction passages generalizing position with
  | nil => exact List.nodup_nil
  | cons p rest ih =>
    rw [numberedFrom, List.map_cons, List.nodup_cons]
    refine ⟨fun h => ?_, ih (position + 1)⟩
    obtain ⟨k, hk, hid⟩ := mem_ids_numberedFrom h
    have := blockId_injective hid
    omega

theorem map_snd_numberedFrom (position : Nat) (passages : List Passage) :
    (numberedFrom position passages).map (·.2) = passages := by
  induction passages generalizing position with
  | nil => rfl
  | cons p rest ih => rw [numberedFrom, List.map_cons, ih]

/-- The id of number `k` belongs to the `k`-th paragraph. -/
theorem lookup_numberedFrom (position k : Nat) (passages : List Passage) :
    (numberedFrom position passages).lookup (blockId (position + k)) = passages[k]? := by
  induction passages generalizing position k with
  | nil => rfl
  | cons p rest ih =>
    rw [numberedFrom]
    cases k with
    | zero => simp
    | succ k =>
      have hne : (blockId (position + (k + 1)) == blockId position) = false :=
        beq_eq_false_iff_ne.2 fun h => by
          have := blockId_injective h
          omega
      have hnext : position + (k + 1) = position + 1 + k := by omega
      rw [List.lookup_cons, hne, List.getElem?_cons_succ, ← ih (position + 1) k, hnext]

/-! ## Taking a snapshot -/

namespace Draft

/-- The ids that the sections of a draft list, in order. -/
def listed (d : Draft) : List Json := d.sections.flatMap (·.blocks)

theorem flatMap_addToLast {id : Json} {sections : List Section} (hs : sections ≠ []) :
    (addToLast id sections).flatMap (·.blocks) = sections.flatMap (·.blocks) ++ [id] := by
  induction sections with
  | nil => exact absurd rfl hs
  | cons s rest ih =>
    cases rest with
    | nil => simp [addToLast]
    | cons t rest => simp [addToLast, ih]

theorem listed_addParagraph (text : String) (d : Draft) :
    (d.addParagraph text).listed = d.listed ++ [.str (blockId d.blocks.length)] := by
  by_cases hs : d.sections = []
  · simp [addParagraph, listed, hs, nextBlock, blockId]
  · simp [addParagraph, listed, hs, flatMap_addToLast, nextBlock, blockId]

theorem add_of_blank {d : Draft} {p : Passage} (hp : allBlank p.text.toList = true) :
    d.add rules p = d := by
  simp [add, isEmpty_trimmed, hp]

/-- A paragraph that is not blank gets the next id. -/
theorem add_of_not_blank {d : Draft} {p : Passage} (hp : allBlank p.text.toList = false) :
    (d.add rules p).blocks =
        d.blocks ++ [(blockId d.blocks.length, blockOf rules (blockId d.blocks.length) p)] ∧
      (d.add rules p).listed = d.listed ++ [.str (blockId d.blocks.length)] := by
  rw [add, isEmpty_trimmed, hp]
  cases hl : rules.headingLevel? p.style with
  | some level => simp [addHeading, listed, blockOf, hl, nextBlock, blockId]
  | none =>
    refine ⟨?_, listed_addParagraph _ _⟩
    simp [addParagraph, blockOf, hl, nextBlock, blockId]

/-- What a draft holds when more paragraphs have been added. -/
theorem foldl_add (rules : Rules) (passages : List Passage) (d : Draft) :
    (passages.foldl (add rules) d).blocks =
        d.blocks ++ (numberedFrom d.blocks.length (candidates passages)).map
          (fun e => (e.1, blockOf rules e.1 e.2)) ∧
      (passages.foldl (add rules) d).listed =
        d.listed ++ (numberedFrom d.blocks.length (candidates passages)).map
          (fun e => .str e.1) := by
  induction passages generalizing d with
  | nil => simp [candidates, numberedFrom]
  | cons p rest ih =>
    obtain ⟨hblocks, hlisted⟩ := ih (d.add rules p)
    rw [List.foldl_cons, hblocks, hlisted]
    by_cases hp : allBlank p.text.toList = true
    · have hc : candidates (p :: rest) = candidates rest := by simp [candidates, hp]
      simp [add_of_blank hp, hc]
    · have hp : allBlank p.text.toList = false := by simpa using hp
      have hc : candidates (p :: rest) = p :: candidates rest := by simp [candidates, hp]
      obtain ⟨hb, hl⟩ := @add_of_not_blank rules d p hp
      simp [hb, hl, hc, numberedFrom]

end Draft

/-- The blocks of a snapshot are the paragraphs that are not blank, in document order. -/
theorem blocks_ofPassages (rules : Rules) (epoch : String) (passages : List Passage) :
    (ofPassages rules epoch passages).blocks =
      (numbered passages).map fun e => (e.1, blockOf rules e.1 e.2) := by
  simpa [ofPassages, numbered] using (Draft.foldl_add rules passages {}).1

/-- The sections of a snapshot list every block, in document order. -/
theorem listedIds_ofPassages (rules : Rules) (epoch : String) (passages : List Passage) :
    (ofPassages rules epoch passages).listedIds = (numbered passages).map fun e => .str e.1 := by
  simpa [ofPassages, numbered, listedIds, Draft.listed] using
    (Draft.foldl_add rules passages {}).2

/-- What is found under a key that only one entry has. -/
theorem lookup_of_mem {α : Type} {l : List (String × α)} (hn : (l.map (·.1)).Nodup)
    {e : String × α} (he : e ∈ l) : l.lookup e.1 = some e.2 := by
  induction l with
  | nil => simp at he
  | cons first rest ih =>
    obtain ⟨hfirst, hrest⟩ := List.nodup_cons.1 hn
    rw [List.lookup_cons]
    rcases List.mem_cons.1 he with rfl | he
    · simp
    · have hne : (e.1 == first.1) = false :=
        beq_eq_false_iff_ne.2 fun h => hfirst (List.mem_map.2 ⟨e, he, h⟩)
      rw [hne]
      exact ih hrest he

/-- The block of an id that a snapshot has given. -/
theorem block?_ofPassages (rules : Rules) (epoch : String) {passages : List Passage}
    {e : String × Passage} (he : e ∈ numbered passages) :
    (ofPassages rules epoch passages).block? (.str e.1) = some (blockOf rules e.1 e.2) := by
  have hids : ((ofPassages rules epoch passages).blocks.map (·.1)).Nodup := by
    rw [blocks_ofPassages, List.map_map]
    exact nodup_ids_numberedFrom 0 (candidates passages)
  have hblock : (e.1, blockOf rules e.1 e.2) ∈ (ofPassages rules epoch passages).blocks := by
    rw [blocks_ofPassages]
    exact List.mem_map_of_mem (f := fun e => (e.1, blockOf rules e.1 e.2)) he
  exact lookup_of_mem hids hblock

/-! ## The written form -/

theorem elementsOf_arr (items : List Json) : elementsOf (some (.arr items)) = .ok items := by
  cases items <;> rfl

theorem fieldsOr_obj (fields : Json.Fields) : fieldsOr (some (.obj fields)) = .ok fields := by
  cases fields <;> rfl

theorem readSection_toJson (s : Section) : readSection s.toJson = .ok s := by
  have hblocks : s.toJson.get? "blocks" = some (.arr s.blocks) := rfl
  have hlevel : fieldOr s.toJson "level" (.int 1) = .int s.level := rfl
  rw [readSection, hblocks, hlevel, elementsOf_arr]
  rfl

theorem readSections_toJson (sections : List Section) :
    (sections.map Section.toJson).mapM readSection = .ok sections := by
  induction sections with
  | nil => rfl
  | cons s rest ih =>
    rw [List.map_cons, List.mapM_cons, readSection_toJson, ih]
    rfl

/-- A level that is left out reads as nothing. -/
theorem readBlock_toJson (key : String) (b : Block) : readBlock key b.toJson = .ok b := by
  obtain ⟨id, type, text, level⟩ := b
  cases level <;> rfl

theorem readBlocks_toJson (blocks : List (String × Block)) :
    readBlocks (blocks.map fun e => (e.1, e.2.toJson)) = .ok blocks := by
  induction blocks with
  | nil => rfl
  | cons e rest ih =>
    rw [List.map_cons, readBlocks, readBlock_toJson, ih]
    rfl

/-- A snapshot that is written and read again is the same one under another epoch. -/
theorem ofJson_toJson (newEpoch : String) (s : Snapshot) :
    ofJson newEpoch s.toJson = .ok { s with epoch := newEpoch } := by
  have hsections : s.toJson.member "sections" =
      .ok (some (.arr (s.sections.map Section.toJson))) := rfl
  have hblocks : s.toJson.member "blocks" =
      .ok (some (.obj (s.blocks.map fun e => (e.1, e.2.toJson)))) := rfl
  rw [ofJson, hsections, hblocks]
  simp only [bind, Except.bind, elementsOf_arr, fieldsOr_obj, readSections_toJson,
    readBlocks_toJson]
  rfl

end Redline.Snapshot
