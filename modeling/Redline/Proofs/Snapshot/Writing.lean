import Mathlib.Data.Set.List
import Redline.Proofs.Snapshot.RoundTrip

/-!
# Writing and reading a snapshot

A snapshot goes out to a planner and comes back with the plan.  What is written is read back as it
was: the reader fills in what may be missing and takes texts and objects for lists, but the writer
leaves nothing missing except levels that are nothing, and those are read as nothing again.  So
reading is a normalisation: what was read once, written and read again, stays as it is.

## Main results

* `Snapshot.ofJson_fields_append` — reading the fields of a snapshot with others behind them.
* `Snapshot.orderedBlocks_of_texts` — sections that list texts have their blocks in order.
* `Snapshot.normalised_normalised` — what reading normalised once is normal.
* `Snapshot.writing_reads_back` — snapshots survive being written.
-/

namespace Redline.Snapshot

/-- What reading makes of a value: the written form of the snapshot that was read. -/
def normalised (newEpoch : String) (value : Json) : Except Fault Json :=
  (ofJson newEpoch value).map toJson

/-- The epoch that is read from a field; a value that does not count as given is none. -/
def epochOr (newEpoch : String) (value : Json) : Except Fault String :=
  if value.isTruthy then value.display else .ok newEpoch

/-! ## Reading what was written -/

theorem epochOr_str {epoch : String} (h : epoch ≠ "") (newEpoch : String) :
    epochOr newEpoch (.str epoch) = .ok epoch := by
  have hgiven : (Json.str epoch).isTruthy = true := by simpa [Json.isTruthy] using h
  rw [epochOr, if_pos hgiven]
  rfl

/-- A snapshot is read from its fields whatever comes behind them; only the epoch is taken from
there. -/
theorem ofJson_fields_append (newEpoch : String) (s : Snapshot) (others : Json.Fields) :
    ofJson newEpoch (.obj (s.fields ++ others)) =
      (epochOr newEpoch ((Json.obj others).getD "epoch")).map fun epoch => { s with epoch } := by
  have hsections : (Json.obj (s.fields ++ others)).member "sections" =
      .ok (some (.arr (s.sections.map Section.toJson))) := rfl
  have hblocks : (Json.obj (s.fields ++ others)).member "blocks" =
      .ok (some (.obj (s.blocks.map fun e => (e.1, e.2.toJson)))) := rfl
  -- neither of the snapshot's own fields is an epoch
  have hepoch : (Json.obj (s.fields ++ others)).getD "epoch" = (Json.obj others).getD "epoch" := rfl
  rw [ofJson, hsections, hblocks]
  simp only [bind, Except.bind, elementsOf_arr, fieldsOr_obj, readSections_toJson,
    readBlocks_toJson, hepoch]
  rw [epochOr]
  by_cases hgiven : ((Json.obj others).getD "epoch").isTruthy = true
  · rw [if_pos hgiven, if_pos hgiven]
    cases ((Json.obj others).getD "epoch").display <;> rfl
  · rw [if_neg hgiven, if_neg hgiven]
    rfl

/-- A snapshot that is written with its epoch and read again is the same one. -/
theorem ofJson_toJsonWithEpoch (newEpoch : String) {s : Snapshot} (h : s.epoch ≠ "") :
    ofJson newEpoch s.toJsonWithEpoch = .ok s := by
  have hepoch : (Json.obj [("epoch", .str s.epoch)]).getD "epoch" = .str s.epoch := rfl
  rw [toJsonWithEpoch, ofJson_fields_append, hepoch, epochOr_str h, Except.map]

/-! ## Normal forms -/

/-- What reading normalised once is normal: it is accepted, and stays as it is. -/
theorem normalised_normalised {epoch : String} {value written : Json}
    (h : normalised epoch value = .ok written) (newEpoch : String) :
    normalised newEpoch written = .ok written := by
  cases hread : ofJson epoch value with
  | error fault => simp [normalised, hread, Except.map] at h
  | ok s =>
    have hwritten : s.toJson = written := by simpa [normalised, hread, Except.map] using h
    rw [← hwritten, normalised, ofJson_toJson]
    rfl

/-! ## The blocks in order -/

/-- When the sections list texts only, their blocks are found, in order. -/
theorem orderedBlocks_of_texts {s : Snapshot} (h : ∀ id ∈ s.listedIds, ∃ key, id = .str key) :
    s.orderedBlocks = .ok (s.listedIds.filterMap s.block?) := by
  have hrange : s.listedIds ∈ Set.range (List.map Json.str) := by
    rw [Set.range_list_map]
    intro id hid
    obtain ⟨key, hkey⟩ := h id hid
    exact ⟨key, hkey.symm⟩
  obtain ⟨keys, hkeys⟩ := hrange
  have hchecked : s.listedIds.forM checkId = .ok () := by rw [← hkeys, forM_checkId]
  rw [orderedBlocks, hchecked]
  rfl

/-! ## Snapshots survive being written -/

/-- A snapshot that has an epoch is read back from its written form as it was, its sections, its
blocks in their order, and its epoch.  And whatever value a snapshot was read from: its written
form without the epoch is accepted again, and gives a snapshot with the same written form, the
same ids in the same order and, when the sections list texts only, the same blocks in the order of
the sections. -/
theorem writing_reads_back :
    (∀ (newEpoch : String) (s : Snapshot), s.epoch ≠ "" →
      ofJson newEpoch s.toJsonWithEpoch = .ok s) ∧
    ∀ (epoch newEpoch : String) (value : Json) (s : Snapshot), ofJson epoch value = .ok s →
      (∀ id ∈ s.listedIds, ∃ key, id = .str key) →
      ∃ again, ofJson newEpoch s.toJson = .ok again ∧ again.toJson = s.toJson ∧
        again.blockIds = s.blockIds ∧
        ∃ blocks, s.orderedBlocks = .ok blocks ∧ again.orderedBlocks = .ok blocks := by
  refine ⟨fun newEpoch s => ofJson_toJsonWithEpoch newEpoch, ?_⟩
  intro epoch newEpoch value s _ htexts
  refine ⟨{ s with epoch := newEpoch }, ofJson_toJson newEpoch s, rfl, rfl, _,
    orderedBlocks_of_texts htexts, ?_⟩
  -- the epoch takes no part in looking a block up
  exact orderedBlocks_of_texts (s := { s with epoch := newEpoch }) htexts

/-- A snapshot as a careless planner sends it back: a section without a title whose blocks are
given as one text, one whose level is a text, one without blocks, and a block that stands under
another key than its id. -/
def careless : Json :=
  .obj [("sections", .arr [
      .obj [("id", .str "s1"), ("blocks", .str "ab")],
      .obj [("id", .int 2), ("title", .null), ("level", .str " 2 "),
        ("blocks", .obj [("b", .null), ("gone", .null)])],
      .obj [("id", .str "s3"), ("level", .bool true), ("blocks", .null)]]),
    ("blocks", .obj [
      ("a", .obj [("type", .str "paragraph")]),
      ("b", .obj [("id", .str "b7"), ("type", .str "heading"), ("text", .str "Aims"),
        ("level", .int 1), ("note", .str "dropped")])])]

/-- What is read from it. -/
def carelessRead : Snapshot :=
  ⟨[⟨.str "s1", .str "", 1, [.str "a", .str "b"]⟩,
      ⟨.int 2, .null, 2, [.str "b", .str "gone"]⟩, ⟨.str "s3", .str "", 1, []⟩],
    [("a", ⟨.str "a", .str "paragraph", .str "", .null⟩),
      ("b", ⟨.str "b7", .str "heading", .str "Aims", .int 1⟩)], "e1"⟩

theorem careless_reads_back :
    ofJson "e1" careless = .ok carelessRead ∧ carelessRead.epoch ≠ "" ∧
      (∀ id ∈ carelessRead.listedIds, ∃ key, id = .str key) ∧
      ofJson "e2" carelessRead.toJsonWithEpoch = .ok carelessRead ∧
      ∃ again, ofJson "e2" carelessRead.toJson = .ok again ∧
        again.toJson = carelessRead.toJson ∧ again.blockIds = ["a", "b"] ∧
        ∃ blocks, carelessRead.orderedBlocks = .ok blocks ∧ again.orderedBlocks = .ok blocks := by
  have hread : ofJson "e1" careless = .ok carelessRead := by rfl
  have hepoch : carelessRead.epoch ≠ "" := by decide
  have htexts : ∀ id ∈ carelessRead.listedIds, ∃ key, id = Json.str key := by
    simp [carelessRead, listedIds]
  exact ⟨hread, hepoch, htexts, writing_reads_back.1 "e2" carelessRead hepoch,
    writing_reads_back.2 "e1" "e2" careless carelessRead hread htexts⟩

end Redline.Snapshot
