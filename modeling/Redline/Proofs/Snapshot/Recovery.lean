import Redline.Proofs.Editing
import Redline.Proofs.Forest.Growth
import Redline.Proofs.Snapshot.Numbering

/-!
# Blocks are found again

A snapshot is taken, and then someone goes on writing.  As long as paragraphs are only put in, and
none of them reads like one that was there, every block finds the paragraph that it was taken from:
also where many paragraphs read the same.

The search goes through the blocks in document order.  After `k` blocks, the paragraphs that answer
for a block are the first `k` of the old ones; so for the next block the first paragraph that is
free and has its text is the one that it was taken from.

## Main definitions

* `Passage.Same` — a paragraph at another position.
-/

namespace Redline

open Redline.Text

/-- The same paragraph, maybe at another position of the list. -/
def Passage.Same (p q : Passage) : Prop :=
  q.handle = p.handle ∧ q.style = p.style ∧ q.text = p.text

/-- The paragraphs that a document with further paragraphs shows. -/
theorem Forest.Grows.passages {new : Paragraph → Prop} {d d' : Document}
    (hg : Forest.Grows new d.body d'.body) (alien : Passage → Prop)
    (ha : ∀ p index, new p → alien (p.passage index)) :
    Woven Passage.Same alien d.passages d'.passages := by
  have hzip : ∀ (ps qs : List Paragraph) (i j : Nat), Woven Same new ps qs →
      Woven Passage.Same alien ((ps.zipIdx i).map fun e => e.1.passage e.2)
        ((qs.zipIdx j).map fun e => e.1.passage e.2) := by
    intro ps qs i j hw
    induction hw generalizing i j with
    | nil => exact .nil
    | keep hs _ ih => exact .keep hs (ih (i + 1) (j + 1))
    | put hn _ ih => exact .put (ha _ _ hn) (ih i (j + 1))
  exact hzip _ _ 0 0 hg.paragraphs

theorem Document.nodup_index_passages (d : Document) :
    (d.passages.map (·.index)).Nodup := by
  have : d.passages.map (·.index) = List.range d.paragraphs.length := by
    rw [passages, List.map_map, List.range_eq_range']
    exact List.zipIdx_map_snd 0 d.paragraphs
  rw [this]
  exact List.nodup_range

namespace Snapshot

variable {rules : Rules} {snapshot : Snapshot} {m : Mapping} {id : String} {p q : Passage}
  {own live done : List Passage}

/-! ## One block -/

theorem levelAgrees_blockOf (hs : p.Same q) : levelAgrees rules (blockOf rules id p) q = true := by
  rw [levelAgrees, hs.2.1, blockOf]
  cases rules.headingLevel? p.style <;> simp [Json.str?, Json.isInt, Json.number?]

theorem isExact_of_same (hs : p.Same q) :
    isExact rules (blockOf rules id p) (trimmed p.text) q = true := by
  simp [isExact, levelAgrees_blockOf hs, trimmed, hs.2.2]

theorem isExact_of_other {block : Block} (ht : trimmed q.text ≠ trimmed p.text) :
    isExact rules block (trimmed p.text) q = false := by
  have hne : strip q.text.toList ≠ strip p.text.toList := fun h => ht (trimmed_eq_iff.2 h)
  simp [isExact, trimmed, hne]

/-- The first paragraph that is free and has the text of a block is found for it. -/
theorem findFor_first (hs : p.Same q) (hq : q.index ∉ m.used)
    (hdone : ∀ r ∈ done, r.index ∈ m.used ∨ trimmed r.text ≠ trimmed p.text) :
    findFor rules (blockOf rules id p) (trimmed p.text) (m.free (done ++ q :: live)) = some q := by
  have hnone : (m.free done).find? (isExact rules (blockOf rules id p) (trimmed p.text)) = none := by
    rw [List.find?_eq_none]
    intro r hr
    obtain ⟨hr, hfree⟩ := List.mem_filter.1 hr
    rcases hdone r hr with hu | ht
    · simp [hu] at hfree
    · simp [isExact_of_other ht]
  have hcut : m.free (done ++ q :: live) = m.free done ++ q :: m.free live := by
    simp [Mapping.free, hq]
  have hfind : (m.free (done ++ q :: live)).find?
      (isExact rules (blockOf rules id p) (trimmed p.text)) = some q := by
    rw [hcut, List.find?_append, hnone, Option.none_or, List.find?_cons_of_pos]
    exact isExact_of_same hs
  rw [findFor, hfind]

theorem putPassage_of_notMem {l : List (String × Passage)} (h : id ∉ l.map (·.1)) :
    putPassage id p l = l ++ [(id, p)] := by
  induction l with
  | nil => rfl
  | cons e rest ih =>
    rw [List.map_cons, List.mem_cons, not_or] at h
    rw [putPassage, if_neg (by simpa using Ne.symm h.1), ih h.2, List.cons_append]

/-- A block of the snapshot finds the first paragraph that is free and has its text. -/
theorem step_first (hb : snapshot.block? (.str id) = some (blockOf rules id p)) (hs : p.Same q)
    (hid : id ∉ m.matched.map (·.1)) (hq : q.index ∉ m.used)
    (hdone : ∀ r ∈ done, r.index ∈ m.used ∨ trimmed r.text ≠ trimmed p.text) :
    Mapping.step rules snapshot (done ++ q :: live) m (.str id) =
      .ok { m with matched := m.matched ++ [(id, q)], used := m.used ++ [q.index] } := by
  have htext : (blockOf rules id p).text = .str (trimmed p.text) := by
    rw [blockOf]
    cases rules.headingLevel? p.style <;> rfl
  have hadd : m.add rules (done ++ q :: live) id (blockOf rules id p) (trimmed p.text) =
      { m with matched := m.matched ++ [(id, q)], used := m.used ++ [q.index] } := by
    rw [Mapping.add, findFor_first hs hq hdone]
    simp [putPassage_of_notMem hid]
  simp only [Mapping.step, checkId, hb, htext, hadd, Json.str?, bind, Except.bind]

/-! ## All blocks -/

/-- The search has come to a place of the document.  Of the paragraphs behind it, those that are
free read like none of the old ones ahead; those ahead are free, and so are the ids to come. -/
structure Halfway (m : Mapping) (position : Nat) (own done live : List Passage) : Prop where
  behind : ∀ r ∈ done, r.index ∈ m.used ∨ ∀ p ∈ own, trimmed r.text ≠ trimmed p.text
  ahead : ∀ r ∈ live, r.index ∉ m.used
  distinct : (live.map (·.index)).Nodup
  ids : ∀ e ∈ numberedFrom position own, e.1 ∉ m.matched.map (·.1)

namespace Halfway

variable {position : Nat}

/-- A paragraph that reads like none of the old ones is left behind, free. -/
theorem pass (h : Halfway m position own done (q :: live))
    (hq : ∀ p ∈ own, trimmed q.text ≠ trimmed p.text) :
    Halfway m position own (done ++ [q]) live where
  behind := by
    intro r hr
    rcases List.mem_append.1 hr with hr | hr
    · exact h.behind r hr
    · obtain rfl := List.mem_singleton.1 hr
      exact .inr hq
  ahead r hr := h.ahead r (List.mem_cons_of_mem _ hr)
  distinct := (List.nodup_cons.1 h.distinct).2
  ids := h.ids

/-- A paragraph that has been found answers for its block from now on. -/
theorem found (h : Halfway m position (p :: own) done (q :: live)) :
    Halfway { m with matched := m.matched ++ [(blockId position, q)], used := m.used ++ [q.index] }
      (position + 1) own (done ++ [q]) live where
  behind := by
    intro r hr
    rcases List.mem_append.1 hr with hr | hr
    · refine (h.behind r hr).imp (List.mem_append_left _) fun hother p hp => ?_
      exact hother p (List.mem_cons_of_mem _ hp)
    · obtain rfl := List.mem_singleton.1 hr
      simp
  ahead := by
    intro r hr
    have hne : r.index ≠ q.index :=
      fun he => (List.nodup_cons.1 h.distinct).1 (List.mem_map.2 ⟨r, hr, he⟩)
    simpa [hne] using h.ahead r (List.mem_cons_of_mem _ hr)
  distinct := (List.nodup_cons.1 h.distinct).2
  ids := by
    intro e he
    have hnumber := nodup_ids_numberedFrom position (p :: own)
    rw [numberedFrom, List.map_cons, List.nodup_cons] at hnumber
    have hne : e.1 ≠ blockId position :=
      fun hid => hnumber.1 (List.mem_map.2 ⟨e, he, hid⟩)
    simpa [hne] using h.ids e (List.mem_cons_of_mem _ he)

end Halfway

/-- Each block that is left finds its own paragraph. -/
theorem foldlM_step {new : Passage → Prop} (hw : Woven Passage.Same new own live)
    (hnew : ∀ q, new q → ∀ p ∈ own, trimmed q.text ≠ trimmed p.text) (position : Nat)
    (hblocks : ∀ e ∈ numberedFrom position own,
      snapshot.block? (.str e.1) = some (blockOf rules e.1 e.2))
    (h : Halfway m position own done live) :
    ∃ found used, List.Forall₂ Passage.Same own found ∧ found.Sublist live ∧
      ((numberedFrom position own).map fun e => Json.str e.1).foldlM
        (Mapping.step rules snapshot (done ++ live)) m =
          .ok { m with matched := m.matched ++ numberedFrom position found, used } := by
  -- The induction goes through the paragraphs of the document; those of `done` lie behind.
  induction hw generalizing position done m with
  | nil => exact ⟨[], m.used, .nil, .slnil, by simp [numberedFrom]; rfl⟩
  | @put q own live hn hw ih =>
    obtain ⟨found, used, hsame, hsub, hfold⟩ := ih hnew position hblocks (h.pass (hnew q hn))
    refine ⟨found, used, hsame, hsub.cons q, ?_⟩
    rw [← hfold, List.append_assoc, List.singleton_append]
  | @keep p q own live hs hw ih =>
    obtain ⟨found, used, hsame, hsub, hfold⟩ := ih
      (fun q hn p hp => hnew q hn p (List.mem_cons_of_mem _ hp)) (position + 1)
      (fun e he => hblocks e (List.mem_cons_of_mem _ he)) h.found
    have hstep : Mapping.step rules snapshot (done ++ q :: live) m (.str (blockId position)) = _ :=
      step_first (hblocks _ List.mem_cons_self) hs
      (h.ids _ List.mem_cons_self) (h.ahead q List.mem_cons_self)
      (fun r hr => (h.behind r hr).imp_right fun hother => hother p List.mem_cons_self)
    refine ⟨q :: found, used, .cons hs hsame, hsub.cons_cons q, ?_⟩
    rw [numberedFrom, List.map_cons, List.foldlM_cons, hstep]
    simp only [bind, Except.bind]
    rw [List.append_assoc, List.singleton_append] at hfold
    rw [hfold, numberedFrom, List.append_assoc, List.singleton_append]

/-- Among the paragraphs of a document that has grown, the blocks of its snapshot find those that
they were taken from. -/
theorem mapping_ofPassages (rules : Rules) {new : Passage → Prop} {before after : List Passage}
    (epoch : String) (hw : Woven Passage.Same new before after)
    (hnew : ∀ q, new q → ∀ p ∈ before, trimmed q.text ≠ trimmed p.text)
    (hindex : (after.map (·.index)).Nodup) :
    ∃ found used, List.Forall₂ Passage.Same (candidates before) found ∧
      found.Sublist (candidates after) ∧
      (ofPassages rules epoch before).mapping rules after =
        .ok { matched := numberedFrom 0 found, unmatched := [], used } := by
  have hcandidates : Woven Passage.Same new (candidates before) (candidates after) :=
    hw.filter fun p q hs => by rw [hs.2.2]
  have hsub : (candidates after).Sublist after := List.filter_sublist
  have hstart : Halfway {} 0 (candidates before) [] (candidates after) :=
    ⟨by simp, by simp, hindex.sublist (hsub.map _), by simp⟩
  have hblocks : ∀ e ∈ numbered before,
      (ofPassages rules epoch before).block? (.str e.1) = some (blockOf rules e.1 e.2) :=
    fun e he => block?_ofPassages rules epoch he
  obtain ⟨found, used, hsame, hfound, hfold⟩ := foldlM_step hcandidates
    (fun q hn p hp => hnew q hn p (List.mem_of_mem_filter hp)) 0 hblocks hstart
  refine ⟨found, used, hsame, hfound, ?_⟩
  rw [mapping, listedIds_ofPassages, numbered]
  exact hfold

/-- Blocks survive what is put in.  When the paragraphs that a document has got since its snapshot
was taken read like none of its own, every block finds the paragraph that it was taken from, whether
the snapshot comes from the document or has been written and read again. -/
theorem rematch_recovers (rules : Rules) (epoch newEpoch : String) {host live : Host}
    (hh : host.Answers) (hl : live.Answers)
    (hg : Forest.Grows
      (fun q => ∀ p ∈ host.document.paragraphs, trimmed q.text ≠ trimmed p.text)
      host.document.body live.document.body) :
    ∃ snapshot reread found,
      (extract rules epoch).runOn host = (.ok snapshot, host) ∧
      ofJson newEpoch snapshot.toJson = .ok reread ∧
      List.Forall₂ Passage.Same (candidates host.document.passages) found ∧
      found.Sublist live.document.passages ∧
      (live.document.body = host.document.body → found = candidates host.document.passages) ∧
      ∀ s ∈ [snapshot, reread], ∃ m, (s.rematch rules).runOn live = (.ok m, live) ∧
        m.unmatched = [] ∧ m.matched = numberedFrom 0 found ∧
        ∀ k, m.matched.lookup (blockId k) = found[k]? := by
  have hw := hg.passages (fun q =>
    ∀ p ∈ host.document.passages, trimmed q.text ≠ trimmed p.text) (by
      intro q index hq p hp
      obtain ⟨⟨r, i⟩, hr, rfl⟩ := List.mem_map.1 hp
      exact hq r (List.fst_mem_of_mem_zipIdx hr))
  obtain ⟨found, used, hsame, hsub, hmapping⟩ := mapping_ofPassages rules epoch hw
    (fun q hq => hq) live.document.nodup_index_passages
  have hextract : (extract rules epoch).runOn host =
      (.ok (ofPassages rules epoch host.document.passages), host) := by
    simp [extract, Anchor.ensureHost, Editing.runOn_bind, Editing.runOn_map, hh.isOpen,
      hh.paragraphs]
  refine ⟨_, _, found, hextract, ofJson_toJson newEpoch _, hsame,
    hsub.trans List.filter_sublist, ?_, ?_⟩
  · intro hbody
    have hpassages : live.document.passages = host.document.passages := by
      rw [Document.passages, Document.paragraphs, hbody]
      rfl
    rw [hpassages] at hsub
    exact hsub.eq_of_length hsame.length_eq.symm
  · intro s hs
    refine ⟨{ matched := numberedFrom 0 found, unmatched := [], used }, ?_, rfl, rfl, ?_⟩
    · -- Written and read again, a snapshot has another epoch, which the mapping does not read.
      have hm : s.mapping rules live.document.passages =
          .ok { matched := numberedFrom 0 found, unmatched := [], used } := by
        rcases List.mem_pair.1 hs with rfl | rfl
        · exact hmapping
        · exact hmapping
      rw [rematch, Editing.runOn_bind, hl.paragraphs]
      simp [hm]
    · intro k
      simpa using lookup_numberedFrom 0 k found

/-- A heading, a paragraph and a cell that read the same. -/
def threeAlike : Document where
  body :=
    .cons (.paragraph ⟨0⟩ "Heading 1" none) (.runOf "Plan".toList)
      (.cons (.paragraph ⟨1⟩ "Normal" none) (.runOf "Plan".toList)
        (.single .table (.single .row (.single .cell
          (.single (.paragraph ⟨2⟩ "Normal" none) (.runOf "Plan".toList))))))
  nextHandle := 3

/-- The same document with a heading at its beginning and a note in its cell. -/
def threeAlikeLater : Document where
  body := Forest.insertBefore ⟨0⟩ (Paragraph.tree ⟨⟨3⟩, "Heading 1", none, .runOf "Plans".toList⟩)
    (Forest.insertBefore ⟨2⟩ (Paragraph.tree ⟨⟨4⟩, "Normal", none, .runOf "A plan".toList⟩)
      threeAlike.body)
  nextHandle := 5

theorem rematch_recovers_three_alike :
    ∃ m p q r, ((ofPassages .standard "now" threeAlike.passages).rematch .standard).runOn
        { document := threeAlikeLater } = (.ok m, { document := threeAlikeLater }) ∧
      m.unmatched = [] ∧ m.matched = [("b1", p), ("b2", q), ("b3", r)] ∧
      [p, q, r].map (·.handle) = [⟨0⟩, ⟨1⟩, ⟨2⟩] := by
  have hgrows : Forest.Grows
      (fun q => ∀ p ∈ threeAlike.paragraphs, trimmed q.text ≠ trimmed p.text)
      threeAlike.body threeAlikeLater.body := by
    refine .trans (fun q content ht hq p hp => ?_) (.insertBefore (by decide) _)
      (.insertBefore (by decide) _)
    simpa [Paragraph.text, ht] using hq p hp
  obtain ⟨snapshot, reread, found, hextract, _, hsame, _, _, hmaps⟩ :=
    rematch_recovers .standard "now" "later"
      (show Host.Answers { document := threeAlike } from ⟨rfl, rfl⟩)
      (show Host.Answers { document := threeAlikeLater } from ⟨rfl, rfl⟩) hgrows
  obtain ⟨m, hrun, hunmatched, hmatched, _⟩ := hmaps snapshot List.mem_cons_self
  have hsnapshot : snapshot = ofPassages .standard "now" threeAlike.passages :=
    Except.ok.inj (congrArg Prod.fst hextract).symm
  have hown : candidates threeAlike.passages =
      [⟨0, "Plan", "Heading 1", ⟨0⟩⟩, ⟨1, "Plan", "Normal", ⟨1⟩⟩, ⟨2, "Plan", "Normal", ⟨2⟩⟩] := by
    decide
  change List.Forall₂ Passage.Same (candidates threeAlike.passages) found at hsame
  rw [hown] at hsame
  obtain _ | ⟨hp, _ | ⟨hq, _ | ⟨hr, _ | _⟩⟩⟩ := hsame
  refine ⟨m, _, _, _, hsnapshot ▸ hrun, hunmatched, hmatched, ?_⟩
  simp [hp.1, hq.1, hr.1]

end Snapshot

end Redline
