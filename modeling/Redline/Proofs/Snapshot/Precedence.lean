import Redline.Proofs.Run.Reporting
import Redline.Proofs.Snapshot.Recovery

/-!
# Exact matches come first

The blocks of a snapshot are looked for one after the other, and for each of them a paragraph with
the same text goes before one with a similar text.  When no two blocks say the same, the block with
the text of a paragraph is the only one that can find it by that; so it can lose the paragraph only to
a block that is looked for earlier and says a part of it, or more than it.

## Main definitions

* `Snapshot.Lists` — a listed block and its text.
* `Snapshot.Distinct` — each block is listed once, and no two of them say the same.
* `Snapshot.Overlaps` — a text and a paragraph of which one says a part of what the other says.
-/

namespace Redline.Snapshot

open Editing Redline.Text

variable {rules : Rules} {s : Snapshot} {m : Mapping} {id id' : String} {block : Block}
  {text : String} {p : Passage} {live : List Passage} {done rest : List Json}

/-- A text without the blanks around it and in small letters. -/
def folded (text : String) : List Char := lower (strip text.toList)

/-- A block that is listed, and its text. -/
structure Lists (s : Snapshot) (id : String) (block : Block) (text : String) : Prop where
  listed : .str id ∈ s.listedIds
  found : s.blocks.lookup id = some block
  reads : block.text = .str text

/-- Each block is listed once, and no two of them say the same. -/
structure Distinct (s : Snapshot) : Prop where
  once : s.listedIds.Nodup
  texts : ∀ {id id' block block' text text'}, s.Lists id block text → s.Lists id' block' text' →
    folded text = folded text' → id = id'

/-- One of a text and a paragraph says a part of what the other says; the text is long enough for
that to count. -/
structure Overlaps (rules : Rules) (text : String) (p : Passage) : Prop where
  long : ((folded text).length : Int) > rules.rematchMinChars
  part : occursIn (folded text) (folded p.text) = true ∨
    occursIn (folded p.text) (folded text) = true
  differ : folded p.text ≠ folded text

/-- A snapshot of paragraphs that all say something else. -/
theorem distinct_ofPassages (rules : Rules) (epoch : String) {passages : List Passage}
    (hd : ((candidates passages).map fun p => folded p.text).Nodup) :
    (ofPassages rules epoch passages).Distinct := by
  have hlists : ∀ {id block text}, (ofPassages rules epoch passages).Lists id block text →
      ∃ p, (id, p) ∈ numbered passages ∧ folded text = folded p.text := by
    intro id block text h
    have hmem := h.listed
    rw [listedIds_ofPassages] at hmem
    obtain ⟨⟨key, p⟩, hp, hkey⟩ := List.mem_map.1 hmem
    obtain rfl := Json.str.inj hkey
    refine ⟨p, hp, ?_⟩
    have hblock := (block?_ofPassages rules epoch hp).symm.trans h.found
    have htext : (blockOf rules key p).text = .str (trimmed p.text) := by
      rw [blockOf]
      cases rules.headingLevel? p.style <;> rfl
    obtain rfl := Json.str.inj (htext.symm.trans ((Option.some.inj hblock) ▸ h.reads))
    simp [folded, trimmed]
  refine ⟨?_, ?_⟩
  · have hids : (((numbered passages).map (·.1)).map Json.str).Nodup :=
      (nodup_ids_numberedFrom 0 (candidates passages)).map fun _ _ => Json.str.inj
    rw [List.map_map] at hids
    rw [listedIds_ofPassages]
    exact hids
  · intro id id' block block' text text' h h' htexts
    obtain ⟨p, hp, htext⟩ := hlists h
    obtain ⟨p', hp', htext'⟩ := hlists h'
    have htexts' : ((numbered passages).map fun e => folded e.2.text).Nodup := by
      have hcandidates : (numbered passages).map (·.2) = candidates passages :=
        map_snd_numberedFrom 0 _
      rwa [← hcandidates, List.map_map] at hd
    have hsame : folded p.text = folded p'.text := htext.symm.trans (htexts.trans htext')
    exact congrArg Prod.fst (List.inj_on_of_nodup_map htexts' hp hp' hsame)

/-! ## One block -/

theorem folded_eq_of_isExact (h : isExact rules block text p = true) :
    folded p.text = folded text := by
  simp only [isExact, Bool.and_eq_true, beq_iff_eq] at h
  rw [folded, folded, h.1]

/-- A paragraph that is found for a block says the same, or the two overlap. -/
theorem overlaps_of_isSimilar (h : isSimilar rules block text p = true) :
    folded p.text = folded text ∨ Overlaps rules text p := by
  by_cases hsame : folded p.text = folded text
  · exact .inl hsame
  · have hsame' : (lower (strip p.text.toList) == lower (strip text.toList)) = false :=
      beq_eq_false_iff_ne.2 hsame
    simp only [isSimilar, hsame', Bool.false_or, Bool.and_eq_true, decide_eq_true_eq,
      Bool.or_eq_true] at h
    exact .inr ⟨h.1.1, h.1.2, hsame⟩

theorem findFor_cases (h : findFor rules block text live = some p) :
    p ∈ live ∧ (isExact rules block text p = true ∨
      (∀ q ∈ live, isExact rules block text q = false) ∧ isSimilar rules block text p = true) := by
  rw [findFor] at h
  split at h
  · next q hq =>
    obtain rfl := Option.some.inj h
    exact ⟨List.mem_of_find?_eq_some hq, .inl (List.find?_some hq)⟩
  · next hnone =>
    refine ⟨List.mem_of_find?_eq_some h, .inr ⟨fun q hq => ?_, List.find?_some h⟩⟩
    simpa using List.find?_eq_none.1 hnone q hq

theorem findFor_eq_none (h : findFor rules block text live = none) :
    ∀ q ∈ live, isExact rules block text q = false := by
  rw [findFor] at h
  split at h
  · cases h
  · next hnone => exact fun q hq => by simpa using List.find?_eq_none.1 hnone q hq

theorem lookup_putPassage_self (id : String) (p : Passage) (l : List (String × Passage)) :
    (putPassage id p l).lookup id = some p := by
  induction l with
  | nil => simp [putPassage]
  | cons e rest ih =>
    obtain ⟨key, q⟩ := e
    rw [putPassage]
    split
    · next he => simp [beq_iff_eq.1 he]
    · next hne =>
      have hne : (id == key) = false := beq_eq_false_iff_ne.2 fun h => hne (beq_iff_eq.2 h.symm)
      simp only [List.lookup_cons, hne, ih]

theorem lookup_putPassage_of_ne (hne : id' ≠ id) (p : Passage) (l : List (String × Passage)) :
    (putPassage id p l).lookup id' = l.lookup id' := by
  have hne' : (id' == id) = false := beq_eq_false_iff_ne.2 hne
  induction l with
  | nil => simp [putPassage, List.lookup_cons, hne']
  | cons e rest ih =>
    obtain ⟨key, q⟩ := e
    rw [putPassage]
    split
    · next he =>
      have he : key = id := by simpa using he
      simp [List.lookup_cons, he, hne']
    · simp only [List.lookup_cons, ih]

/-! ## All blocks -/

/-- The search has gone through the ids of `done`.  What has been found, has been found for one of
them, and the paragraphs that are in use are those that have been found. -/
structure Searched (rules : Rules) (s : Snapshot) (live : List Passage) (done : List Json)
    (m : Mapping) : Prop where
  found : ∀ {id p}, m.matched.lookup id = some p → .str id ∈ done ∧ p ∈ live ∧
    ∃ block text, s.blocks.lookup id = some block ∧ block.text = .str text ∧
      (folded p.text = folded text ∨ Overlaps rules text p)
  used : ∀ i ∈ m.used, ∃ id p, m.matched.lookup id = some p ∧ p.index = i

theorem Searched.start (rules : Rules) (s : Snapshot) (live : List Passage) :
    Searched rules s live [] {} :=
  ⟨by simp, by simp⟩

/-- The search for a block says what it has found. -/
theorem Searched.add (hm : Searched rules s live done m) (hid : .str id ∉ done)
    (hb : s.blocks.lookup id = some block) (ht : block.text = .str text) :
    Searched rules s live (done ++ [.str id]) (m.add rules live id block text) := by
  cases hfind : findFor rules block text (m.free live) with
  | none =>
    have hadd : m.add rules live id block text = { m with unmatched := m.unmatched ++ [id] } := by
      rw [Mapping.add, hfind]
    rw [hadd]
    exact ⟨fun h => (hm.found h).imp_left (List.mem_append_left _), hm.used⟩
  | some p =>
    have hadd : m.add rules live id block text =
        { m with matched := putPassage id p m.matched, used := m.used ++ [p.index] } := by
      rw [Mapping.add, hfind]
    rw [hadd]
    obtain ⟨hfree, hcase⟩ := findFor_cases hfind
    refine ⟨fun {id' q} h => ?_, fun i hi => ?_⟩
    · by_cases he : id' = id
      · subst he
        obtain rfl : p = q := by simpa [lookup_putPassage_self] using h
        refine ⟨by simp, List.mem_of_mem_filter hfree, block, text, hb, ht, ?_⟩
        rcases hcase with hexact | ⟨_, hsimilar⟩
        · exact .inl (folded_eq_of_isExact hexact)
        · exact overlaps_of_isSimilar hsimilar
      · rw [lookup_putPassage_of_ne he] at h
        exact (hm.found h).imp_left (List.mem_append_left _)
    · rcases List.mem_append.1 hi with hi | hi
      · obtain ⟨id', q, hq, rfl⟩ := hm.used i hi
        -- The id is new, so what was found before is still there.
        have hne : id' ≠ id := fun he => hid (he ▸ (hm.found hq).1)
        exact ⟨id', q, by rw [lookup_putPassage_of_ne hne, hq], rfl⟩
      · obtain rfl := List.mem_singleton.1 hi
        exact ⟨id, p, lookup_putPassage_self id p m.matched, rfl⟩

theorem step_str (hb : s.blocks.lookup id = some block) (ht : block.text = .str text) :
    Mapping.step rules s live m (.str id) = .ok (m.add rules live id block text) := by
  have hblock : s.block? (.str id) = some block := hb
  simp [Mapping.step, checkId, hblock, ht, Json.str?, bind, Except.bind]

theorem step_unknown (hb : s.blocks.lookup id = none) :
    Mapping.step rules s live m (.str id) = .ok m := by
  have hblock : s.block? (.str id) = none := hb
  simp [Mapping.step, checkId, hblock, Json.str?, bind, Except.bind]

theorem lookup_add_of_ne (hne : id' ≠ id) :
    (m.add rules live id block text).matched.lookup id' = m.matched.lookup id' := by
  rw [Mapping.add]
  split
  · exact lookup_putPassage_of_ne hne _ _
  · rfl

/-- The search goes on: what has been found stays. -/
theorem Searched.foldlM (hs : s.WellTyped) (hm : Searched rules s live done m)
    (hlisted : ∀ listed ∈ rest, ∃ key, listed = .str key) (hn : (done ++ rest).Nodup) :
    ∃ m', rest.foldlM (Mapping.step rules s live) m = .ok m' ∧
      Searched rules s live (done ++ rest) m' ∧
      ∀ id, .str id ∉ rest → m'.matched.lookup id = m.matched.lookup id := by
  induction rest generalizing done m with
  | nil => exact ⟨m, rfl, by simpa using hm, fun _ _ => rfl⟩
  | cons listed rest ih =>
    obtain ⟨⟨id, rfl⟩, hrest⟩ := List.forall_mem_cons.1 hlisted
    have hassoc : done ++ .str id :: rest = (done ++ [.str id]) ++ rest := by simp
    have hid : .str id ∉ done := fun hmem =>
      (List.nodup_append.1 hn).2.2 _ hmem _ List.mem_cons_self rfl
    -- Whether the id has a block or not, the search for it leaves what has been found before.
    obtain ⟨m₁, hstep, hm₁, hkeep⟩ : ∃ m₁, Mapping.step rules s live m (.str id) = .ok m₁ ∧
        Searched rules s live (done ++ [.str id]) m₁ ∧
        ∀ id', id' ≠ id → m₁.matched.lookup id' = m.matched.lookup id' := by
      cases hb : s.blocks.lookup id with
      | none =>
        exact ⟨m, step_unknown hb, ⟨fun h => (hm.found h).imp_left (List.mem_append_left _), hm.used⟩,
          fun _ _ => rfl⟩
      | some block =>
        obtain ⟨text, ht⟩ := hs.texts _ _ (mem_of_lookup hb)
        exact ⟨_, step_str hb ht, hm.add hid hb ht, fun _ hne => lookup_add_of_ne hne⟩
    obtain ⟨m', hfold, hm', hkeep'⟩ := ih hm₁ hrest (hassoc ▸ hn)
    refine ⟨m', ?_, hassoc ▸ hm', fun id' hid' => ?_⟩
    · rw [List.foldlM_cons, hstep]
      exact hfold
    · rw [List.mem_cons, not_or] at hid'
      rw [hkeep' id' hid'.2, hkeep id' fun he => hid'.1 (he ▸ rfl)]

/-- The search when it comes to a block: what it finds for the block then, and what it has found for
the ids before it, stays. -/
theorem mapping_at (hs : s.WellTyped) (honce : s.listedIds.Nodup) (hb : s.Lists id block text)
    (h : s.mapping rules live = .ok m) :
    ∃ before after m₁, s.listedIds = before ++ .str id :: after ∧
      Searched rules s (candidates live) before m₁ ∧
      m.matched.lookup id =
        (m₁.add rules (candidates live) id block text).matched.lookup id ∧
      ∀ id', .str id' ∈ before → m.matched.lookup id' = m₁.matched.lookup id' := by
  obtain ⟨before, after, hcut⟩ := List.append_of_mem hb.listed
  rw [hcut] at honce
  have hkeys : ∀ listed ∈ before ++ .str id :: after, ∃ key, listed = .str key := hcut ▸ hs.listed
  have hdisjoint := (List.nodup_append.1 honce).2.2
  have hid : .str id ∉ before := fun hmem => hdisjoint _ hmem _ List.mem_cons_self rfl
  have hid' : .str id ∉ after := (List.nodup_cons.1 (List.nodup_append.1 honce).2.1).1
  obtain ⟨m₁, hfold₁, hm₁, -⟩ := (Searched.start rules s (candidates live)).foldlM hs
    (fun listed hmem => hkeys listed (List.mem_append_left _ hmem))
    (by simpa using (List.nodup_append.1 honce).1)
  have hkeys' : ∀ listed ∈ after, ∃ key, listed = .str key :=
    fun listed hmem => hkeys listed (by simp [hmem])
  obtain ⟨m', hfold', -, hkeep⟩ :=
    (hm₁.add hid hb.found hb.reads).foldlM hs hkeys' (by simpa using honce)
  have hall : s.mapping rules live = .ok m' := by
    have hrest : (Json.str id :: after).foldlM (Mapping.step rules s (candidates live)) m₁ =
        .ok m' := by
      rw [List.foldlM_cons, step_str hb.found hb.reads]
      exact hfold'
    rw [mapping, hcut, List.foldlM_append, hfold₁]
    exact hrest
  obtain rfl := Except.ok.inj (hall.symm.trans h)
  refine ⟨before, after, m₁, hcut, hm₁, hkeep id hid', fun id' hbefore => ?_⟩
  have hne : id' ≠ id := fun he => hid (he ▸ hbefore)
  have hafter : .str id' ∉ after := fun hmem =>
    hdisjoint _ hbefore _ (List.mem_cons_of_mem _ hmem) rfl
  rw [hkeep id' hafter, lookup_add_of_ne hne]

/-- A paragraph that answers for a block already has been found for a block of `done`. -/
theorem Searched.taken (hm : Searched rules s live done m) (hindex : (live.map (·.index)).Nodup)
    (hp : p ∈ live) (hfree : p ∉ m.free live) :
    ∃ id block text, m.matched.lookup id = some p ∧ .str id ∈ done ∧
      s.blocks.lookup id = some block ∧ block.text = .str text ∧
      (folded p.text = folded text ∨ Overlaps rules text p) := by
  have hused : p.index ∈ m.used := by simpa [Mapping.free, hp] using hfree
  obtain ⟨id, q, hq, hi⟩ := hm.used _ hused
  obtain ⟨hid, hlive, block, text, hb, ht, hcase⟩ := hm.found hq
  obtain rfl : q = p := List.inj_on_of_nodup_map hindex hlive hp hi
  exact ⟨id, block, text, hq, hid, hb, ht, hcase⟩

/-- As long as a paragraph that says exactly the same is free, the block finds one that does. -/
theorem lookup_add_of_free (hexact : isExact rules block text p = true) (hfree : p ∈ m.free live) :
    ∃ q ∈ live, (m.add rules live id block text).matched.lookup id = some q ∧
      isExact rules block text q = true := by
  cases hfind : findFor rules block text (m.free live) with
  | none => simp [findFor_eq_none hfind p hfree] at hexact
  | some q =>
    obtain ⟨hq, hcase⟩ := findFor_cases hfind
    refine ⟨q, List.mem_of_mem_filter hq, ?_, ?_⟩
    · rw [Mapping.add, hfind]
      exact lookup_putPassage_self id q m.matched
    · exact hcase.resolve_right fun hnone => by simp [hnone.1 p hfree] at hexact

/-- Exact matches come first.  When a paragraph of the document says exactly what a block says, the
block finds a paragraph that does, unless a block that is listed before it has found that paragraph
by a part of what the two say. -/
theorem rematch_prefers_exact (rules : Rules) {live : Host} (hl : live.Answers)
    (hs : s.WellTyped) (hd : s.Distinct) :
    ∃ m, (s.rematch rules).runOn live = (.ok m, live) ∧
      ∀ {id block text p}, s.Lists id block text → p ∈ candidates live.document.passages →
        isExact rules block text p = true →
        (∃ q ∈ candidates live.document.passages, m.matched.lookup id = some q ∧
          isExact rules block text q = true) ∨
        ∃ id' block' text', s.Lists id' block' text' ∧
          [Json.str id', .str id].Sublist s.listedIds ∧
          m.matched.lookup id' = some p ∧ Overlaps rules text' p := by
  obtain ⟨m, hmapping, hrun⟩ := hs.rematch_eq_ok rules hl
  refine ⟨m, hrun, fun {id block text p} hb hp hexact => ?_⟩
  obtain ⟨before, after, m₁, hcut, hm₁, hown, hearlier⟩ := mapping_at hs hd.once hb hmapping
  by_cases hfree : p ∈ m₁.free (candidates live.document.passages)
  · rw [hown]
    exact .inl (lookup_add_of_free hexact hfree)
  · -- The paragraph answers for a block that is listed before; the two cannot say the same.
    have hindex : ((candidates live.document.passages).map (·.index)).Nodup :=
      live.document.nodup_index_passages.sublist (List.filter_sublist.map _)
    obtain ⟨id', block', text', htaken, hbefore, hb', ht', hcase⟩ := hm₁.taken hindex hp hfree
    have hlists : s.Lists id' block' text' := ⟨by simp [hcut, hbefore], hb', ht'⟩
    have hsub : [Json.str id', .str id].Sublist s.listedIds := hcut ▸
      (List.singleton_sublist.2 hbefore).append (List.singleton_sublist.2 List.mem_cons_self)
    have hne : id' ≠ id := fun he => by
      have hpair := hd.once.sublist hsub
      simp [he] at hpair
    exact .inr ⟨id', block', text', hlists, hsub, (hearlier id' hbefore).trans htaken,
      hcase.resolve_left fun hsame =>
        hne (hd.texts hlists hb (hsame.symm.trans (folded_eq_of_isExact hexact)))⟩

/-- A note, and the same note with more to it. -/
def twoNotes : Snapshot :=
  ofPassages .standard "now"
    [⟨0, "Ship on Monday", "Normal", ⟨0⟩⟩, ⟨1, "Ship on Monday or later", "Normal", ⟨1⟩⟩]

theorem wellTyped_twoNotes : twoNotes.WellTyped := wellTyped_ofPassages _ _ _

theorem distinct_twoNotes : twoNotes.Distinct := distinct_ofPassages _ _ (by decide)

theorem listedIds_twoNotes : twoNotes.listedIds = [.str "b1", .str "b2"] := by rfl

theorem lists_twoNotes_short :
    twoNotes.Lists "b1" ⟨.str "b1", .str "paragraph", .str "Ship on Monday", .null⟩
      "Ship on Monday" :=
  ⟨by simp [listedIds_twoNotes], rfl, rfl⟩

theorem lists_twoNotes_long :
    twoNotes.Lists "b2" ⟨.str "b2", .str "paragraph", .str "Ship on Monday or later", .null⟩
      "Ship on Monday or later" :=
  ⟨by simp [listedIds_twoNotes], rfl, rfl⟩

/-- The notes in another order, behind a title. -/
def notesTurned : Document where
  body :=
    .cons (.paragraph ⟨2⟩ "Title" none) (.runOf "Notes".toList)
      (.cons (.paragraph ⟨1⟩ "Normal" none) (.runOf "Ship on Monday or later".toList)
        (.single (.paragraph ⟨0⟩ "Normal" none) (.runOf "Ship on Monday".toList)))
  nextHandle := 3

theorem candidates_notesTurned : candidates notesTurned.passages =
    [⟨0, "Notes", "Title", ⟨2⟩⟩, ⟨1, "Ship on Monday or later", "Normal", ⟨1⟩⟩,
      ⟨2, "Ship on Monday", "Normal", ⟨0⟩⟩] := by decide

theorem rematch_prefers_exact_turned :
    ∃ m p q, (twoNotes.rematch .standard).runOn { document := notesTurned } =
        (.ok m, { document := notesTurned }) ∧
      m.matched.lookup "b1" = some p ∧ m.matched.lookup "b2" = some q ∧
      [p, q].map (·.handle) = [⟨0⟩, ⟨1⟩] := by
  obtain ⟨m, hrun, hfinds⟩ := rematch_prefers_exact .standard
    (show Host.Answers { document := notesTurned } from ⟨rfl, rfl⟩) wellTyped_twoNotes
    distinct_twoNotes
  simp only [candidates_notesTurned, listedIds_twoNotes] at hfinds
  have hp : m.matched.lookup "b1" = some ⟨2, "Ship on Monday", "Normal", ⟨0⟩⟩ := by
    rcases hfinds lists_twoNotes_short (p := ⟨2, "Ship on Monday", "Normal", ⟨0⟩⟩) (by simp)
      (by decide) with ⟨q, hq, hlookup, hexact⟩ | ⟨id, _, _, _, hsub, _⟩
    · simp only [List.mem_cons, List.not_mem_nil, or_false] at hq
      rcases hq with rfl | rfl | rfl
      · exact absurd hexact (by decide)
      · exact absurd hexact (by decide)
      · exact hlookup
    · -- Nothing is listed before the first block.
      simp [List.sublist_cons_iff] at hsub
  rcases hfinds lists_twoNotes_long (p := ⟨1, "Ship on Monday or later", "Normal", ⟨1⟩⟩) (by simp)
    (by decide) with ⟨q, hq, hlookup, hexact⟩ | ⟨id, _, _, _, hsub, hlookup, _⟩
  · simp only [List.mem_cons, List.not_mem_nil, or_false] at hq
    rcases hq with rfl | rfl | rfl
    · exact absurd hexact (by decide)
    · exact ⟨m, _, _, hrun, hp, hlookup, rfl⟩
    · exact absurd hexact (by decide)
  · -- The first block has found its own paragraph, so it has not found the other one.
    have hid : id = "b1" := by simpa [List.sublist_cons_iff] using hsub
    rw [hid, hp] at hlookup
    exact absurd hlookup (by decide)

/-- The longer note alone. -/
def noteLeft : Document where
  body := .single (.paragraph ⟨1⟩ "Normal" none) (.runOf "Ship on Monday or later".toList)
  nextHandle := 2

/-- When the first note is deleted, its block takes the paragraph of the other one, and the block of
the paragraph that nobody has touched finds nothing. -/
theorem rematch_loses_exact :
    ∃ block p m, twoNotes.Lists "b2" block "Ship on Monday or later" ∧
      p ∈ candidates noteLeft.passages ∧
      isExact .standard block "Ship on Monday or later" p = true ∧
      (twoNotes.rematch .standard).runOn { document := noteLeft } =
        (.ok m, { document := noteLeft }) ∧
      m.matched = [("b1", p)] ∧ m.unmatched = ["b2"] :=
  ⟨_, ⟨0, "Ship on Monday or later", "Normal", ⟨1⟩⟩, _, lists_twoNotes_long, by decide, by decide, rfl,
    by decide, by decide⟩

end Redline.Snapshot
