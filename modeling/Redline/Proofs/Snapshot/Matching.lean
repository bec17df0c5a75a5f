import Redline.Proofs.Snapshot.Precedence

/-!
# Blocks and the paragraphs that are found for them

A snapshot may list an id several times, or an id without a block.  Whenever a block is listed it
takes the first free paragraph that matches it, and an id that had a paragraph already gives it up
for the new one.  What has been taken once is never free again.  So no two ids share a paragraph,
and a block goes away with nothing only after all paragraphs that match it have been taken.

## Main definitions

* `Snapshot.Matches` — a paragraph that may stand for a block.
* `Snapshot.Assigned` — what the search has found when it has gone through some listed ids.

## Main results

* `Snapshot.matches_iff` — when a paragraph may stand for a block.
* `Snapshot.rematch_assigns` — what the search finds for the blocks of a snapshot.
-/

namespace Redline.Snapshot

open Editing Redline.Text

variable {rules : Rules} {s : Snapshot} {m : Mapping} {id id' : String} {block : Block}
  {text : String} {p q : Passage} {live : List Passage} {done rest : List Json}

/-- A paragraph may stand for a block, by the one rule or by the other. -/
def Matches (rules : Rules) (block : Block) (text : String) (p : Passage) : Prop :=
  isExact rules block text p = true ∨ isSimilar rules block text p = true

/-- What the search has found when it has gone through the ids of `done`. -/
structure Assigned (rules : Rules) (s : Snapshot) (live : List Passage) (done : List Json)
    (m : Mapping) : Prop where
  /-- What is found for an id is in use, and it matches the block, with its level if that is a
  heading. -/
  sound : ∀ {id p}, m.matched.lookup id = some p → p ∈ live ∧ p.index ∈ m.used ∧
    ∃ block text, s.Lists id block text ∧ Matches rules block text p ∧
      levelAgrees rules block p = true
  /-- No two ids share a paragraph. -/
  injective : ∀ {id id' p p'}, m.matched.lookup id = some p → m.matched.lookup id' = some p' →
    p.index = p'.index → id = id'
  /-- Each block has been found, or missed. -/
  complete : ∀ {id block text}, .str id ∈ done → s.Lists id block text →
    (∃ p, m.matched.lookup id = some p) ∨ id ∈ m.unmatched
  /-- For a block that has been missed, everything that matches it is in use. -/
  greedy : ∀ {id}, id ∈ m.unmatched → ∃ block text, s.Lists id block text ∧
    ∀ p ∈ live, Matches rules block text p → p.index ∈ m.used
  /-- Paragraphs are in use because a block has taken them, -/
  taken : ∀ i ∈ m.used, ∃ p ∈ live, p.index = i ∧
    ∃ id block text, s.Lists id block text ∧ Matches rules block text p
  /-- each of them once. -/
  once : m.used.Nodup
  /-- Whenever a block was listed, it took a paragraph or missed. -/
  count : m.used.length + m.unmatched.length = done.countP fun listed => (s.block? listed).isSome

/-! ## The two rules -/

theorem isSimilar_iff : isSimilar rules block text p = true ↔
    levelAgrees rules block p = true ∧ (folded p.text = folded text ∨ Overlaps rules text p) := by
  constructor
  · intro h
    have hlevel := h
    rw [isSimilar, Bool.and_eq_true] at hlevel
    exact ⟨hlevel.2, overlaps_of_isSimilar h⟩
  · rintro ⟨hlevel, hsame | hover⟩
    · have hsame : lower (strip p.text.toList) = lower (strip text.toList) := hsame
      simp [isSimilar, hsame, hlevel]
    · have hlong : ((lower (strip text.toList)).length : Int) > rules.rematchMinChars := hover.long
      have hpart : occursIn (lower (strip text.toList)) (lower (strip p.text.toList)) = true ∨
        occursIn (lower (strip p.text.toList)) (lower (strip text.toList)) = true := hover.part
      simp [isSimilar, hlong, hpart, hlevel]

/-- A paragraph may stand for a block if it has the level of a heading and says the same as the
block but for the case, or if the two overlap. -/
theorem matches_iff : Matches rules block text p ↔
    levelAgrees rules block p = true ∧ (folded p.text = folded text ∨ Overlaps rules text p) := by
  rw [Matches, ← isSimilar_iff]
  refine ⟨fun h => h.elim (fun hexact => ?_) id, .inr⟩
  have hlevel := hexact
  rw [isExact, Bool.and_eq_true] at hlevel
  exact isSimilar_iff.2 ⟨hlevel.2, .inl (folded_eq_of_isExact hexact)⟩

/-! ## One block -/

theorem findFor_eq_some (h : findFor rules block text live = some p) :
    p ∈ live ∧ Matches rules block text p := by
  obtain ⟨hp, hcase⟩ := findFor_cases h
  exact ⟨hp, hcase.imp_right And.right⟩

theorem not_matches_of_findFor_eq_none (h : findFor rules block text live = none) (hp : p ∈ live) :
    ¬ Matches rules block text p := by
  have hexact := findFor_eq_none h p hp
  have hsimilar : live.find? (isSimilar rules block text) = none := by
    rw [findFor] at h
    split at h
    · cases h
    · exact h
  rintro (hmatch | hmatch)
  · rw [hexact] at hmatch
    cases hmatch
  · exact List.find?_eq_none.1 hsimilar p hp hmatch

theorem mem_free : p ∈ m.free live ↔ p ∈ live ∧ p.index ∉ m.used := by
  simp [Mapping.free]

theorem Lists.isSome_block? (hb : s.Lists id block text) :
    (s.block? (.str id)).isSome = true := by
  rw [block?, Json.str?, Option.bind_some, hb.found, Option.isSome_some]

namespace Assigned

theorem start (rules : Rules) (s : Snapshot) (live : List Passage) :
    Assigned rules s live [] {} where
  sound h := by cases h
  injective h := by cases h
  complete h := by cases h
  greedy h := by cases h
  taken i h := by cases h
  once := List.nodup_nil
  count := rfl

variable (hm : Assigned rules s live done m)
include hm

/-- An id without a block is passed over. -/
theorem skip (hb : s.blocks.lookup id = none) : Assigned rules s live (done ++ [.str id]) m where
  sound := hm.sound
  injective := hm.injective
  complete {id' block text} hmem hlists := by
    rcases List.mem_append.1 hmem with hmem | hmem
    · exact hm.complete hmem hlists
    · obtain rfl : id' = id := by simpa using hmem
      rw [hlists.found] at hb
      cases hb
  greedy := hm.greedy
  taken := hm.taken
  once := hm.once
  count := by
    have hnone : (s.block? (.str id)).isSome = false := by
      rw [block?, Json.str?, Option.bind_some, hb, Option.isSome_none]
    rw [List.countP_append, List.countP_singleton, hnone, hm.count]
    rfl

/-- A block for which nothing is left goes away with nothing. -/
theorem miss (hb : s.Lists id block text) (hnone : findFor rules block text (m.free live) = none) :
    Assigned rules s live (done ++ [.str id]) { m with unmatched := m.unmatched ++ [id] } where
  sound := hm.sound
  injective := hm.injective
  complete {id' block' text'} hmem hlists := by
    rcases List.mem_append.1 hmem with hmem | hmem
    · exact (hm.complete hmem hlists).imp_right (List.mem_append_left _)
    · obtain rfl : id' = id := by simpa using hmem
      exact .inr (List.mem_append_right _ List.mem_cons_self)
  greedy {id'} hmem := by
    rcases List.mem_append.1 hmem with hmem | hmem
    · exact hm.greedy hmem
    · obtain rfl := List.mem_singleton.1 hmem
      refine ⟨block, text, hb, fun p hp hmatch => ?_⟩
      by_contra hfree
      exact not_matches_of_findFor_eq_none hnone (mem_free.2 ⟨hp, hfree⟩) hmatch
  taken := hm.taken
  once := hm.once
  count := by
    rw [List.countP_append, List.countP_singleton, hb.isSome_block?, ← hm.count,
      List.length_append]
    rfl

/-- A block takes a free paragraph; all others keep what they have. -/
theorem take (hb : s.Lists id block text) (hfree : p ∈ m.free live)
    (hmatch : Matches rules block text p) :
    Assigned rules s live (done ++ [.str id])
      { m with matched := putPassage id p m.matched, used := m.used ++ [p.index] } := by
  obtain ⟨hp, hunused⟩ := mem_free.1 hfree
  have hself := lookup_putPassage_self id p m.matched
  have hother : ∀ {id'}, id' ≠ id → (putPassage id p m.matched).lookup id' = m.matched.lookup id' :=
    fun hne => lookup_putPassage_of_ne hne p m.matched
  constructor
  case sound =>
    intro id' q hq
    by_cases he : id' = id
    · subst he
      obtain rfl : p = q := Option.some.inj (hself.symm.trans hq)
      exact ⟨hp, by simp, block, text, hb, hmatch, (matches_iff.1 hmatch).1⟩
    · obtain ⟨hlive, hused, hcase⟩ := hm.sound ((hother he).symm.trans hq)
      exact ⟨hlive, List.mem_append_left _ hused, hcase⟩
  case injective =>
    -- The paragraph was free, so nothing that had been found before is the same one.
    have hapart : ∀ {id' q}, id' ≠ id → (putPassage id p m.matched).lookup id' = some q →
        q.index ≠ p.index := fun he hq hsame =>
      hunused (hsame ▸ (hm.sound ((hother he).symm.trans hq)).2.1)
    intro id₁ id₂ p₁ p₂ h₁ h₂ hindex
    by_cases he₁ : id₁ = id
    · by_cases he₂ : id₂ = id
      · rw [he₁, he₂]
      · subst he₁
        obtain rfl : p = p₁ := Option.some.inj (hself.symm.trans h₁)
        exact absurd hindex.symm (hapart he₂ h₂)
    · by_cases he₂ : id₂ = id
      · subst he₂
        obtain rfl : p = p₂ := Option.some.inj (hself.symm.trans h₂)
        exact absurd hindex (hapart he₁ h₁)
      · exact hm.injective ((hother he₁).symm.trans h₁) ((hother he₂).symm.trans h₂) hindex
  case complete =>
    intro id' block' text' hmem hlists
    by_cases he : id' = id
    · subst he
      exact .inl ⟨p, hself⟩
    · have hdone : .str id' ∈ done := by simpa [he] using hmem
      refine (hm.complete hdone hlists).imp_left fun ⟨q, hq⟩ => ⟨q, ?_⟩
      exact (hother he).trans hq
  case greedy =>
    intro id' hmem
    obtain ⟨block', text', hlists, hall⟩ := hm.greedy hmem
    exact ⟨block', text', hlists, fun q hq hqmatch => List.mem_append_left _ (hall q hq hqmatch)⟩
  case taken =>
    intro i hi
    rcases List.mem_append.1 hi with hi | hi
    · exact hm.taken i hi
    · obtain rfl := List.mem_singleton.1 hi
      exact ⟨p, hp, rfl, id, block, text, hb, hmatch⟩
  case once =>
    rw [List.nodup_append]
    refine ⟨hm.once, List.nodup_singleton _, fun i hi j hj hsame => ?_⟩
    exact hunused (List.mem_singleton.1 hj ▸ hsame ▸ hi)
  case count =>
    rw [List.countP_append, List.countP_singleton, hb.isSome_block?, ← hm.count,
      List.length_append, if_pos rfl, List.length_singleton]
    exact Nat.add_right_comm _ _ _

/-! ## All blocks -/

theorem add (hb : s.Lists id block text) :
    Assigned rules s live (done ++ [.str id]) (m.add rules live id block text) := by
  rw [Mapping.add]
  split
  · next p hfind =>
    obtain ⟨hfree, hmatch⟩ := findFor_eq_some hfind
    exact hm.take hb hfree hmatch
  · next hnone => exact hm.miss hb hnone

/-- The search goes through the ids that are left. -/
theorem foldlM (hs : s.WellTyped) (hlisted : ∀ listed ∈ rest, listed ∈ s.listedIds) :
    ∃ m', rest.foldlM (Mapping.step rules s live) m = .ok m' ∧
      Assigned rules s live (done ++ rest) m' := by
  induction rest generalizing done m with
  | nil => exact ⟨m, rfl, by simpa using hm⟩
  | cons listed rest ih =>
    obtain ⟨hfirst, hrest⟩ := List.forall_mem_cons.1 hlisted
    obtain ⟨id, rfl⟩ := hs.listed listed hfirst
    obtain ⟨m₁, hstep, hm₁⟩ : ∃ m₁, Mapping.step rules s live m (.str id) = .ok m₁ ∧
        Assigned rules s live (done ++ [.str id]) m₁ := by
      cases hb : s.blocks.lookup id with
      | none => exact ⟨m, step_unknown hb, hm.skip hb⟩
      | some block =>
        obtain ⟨text, ht⟩ := hs.texts _ _ (mem_of_lookup hb)
        exact ⟨_, step_str hb ht, hm.add ⟨hfirst, hb, ht⟩⟩
    obtain ⟨m', hfold, hm'⟩ := ih hm₁ hrest
    refine ⟨m', ?_, ?_⟩
    · rw [List.foldlM_cons, hstep]
      exact hfold
    · rwa [List.append_assoc] at hm'

end Assigned

/-- The search succeeds for every snapshot whose ids and texts are texts, whatever it lists.  What
it finds for an id is a paragraph that is not blank and matches its block, no two ids share one,
each listed block is found or missed, and no paragraph that nobody took matches one that was
missed. -/
theorem rematch_assigns (rules : Rules) {live : Host} (hl : live.Answers) (hs : s.WellTyped) :
    ∃ m, (s.rematch rules).runOn live = (.ok m, live) ∧
      Assigned rules s (candidates live.document.passages) s.listedIds m := by
  obtain ⟨m, hmapping, hrun⟩ := hs.rematch_eq_ok rules hl
  obtain ⟨m', hfold, hassigned⟩ :=
    (Assigned.start rules s (candidates live.document.passages)).foldlM hs fun _ h => h
  obtain rfl : m' = m := Except.ok.inj (hfold.symm.trans hmapping)
  exact ⟨m', hrun, hassigned⟩

/-- One line is listed three times, over two sections, with an id without a block between; then a
heading that is a paragraph by now. -/
def listedAgain : Snapshot where
  sections := [⟨.str "s0", .str "Introduction", 0, [.str "b1", .str "b9", .str "b1"]⟩,
    ⟨.str "s1", .str "Budget", 1, [.str "b1", .str "b2"]⟩]
  blocks := [("b2", ⟨.str "b2", .str "heading", .str "Budget", .int 1⟩),
    ("b1", ⟨.str "b1", .str "paragraph", .str "Ship on Monday", .null⟩)]
  epoch := "then"

/-- The line, in two spellings, and the former heading. -/
def linesNow : Document where
  body :=
    .cons (.paragraph ⟨0⟩ "Normal" none) (.runOf "SHIP on Monday".toList)
      (.cons (.paragraph ⟨1⟩ "Normal" none) (.runOf "Ship on Monday ".toList)
      (.cons (.paragraph ⟨2⟩ "Normal" none) .nil
      (.single (.paragraph ⟨3⟩ "Normal" none) (.runOf "Budget".toList))))
  nextHandle := 4

theorem wellTyped_listedAgain : listedAgain.WellTyped where
  texts := by
    intro id block hb
    simp only [listedAgain, List.mem_cons, List.not_mem_nil, or_false, Prod.mk.injEq] at hb
    rcases hb with ⟨-, rfl⟩ | ⟨-, rfl⟩
    · exact ⟨_, rfl⟩
    · exact ⟨_, rfl⟩
  listed := by
    intro id hid
    simp only [listedIds, listedAgain, List.flatMap_cons, List.flatMap_nil, List.append_nil,
      List.mem_append, List.mem_cons, List.not_mem_nil, or_false] at hid
    rcases hid with (rfl | rfl | rfl) | rfl | rfl <;> exact ⟨_, rfl⟩

/-- The line is found with its own spelling first and with the other one after that, and then it is
missed; the heading is missed since the paragraph has no level. -/
theorem rematch_assigns_listedAgain :
    ∃ m, (listedAgain.rematch .standard).runOn { document := linesNow } =
        (.ok m, { document := linesNow }) ∧
      Assigned .standard listedAgain (candidates linesNow.passages) listedAgain.listedIds m ∧
      m.matched.map (fun e => (e.1, e.2.handle)) = [("b1", ⟨0⟩)] ∧
      m.unmatched = ["b1", "b2"] ∧ m.used = [1, 0] := by
  obtain ⟨m, hrun, hassigned⟩ := rematch_assigns .standard
    (show Host.Answers { document := linesNow } from ⟨rfl, rfl⟩) wellTyped_listedAgain
  obtain ⟨found, hfound, hfacts⟩ : ∃ found,
      (listedAgain.rematch .standard).runOn { document := linesNow } =
        (.ok found, { document := linesNow }) ∧
      found.matched.map (fun e => (e.1, e.2.handle)) = [("b1", ⟨0⟩)] ∧
      found.unmatched = ["b1", "b2"] ∧ found.used = [1, 0] :=
    ⟨_, rfl, by decide, by decide, by decide⟩
  obtain rfl : m = found := Except.ok.inj (Prod.mk.inj (hrun.symm.trans hfound)).1
  exact ⟨m, hrun, hassigned, hfacts⟩

end Redline.Snapshot
