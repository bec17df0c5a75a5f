import Mathlib.Algebra.Order.Ring.Rat
import Mathlib.Data.Set.Finite.Lemmas
import Mathlib.Order.Bounds.Basic
import Redline.Heading.Best

/-!
# The best heading is the first maximum

The search for a heading ends early at a full score and lets only higher scores displace the best
one.  Where scores are numbers from zero to one, it finds the first heading with the largest score,
and the threshold decides on that score alone.

## Main definitions

* `Heading.exactScorer` — the scorer with given numbers as scores.
-/

namespace Redline.Heading

variable {rules : Rules} {value : String → String → Rat} {text : String} {best : Option Passage}
  {s t M : Rat} {p : Passage} {passages : List Passage}

/-- The scorer with given numbers as scores. -/
def exactScorer (value : String → String → Rat) : Scorer := fun text heading =>
  .exact (value text heading)

theorem exact_eq_top : Score.exact M = .top ↔ M = 1 := by
  rw [Score.top, Score.exact.injEq]

/-! ## The search -/

/-- One step of the search. -/
theorem bestFrom_exact_cons :
    bestFrom (exactScorer value) text best (.exact s) (p :: passages) =
      if value text p.text = 1 then (some p, .exact (value text p.text))
      else if s < value text p.text then
        bestFrom (exactScorer value) text (some p) (.exact (value text p.text)) passages
      else bestFrom (exactScorer value) text best (.exact s) passages := by
  simp only [bestFrom, exactScorer, exact_eq_top, Score.exceeds, decide_eq_true_eq]

/-- Headings that score no more than the best one so far do not displace it. -/
theorem bestFrom_of_le (hs : s < 1) (hle : ∀ q ∈ passages, value text q.text ≤ s) :
    bestFrom (exactScorer value) text best (.exact s) passages = (best, .exact s) := by
  induction passages with
  | nil => rfl
  | cons q rest ih =>
    have hq : value text q.text ≤ s := hle q List.mem_cons_self
    rw [bestFrom_exact_cons, if_neg (hq.trans_lt hs).ne, if_neg hq.not_gt]
    exact ih fun x hx => hle x (List.mem_cons_of_mem _ hx)

/-- The first heading with the largest score displaces whatever scores less. -/
theorem bestFrom_of_find? (hM : M ≤ 1) (hs : s < M)
    (hle : ∀ q ∈ passages, value text q.text ≤ M)
    (hp : passages.find? (fun q => value text q.text = M) = some p) :
    bestFrom (exactScorer value) text best (.exact s) passages = (some p, .exact M) := by
  -- The best score so far stays below the largest one until its first heading is met.
  induction passages generalizing best s with
  | nil => cases hp
  | cons q rest ih =>
    obtain ⟨hq, hrest⟩ := List.forall_mem_cons.1 hle
    rw [bestFrom_exact_cons]
    by_cases hfirst : value text q.text = M
    · rw [List.find?_cons_of_pos (by simpa using hfirst)] at hp
      obtain rfl : q = p := Option.some.inj hp
      rw [hfirst, if_pos hs]
      by_cases hfull : M = 1
      · rw [if_pos hfull]
      · rw [if_neg hfull]
        exact bestFrom_of_le (lt_of_le_of_ne hM hfull) hrest
    · rw [List.find?_cons_of_neg (by simpa using hfirst)] at hp
      have hlt : value text q.text < M := lt_of_le_of_ne hq hfirst
      rw [if_neg (hlt.trans_le hM).ne]
      split
      · exact ih hlt hrest hp
      · exact ih hs hrest hp

/-! ## The threshold -/

/-- What the threshold makes of the heading that was found. -/
theorem best?_of_bestFrom (ht : Score.ofBinary64 rules.matchThreshold = .exact t) (ht1 : t < 1)
    (h : bestFrom (exactScorer value) text none .zero (headings rules passages) =
      (some p, .exact M)) :
    best? rules (exactScorer value) passages text = if t < M then some (p, .exact M) else none := by
  simp only [best?, h, exact_eq_top, ht, Score.atMost, decide_eq_true_eq]
  by_cases hfull : M = 1
  · rw [if_pos hfull, if_pos (hfull ▸ ht1)]
  · rw [if_neg hfull]
    by_cases hM : M ≤ t
    · rw [if_pos hM, if_neg hM.not_gt]
    · rw [if_neg hM, if_pos (lt_of_not_ge hM)]

theorem best?_of_le_zero (hle : ∀ q ∈ headings rules passages, value text q.text ≤ 0) :
    best? rules (exactScorer value) passages text = none := by
  have hnone : bestFrom (exactScorer value) text none .zero (headings rules passages) =
      (none, .exact 0) := bestFrom_of_le zero_lt_one hle
  simp only [best?, hnone]

theorem headings_headings (rules : Rules) (passages : List Passage) :
    headings rules (headings rules passages) = headings rules passages := by
  simp [headings, List.filter_filter]

/-- There is a largest score. -/
theorem exists_isGreatest (value : String → String → Rat) (text : String) (hne : passages ≠ []) :
    ∃ M, IsGreatest {x | ∃ p ∈ passages, value text p.text = x} M := by
  obtain ⟨p, hp, hmax⟩ := Set.exists_max_image {p | p ∈ passages} (fun p => value text p.text)
    passages.finite_toSet (List.exists_mem_of_ne_nil passages hne)
  refine ⟨value text p.text, ⟨p, hp, rfl⟩, ?_⟩
  rintro x ⟨q, hq, rfl⟩
  exact hmax q hq

/-- The best heading is the first one with the largest score, together with that score, if it
exceeds the threshold; otherwise, and when there are no headings, there is none.  Paragraphs that are
no headings have no part in it. -/
theorem best?_eq_first_max
    (hvalue : ∀ text heading, 0 ≤ value text heading ∧ value text heading ≤ 1)
    (ht : Score.ofBinary64 rules.matchThreshold = .exact t) (ht0 : 0 ≤ t) (ht1 : t < 1)
    (passages : List Passage) (text : String) :
    (headings rules passages ≠ [] →
      ∃ M, IsGreatest {x | ∃ p ∈ headings rules passages, value text p.text = x} M ∧
        (t < M → ∃ p, (headings rules passages).find? (fun q => value text q.text = M) = some p ∧
          best? rules (exactScorer value) passages text = some (p, .exact M)) ∧
        (M ≤ t → best? rules (exactScorer value) passages text = none)) ∧
    (headings rules passages = [] → best? rules (exactScorer value) passages text = none) ∧
    best? rules (exactScorer value) (headings rules passages) text =
      best? rules (exactScorer value) passages text := by
  refine ⟨?_, ?_, ?_⟩
  · intro hne
    obtain ⟨M, hM⟩ := exists_isGreatest value text hne
    refine ⟨M, hM, ?_⟩
    obtain ⟨⟨q, hq, hqM⟩, hbound⟩ := hM
    have hle : ∀ x ∈ headings rules passages, value text x.text ≤ M := fun x hx =>
      hbound ⟨x, hx, rfl⟩
    by_cases hzero : M ≤ 0
    · have hnone := best?_of_le_zero fun x hx => (hle x hx).trans hzero
      exact ⟨fun htM => absurd (ht0.trans_lt htM) hzero.not_gt, fun _ => hnone⟩
    · obtain ⟨p, hp⟩ : ∃ p,
          (headings rules passages).find? (fun q => value text q.text = M) = some p := by
        rw [← Option.isSome_iff_exists, List.find?_isSome]
        exact ⟨q, hq, by simpa using hqM⟩
      have hM1 : M ≤ 1 := hqM ▸ (hvalue text q.text).2
      have hbest := best?_of_bestFrom ht ht1 (bestFrom_of_find? hM1 (lt_of_not_ge hzero) hle hp)
      constructor
      · intro htM
        exact ⟨p, hp, by rw [hbest, if_pos htM]⟩
      · intro hMt
        rw [hbest, if_neg hMt.not_gt]
  · intro hnone
    exact best?_of_le_zero (by simp [hnone])
  · simp only [best?, headings_headings]

/-- Scores by which two of the headings below share the largest one. -/
def pageValue : String → String → Rat := fun _ heading =>
  if heading = "Costs" ∨ heading = "Dates" then 3 / 4 else if heading = "Aims" then 1 / 10 else 0

/-- A page whose first paragraph is no heading. -/
def pagePassages : List Passage :=
  [⟨0, "Dates", "Normal", ⟨0⟩⟩, ⟨1, "Aims", "Heading 1", ⟨1⟩⟩, ⟨2, "Costs", "Heading 2", ⟨2⟩⟩,
    ⟨3, "Dates", "Heading 1", ⟨3⟩⟩]

theorem best?_eq_first_max_tie :
    best? .standard (exactScorer pageValue) pagePassages "money" =
      some (⟨2, "Costs", "Heading 2", ⟨2⟩⟩, .exact (3 / 4)) := by
  have hvalue : ∀ text heading, 0 ≤ pageValue text heading ∧ pageValue text heading ≤ 1 := by
    intro text heading
    unfold pageValue
    split
    · decide +kernel
    · split <;> decide +kernel
  have ht : Score.ofBinary64 Rules.standard.matchThreshold =
      .exact (3602879701896397 / 36028797018963968) := by decide +kernel
  have hM : IsGreatest {x | ∃ p ∈ headings .standard pagePassages,
      pageValue "money" p.text = x} (3 / 4) := by
    refine ⟨⟨⟨2, "Costs", "Heading 2", ⟨2⟩⟩, by decide, by decide +kernel⟩, ?_⟩
    rintro x ⟨p, hp, rfl⟩
    revert p
    decide +kernel
  have hfind : (headings .standard pagePassages).find? (fun q => pageValue "money" q.text = 3 / 4) =
      some ⟨2, "Costs", "Heading 2", ⟨2⟩⟩ := by decide +kernel
  obtain ⟨hfound, -, -⟩ := best?_eq_first_max hvalue ht (by decide +kernel) (by decide +kernel)
    pagePassages "money"
  obtain ⟨M, hgreatest, hexceeds, -⟩ := hfound (by decide)
  obtain rfl := hgreatest.unique hM
  obtain ⟨p, hp, hbest⟩ := hexceeds (by decide +kernel)
  obtain rfl := Option.some.inj (hfind.symm.trans hp)
  exact hbest

end Redline.Heading
