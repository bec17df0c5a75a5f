import Redline.Proofs.Anchor.Range
import Redline.Proofs.Number.Digits

/-!
# Anchors that lead nowhere

On a host that answers its queries an anchor can fail to be found, and the tag of a marked selection
can end in more digits than an integer may have.  Nothing else can go wrong with it.
-/

namespace Redline

open Editing Redline.Text

variable {rules : Rules} {host left : Host} {anchor : String} {mishap : Mishap}

namespace Anchor

/-- The numbers of marked selections can be told unless one of them is too long. -/
theorem selectionNumber_cases (start tag : String) :
    (∃ number, selectionNumber start tag = .ok number) ∨
      ∃ row, tag.toList = start.toList ++ row ∧ Numeral.IsRow row ∧
        Numeral.maxDigits < row.length ∧
        selectionNumber start tag = .error (.longInteger row.length) := by
  rw [selectionNumber]
  split
  · next hstart =>
    obtain ⟨row, hrow⟩ := List.isPrefixOf_iff_prefix.1 hstart
    have hdrop : tag.toList.drop start.length = row := by
      rw [← hrow, ← String.length_toList, List.drop_left]
    simp only [hdrop]
    split
    · next hdigits =>
      simp only [Bool.and_eq_true, Bool.not_eq_true', List.isEmpty_eq_false_iff, List.all_eq_true]
        at hdigits
      have hisRow : Numeral.IsRow row := ⟨hdigits.1, hdigits.2⟩
      rcases Numeral.integer?_row hisRow with ⟨_, n, hn⟩ | ⟨hlong, herror⟩
      · exact .inl ⟨_, by rw [hn]⟩
      · exact .inr ⟨row, hrow.symm, hisRow, hlong, by rw [herror]⟩
    · exact .inl ⟨_, rfl⟩
  · exact .inl ⟨_, rfl⟩

theorem numbered_error {start : String} {markers : List Marker} {f : Fault}
    (h : numbered start markers = .error f) :
    ∃ marker ∈ markers, ∃ row, marker.tag.toList = start.toList ++ row ∧ Numeral.IsRow row ∧
      Numeral.maxDigits < row.length ∧ f = .longInteger row.length := by
  induction markers with
  | nil => cases h
  | cons marker rest ih =>
    rcases selectionNumber_cases start marker.tag with
      ⟨number, hnumber⟩ | ⟨row, htag, hrow, hlong, herror⟩
    · cases hrest : numbered start rest with
      | ok others => simp [numbered, hnumber, hrest, bind, Except.bind] at h
      | error g =>
        have hg : g = f := by simpa [numbered, hnumber, hrest, bind, Except.bind] using h
        obtain ⟨found, hfound, hrow⟩ := ih (hg ▸ hrest)
        exact ⟨found, List.mem_cons_of_mem _ hfound, hrow⟩
    · have hf : Fault.longInteger row.length = f := by
        simpa [numbered, herror, bind, Except.bind] using h
      exact ⟨marker, List.mem_cons_self, row, htag, hrow, hlong, hf.symm⟩

end Anchor

/-- What a strategy finds are paragraphs of the document. -/
theorem Document.range_subset_of_attempt? {d : Document} (hd : d.WellFormed) {strategy : Strategy}
    {found : Resolution} (h : d.attempt? rules anchor strategy = some found) :
    found.range ⊆ d.body.listed := by
  cases strategy with
  | marker =>
    obtain ⟨m, hm, rfl⟩ := Option.map_eq_some_iff.1 h
    exact (ownParagraphs_inside_sublist hd (List.mem_of_find?_eq_some hm)).subset
  | bookmark =>
    obtain ⟨b, _, rfl⟩ := Option.map_eq_some_iff.1 h
    exact (d.body.bookmarkRange_isInfix b).subset
  | heading =>
    obtain ⟨p, hp, rfl⟩ := Option.map_eq_some_iff.1 h
    have hmem := List.mem_of_mem_filter (List.mem_of_find?_eq_some hp)
    simpa [← map_handle_passages] using ⟨p, hmem, rfl⟩
  | default => cases h

/-- What is found as a heading is a paragraph of the document. -/
theorem Document.mem_passages_of_attempt? {d : Document} {strategy : Strategy} {found : Resolution}
    (h : d.attempt? rules anchor strategy = some found) {p : Passage}
    (hp : found.heading = some p) : p ∈ d.passages := by
  cases strategy with
  | heading =>
    obtain ⟨q, hq, rfl⟩ := Option.map_eq_some_iff.1 h
    obtain rfl := Option.some.inj hp
    exact List.mem_of_mem_filter (List.mem_of_find?_eq_some hq)
  | marker | bookmark =>
    obtain ⟨_, _, rfl⟩ := Option.map_eq_some_iff.1 h
    cases hp
  | default => cases h

namespace Host.Answers

section
variable (ha : host.Answers) (hne : anchor ≠ rules.defaultAnchor)
include ha hne

theorem resolveFrom_error {refusals : List (String × String)} {strategies : List Strategy}
    (h : (Anchor.resolveFrom rules anchor refusals strategies).runOn host = (.error mishap, left)) :
    mishap = .failure
      (.anchorUnresolved anchor (Strategy.all.map Strategy.name) refusals.reverse) := by
  induction strategies with
  | nil =>
    simp only [Anchor.resolveFrom, runOn_failure, Prod.mk.injEq, Except.error.injEq] at h
    exact h.1.symm
  | cons strategy rest ih =>
    rw [Anchor.resolveFrom, runOn_bind, catchRefusal_of_ok (ha.attempt hne strategy)] at h
    cases hfound : host.document.attempt? rules anchor strategy with
    | none => exact ih (by simpa [hfound] using h)
    | some found => simp [hfound] at h

/-- An anchor that cannot be resolved is not in the document. -/
theorem resolve_error (h : (Anchor.resolve rules anchor).runOn host = (.error mishap, left)) :
    Strategy.all.findSome? (host.document.attempt? rules anchor) = none ∧
      mishap = .failure (.anchorUnresolved anchor (Strategy.all.map Strategy.name) []) := by
  constructor
  · cases hfound : Strategy.all.findSome? (host.document.attempt? rules anchor) with
    | none => rfl
    | some found => simp [(ha.resolve hne).2 ⟨hfound, rfl⟩] at h
  · have hfrom : (Anchor.resolveFrom rules anchor [] Strategy.all).runOn host =
        (.error mishap, left) := by
      simpa [Anchor.resolve, Anchor.ensureHost, runOn_bind, ha.isOpen] using h
    exact ha.resolveFrom_error hne hfrom

end

/-- The range of a replacement is missed when there is none, or when the number of a marked selection
is too long. -/
theorem replacedRange_error (ha : host.Answers) (hn : host.document.body.listed.Nodup)
    {setting : Execution.Setting} (hne : anchor ≠ setting.rules.defaultAnchor)
    (h : (Execution.replacedRange setting anchor).runOn host = (.error mishap, left)) :
    host.document.range? setting.rules anchor = none ∧
      ((anchor = setting.rules.selectionAnchor ∧ mishap = .failure (.selectionMissing anchor)) ∨
      mishap = .failure (.anchorUnresolved anchor (Strategy.all.map Strategy.name) []) ∨
      anchor = setting.rules.selectionAnchor ∧ ∃ marker ∈ host.document.body.markers, ∃ row,
        marker.tag.toList = setting.rules.selectionPrefix.toList ++ row ∧ Numeral.IsRow row ∧
          Numeral.maxDigits < row.length ∧ mishap = .fault (.longInteger row.length)) := by
  constructor
  · cases hrange : host.document.range? setting.rules anchor with
    | none => rfl
    | some range => simp [(ha.replacedRange hn hne).2 ⟨hrange, rfl⟩] at h
  by_cases hs : anchor = setting.rules.selectionAnchor
  · simp only [Execution.replacedRange, if_pos hs, Anchor.latestSelection, runOn_bind,
      ha.markers] at h
    cases hmarked : Anchor.numbered setting.rules.selectionPrefix host.document.body.markers with
    | error f =>
      obtain ⟨marker, hmarker, row, htag, hrow, hlong, rfl⟩ := Anchor.numbered_error hmarked
      simp only [hmarked, lift, runOn_fault, Prod.mk.injEq, Except.error.injEq] at h
      exact .inr (.inr ⟨hs, marker, hmarker, row, htag, hrow, hlong, h.1.symm⟩)
    | ok marked =>
      cases hlatest : Anchor.latest? marked with
      | some m => simp [hmarked, hlatest, runOn_map, ha.markerRange] at h
      | none =>
        simp only [hmarked, runOn_lift_ok, hlatest, runOn_pure, runOn_failure, Prod.mk.injEq,
          Except.error.injEq] at h
        exact .inl ⟨hs, h.1.symm⟩
  · refine .inr (.inl ?_)
    rw [Execution.replacedRange, if_neg hs, runOn_bind] at h
    rcases hresolve : (Anchor.resolve setting.rules anchor).runOn host with ⟨early | found, last⟩
    · simp only [hresolve, Prod.mk.injEq, Except.error.injEq] at h
      exact h.1 ▸ (ha.resolve_error hne hresolve).2
    · obtain ⟨hfound, rfl⟩ := (ha.resolve hne).1 hresolve
      simp only [hresolve] at h
      -- A heading that is found is a passage of the document, so its section has a range.
      cases hheading : found.heading with
      | none => simp [hheading] at h
      | some p =>
        obtain ⟨strategy, _, hattempt⟩ := List.exists_of_findSome?_eq_some hfound
        have hp := Document.mem_passages_of_attempt? hattempt hheading
        simp [hheading, ha.sectionRange hn hp] at h

end Host.Answers

end Redline
