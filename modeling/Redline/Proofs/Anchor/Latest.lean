import Mathlib.Data.Set.Finite.Lemmas
import Mathlib.Order.Bounds.Basic
import Redline.Proofs.Anchor.Missing
import Redline.Proofs.Number.Values

/-!
# The selection that was marked last

The selection that was marked last is found by the numbers in the tags of content controls: the
first control with the highest number is taken.  The search starts at zero and wants more, so that
a control with the number zero is never found, although the tag is that of a marked selection.

## Main definitions

* `Anchor.TagRow` — a tag that is the prefix and a row of digits.
* `Anchor.Numbers` — a tag that gives a number to a selection.

## Main results

* `Anchor.latestSelection_highest` — which selection is found.
* `Anchor.latestSelection_misses_zero` — a control with the number zero is not found.
-/

namespace Redline.Anchor

open Editing Numeral Redline.Text

variable {start tag : String} {row : List Char} {n : Nat} {markers : List Marker} {host : Host}

/-! ## The number of a tag -/

/-- A tag that is the prefix and a row of digits. -/
structure TagRow (start tag : String) (row : List Char) : Prop where
  split : tag.toList = start.toList ++ row
  isRow : IsRow row

/-- A tag that is the prefix and a row of digits that writes the number. -/
def Numbers (start tag : String) (n : Nat) : Prop := ∃ row, TagRow start tag row ∧ rowValue row = n

/-- Every row of digits in a tag is short enough to be read. -/
def Legible (start : String) (markers : List Marker) : Prop :=
  ∀ m ∈ markers, ∀ row, TagRow start m.tag row → row.length ≤ maxDigits

/-- The number that a tag gives to a selection. -/
def number? (start tag : String) : Option Nat :=
  if start.toList.isPrefixOf tag.toList then
    let digits := tag.toList.drop start.length
    if !digits.isEmpty && digits.all isDigit then some (rowValue digits) else none
  else none

theorem TagRow.eq_drop (h : TagRow start tag row) : tag.toList.drop start.length = row := by
  rw [h.split, ← String.length_toList, List.drop_left]

theorem TagRow.unique {other : List Char} (h : TagRow start tag row)
    (ho : TagRow start tag other) : other = row :=
  ho.eq_drop.symm.trans h.eq_drop

/-- Tags that are not too long have rows that are not too long. -/
theorem legible_of_length (h : ∀ m ∈ markers, m.tag.toList.length ≤ maxDigits) :
    Legible start markers := by
  intro m hm row hrow
  have hlength := congrArg List.length hrow.split
  have := h m hm
  rw [List.length_append] at hlength
  omega

theorem tagRow_iff : TagRow start tag row ↔
    start.toList.isPrefixOf tag.toList = true ∧ tag.toList.drop start.length = row ∧
      (!row.isEmpty && row.all isDigit) = true := by
  constructor
  · intro h
    exact ⟨List.isPrefixOf_iff_prefix.2 ⟨row, h.split.symm⟩, h.eq_drop,
      by simpa [List.all_eq_true] using ⟨h.isRow.ne_nil, h.isRow.digits⟩⟩
  · rintro ⟨hstart, hdrop, hdigits⟩
    obtain ⟨rest, hrest⟩ := List.isPrefixOf_iff_prefix.1 hstart
    have hrow : rest = row := by
      rw [← hdrop, ← hrest, ← String.length_toList, List.drop_left]
    simp only [Bool.and_eq_true, Bool.not_eq_true', List.isEmpty_eq_false_iff, List.all_eq_true]
      at hdigits
    exact ⟨by rw [← hrow, hrest], hdigits.1, hdigits.2⟩

theorem number?_eq_some_iff : number? start tag = some n ↔ Numbers start tag n := by
  constructor
  · intro h
    simp only [number?] at h
    split at h
    · next hstart =>
      split at h
      · next hdigits =>
        exact ⟨_, tagRow_iff.2 ⟨hstart, rfl, hdigits⟩, Option.some.inj h⟩
      · cases h
    · cases h
  · rintro ⟨row, hrow, rfl⟩
    obtain ⟨hstart, hdrop, hdigits⟩ := tagRow_iff.1 hrow
    simp only [number?, hstart, hdrop, hdigits, if_true]

/-- The number of a tag is found unless its row is too long. -/
theorem selectionNumber_eq (h : ∀ row, TagRow start tag row → row.length ≤ maxDigits) :
    selectionNumber start tag = .ok ((number? start tag).map fun n : Nat => (n : Int)) := by
  rw [selectionNumber, number?]
  split
  · next hstart =>
    dsimp only
    split
    · next hdigits =>
      have hrow : TagRow start tag (tag.toList.drop start.length) :=
        tagRow_iff.2 ⟨hstart, rfl, hdigits⟩
      rw [integer?_of_isRow hrow.isRow (h _ hrow)]
      rfl
    · rfl
  · rfl

theorem selectionNumber_of_long (h : TagRow start tag row) (hlong : maxDigits < row.length) :
    selectionNumber start tag = .error (.longInteger row.length) := by
  obtain ⟨hstart, hdrop, hdigits⟩ := tagRow_iff.1 h
  simp only [selectionNumber, hstart, hdrop, hdigits, if_true, integer?_of_long h.isRow hlong]

/-! ## The numbers of controls -/

/-- The controls with their numbers. -/
def entries (start : String) (markers : List Marker) : List (Int × Marker) :=
  markers.filterMap fun m => (number? start m.tag).map fun n : Nat => ((n : Int), m)

theorem mem_entries {x : Int × Marker} : x ∈ entries start markers ↔
    ∃ m ∈ markers, ∃ n : Nat, Numbers start m.tag n ∧ x = ((n : Int), m) := by
  simp only [entries, List.mem_filterMap, Option.map_eq_some_iff, number?_eq_some_iff]
  constructor
  · rintro ⟨m, hm, n, hn, rfl⟩
    exact ⟨m, hm, n, hn, rfl⟩
  · rintro ⟨m, hm, n, hn, rfl⟩
    exact ⟨m, hm, n, hn, rfl⟩

theorem numbered_eq (h : Legible start markers) :
    numbered start markers = .ok (entries start markers) := by
  induction markers with
  | nil => rfl
  | cons m rest ih =>
    have hm := selectionNumber_eq (h m List.mem_cons_self)
    have hrest := ih fun x hx => h x (List.mem_cons_of_mem _ hx)
    simp only [numbered, hm, hrest, bind, Except.bind, entries, List.filterMap_cons]
    cases number? start m.tag <;> rfl

/-- One row that is too long is enough for a fault. -/
theorem numbered_of_not_legible (h : ¬ Legible start markers) :
    ∃ digits, maxDigits < digits ∧ numbered start markers = .error (.longInteger digits) := by
  induction markers with
  | nil => exact absurd (fun _ hm => absurd hm List.not_mem_nil) h
  | cons m rest ih =>
    rcases selectionNumber_cases start m.tag with ⟨number, hnumber⟩ | ⟨row, _, _, hlong, herror⟩
    · have hrest : ¬ Legible start rest := by
        intro hlegible
        refine h (List.forall_mem_cons.2 ⟨?_, hlegible⟩)
        intro row hrow
        by_contra hlong
        rw [selectionNumber_of_long hrow (by omega)] at hnumber
        cases hnumber
      obtain ⟨digits, hdigits, herror⟩ := ih hrest
      exact ⟨digits, hdigits, by simp only [numbered, hnumber, herror, bind, Except.bind]⟩
    · exact ⟨row.length, hlong, by simp only [numbered, herror, bind, Except.bind]⟩

/-! ## The search -/

/-- The best entry so far and the next one. -/
def better (best : Int × Option Marker) (x : Int × Marker) : Int × Option Marker :=
  if best.1 < x.1 then (x.1, some x.2) else best

theorem latest?_eq (marked : List (Int × Marker)) :
    latest? marked = (marked.foldl better (0, none)).2 := rfl

/-- Entries with no higher number do not displace the best one. -/
theorem foldl_better_of_le {best : Int × Option Marker} {marked : List (Int × Marker)}
    (h : ∀ x ∈ marked, x.1 ≤ best.1) : marked.foldl better best = best := by
  induction marked with
  | nil => rfl
  | cons x rest ih =>
    have hx := h x List.mem_cons_self
    have hstep : better best x = best := if_neg (by omega)
    rw [List.foldl_cons, hstep]
    exact ih fun y hy => h y (List.mem_cons_of_mem _ hy)

/-- The best number stays below a bound that no entry reaches. -/
theorem foldl_better_lt {best : Int × Option Marker} {marked : List (Int × Marker)} {N : Int}
    (hbest : best.1 < N) (h : ∀ x ∈ marked, x.1 < N) : (marked.foldl better best).1 < N := by
  induction marked generalizing best with
  | nil => exact hbest
  | cons x rest ih =>
    have hx := h x List.mem_cons_self
    have hstep : (better best x).1 < N := by
      unfold better
      split <;> assumption
    exact ih hstep fun y hy => h y (List.mem_cons_of_mem _ hy)

/-- The first entry with the highest number is found if that number is above zero. -/
theorem latest?_of_split {before after : List (Int × Marker)} {N : Int} {m : Marker}
    (hN : 0 < N) (hbefore : ∀ x ∈ before, x.1 < N) (hafter : ∀ x ∈ after, x.1 ≤ N) :
    latest? (before ++ (N, m) :: after) = some m := by
  have hlt : (before.foldl better (0, none)).1 < N := foldl_better_lt hN hbefore
  have hstep : better (before.foldl better (0, none)) (N, m) = (N, some m) := if_pos hlt
  rw [latest?_eq, List.foldl_append, List.foldl_cons, hstep, foldl_better_of_le hafter]

theorem latest?_of_le_zero {marked : List (Int × Marker)} (h : ∀ x ∈ marked, x.1 ≤ 0) :
    latest? marked = none := by
  rw [latest?_eq, foldl_better_of_le h]

/-- There is a highest number. -/
theorem exists_isGreatest_numbers (h : ∃ m ∈ markers, ∃ n, Numbers start m.tag n) :
    ∃ N, IsGreatest {n | ∃ m ∈ markers, Numbers start m.tag n} N := by
  have hmem : ∀ n, (∃ m ∈ markers, Numbers start m.tag n) ↔
      n ∈ markers.filterMap fun m => number? start m.tag := by
    simp only [List.mem_filterMap, number?_eq_some_iff, implies_true]
  obtain ⟨m, hm, n, hn⟩ := h
  have hfinite := List.finite_toSet (markers.filterMap fun m => number? start m.tag)
  obtain ⟨N, hN, hmax⟩ := Set.exists_max_image _ id hfinite ⟨n, (hmem n).1 ⟨m, hm, hn⟩⟩
  exact ⟨N, (hmem N).2 hN, fun k hk => hmax k ((hmem k).1 hk)⟩

/-- If some control has a number above zero, the first control with the highest number is found. -/
theorem latest?_entries (h : ∃ m ∈ markers, ∃ n, 0 < n ∧ Numbers start m.tag n) :
    ∃ N before m after, IsGreatest {n | ∃ m ∈ markers, Numbers start m.tag n} N ∧
      markers = before ++ m :: after ∧ Numbers start m.tag N ∧
      (∀ e ∈ before, ¬ Numbers start e.tag N) ∧
      latest? (entries start markers) = some m := by
  obtain ⟨m₀, hm₀, n₀, hpos, hn₀⟩ := h
  obtain ⟨N, ⟨m₁, hm₁, hnumber⟩, hbound⟩ := exists_isGreatest_numbers ⟨m₀, hm₀, n₀, hn₀⟩
  have hsome : (markers.find? fun m => number? start m.tag = some N).isSome := by
    rw [List.find?_isSome]
    exact ⟨m₁, hm₁, by simpa using number?_eq_some_iff.2 hnumber⟩
  obtain ⟨m, hfind⟩ := Option.isSome_iff_exists.1 hsome
  obtain ⟨hm, before, after, hsplit, hfirst⟩ := List.find?_eq_some_iff_append.1 hfind
  have hmN : number? start m.tag = some N := by simpa using hm
  have hbefore : ∀ e ∈ before, ¬ Numbers start e.tag N := by
    intro e he hN
    have := hfirst e he
    simp [number?_eq_some_iff.2 hN] at this
  have hle : ∀ x ∈ entries start markers, x.1 ≤ (N : Int) := by
    intro x hx
    obtain ⟨e, he, n, hn, rfl⟩ := mem_entries.1 hx
    exact Int.ofNat_le.2 (hbound ⟨e, he, hn⟩)
  have hentries : entries start markers =
      entries start before ++ ((N : Int), m) :: entries start after := by
    rw [hsplit, entries, List.filterMap_append, List.filterMap_cons, hmN]
    rfl
  refine ⟨N, before, m, after, ⟨⟨m₁, hm₁, hnumber⟩, hbound⟩, hsplit,
    number?_eq_some_iff.1 hmN, hbefore, ?_⟩
  have hNpos : 0 < N := hpos.trans_le (hbound ⟨m₀, hm₀, hn₀⟩)
  rw [hentries] at hle ⊢
  refine latest?_of_split (by omega) ?_ fun x hx => hle x (by simp [hx])
  intro x hx
  have hxle := hle x (by simp [hx])
  obtain ⟨e, he, n, hn, rfl⟩ := mem_entries.1 hx
  have hne : n ≠ N := by
    rintro rfl
    exact hbefore e he hn
  dsimp only at hxle ⊢
  omega

/-! ## The selection -/

/-- The selection that was marked last is the content of the first control with the highest number
above zero, and there is none if no control has such a number.  A row of digits that is too long
stops the search. -/
theorem latestSelection_highest (ha : host.Answers) (rules : Rules) :
    (Legible rules.selectionPrefix host.document.body.markers →
      ((∃ m ∈ host.document.body.markers, ∃ n, 0 < n ∧ Numbers rules.selectionPrefix m.tag n) →
        ∃ N before m after range,
          IsGreatest {n | ∃ m ∈ host.document.body.markers,
            Numbers rules.selectionPrefix m.tag n} N ∧
          host.document.body.markers = before ++ m :: after ∧
          Numbers rules.selectionPrefix m.tag N ∧
          (∀ e ∈ before, ¬ Numbers rules.selectionPrefix e.tag N) ∧
          (Host.markerRange m.handle).runOn host = (.ok range, host) ∧
          (latestSelection rules).runOn host = (.ok (some range), host)) ∧
      ((∀ m ∈ host.document.body.markers, ∀ n, Numbers rules.selectionPrefix m.tag n → n = 0) →
        (latestSelection rules).runOn host = (.ok none, host))) ∧
    (¬ Legible rules.selectionPrefix host.document.body.markers →
      ∃ digits, maxDigits < digits ∧
        (latestSelection rules).runOn host = (.error (.fault (.longInteger digits)), host)) := by
  refine ⟨fun hlegible => ⟨fun hnumbered => ?_, fun hzero => ?_⟩, fun hlong => ?_⟩
  · obtain ⟨N, before, m, after, hgreatest, hsplit, hnumber, hfirst, hlatest⟩ :=
      latest?_entries hnumbered
    refine ⟨N, before, m, after, _, hgreatest, hsplit, hnumber, hfirst, ha.markerRange _, ?_⟩
    simp [latestSelection, runOn_bind, ha.markers, numbered_eq hlegible, hlatest, runOn_map,
      ha.markerRange]
  · have hnone : latest? (entries rules.selectionPrefix host.document.body.markers) = none := by
      refine latest?_of_le_zero fun x hx => ?_
      obtain ⟨m, hm, n, hn, rfl⟩ := mem_entries.1 hx
      have := hzero m hm n hn
      dsimp only
      omega
    simp [latestSelection, runOn_bind, ha.markers, numbered_eq hlegible, hnone]
  · obtain ⟨digits, hdigits, herror⟩ := numbered_of_not_legible hlong
    refine ⟨digits, hdigits, ?_⟩
    simp [latestSelection, runOn_bind, ha.markers, herror, lift]

/-- A control with the given tag around one paragraph. -/
def taggedLine (tag : String) (control paragraph : Nat) : Forest :=
  .single (.control ⟨control⟩ (some { tag := some tag }))
    (.single (.paragraph ⟨paragraph⟩ "Normal" none) (.runOf "x".toList))

/-- Two controls with the number twelve, written in two scripts, and others around them. -/
def numberedLines : Document where
  body := taggedLine "selected_7" 0 1 ++ (taggedLine "selected_012" 2 3 ++
    (taggedLine "selected_99x" 4 5 ++ (taggedLine "selected_١٢" 6 7 ++ taggedLine "12" 8 9)))
  nextHandle := 10

theorem latestSelection_highest_twelve :
    let host : Host := { document := numberedLines }
    host.Answers ∧ ∃ (m : Marker) (range : List Handle),
      IsGreatest {n | ∃ m ∈ numberedLines.body.markers, Numbers "selected_" m.tag n} 12 ∧
        Numbers "selected_" m.tag 12 ∧
        (latestSelection .standard).runOn host = (.ok (some range), host) ∧ range = [⟨3⟩] := by
  intro host
  have hanswers : host.Answers := ⟨rfl, rfl⟩
  have hlegible : Legible Rules.standard.selectionPrefix numberedLines.body.markers :=
    legible_of_length (by decide)
  obtain ⟨hfound, -⟩ := (latestSelection_highest hanswers .standard).1 hlegible
  obtain ⟨N, before, m, after, range, hgreatest, hsplit, hnumber, hfirst, hrange, hrun⟩ :=
    hfound ⟨⟨"selected_7", none, ⟨0⟩⟩, by decide, 7, by decide,
      number?_eq_some_iff.1 (by decide)⟩
  have hlatest : (latestSelection .standard).runOn host = (.ok (some [⟨3⟩]), host) := rfl
  have hle : ∀ m ∈ numberedLines.body.markers,
      (number? Rules.standard.selectionPrefix m.tag).getD 0 ≤ 12 := by decide
  have htwelve : Numbers "selected_" "selected_012" 12 := number?_eq_some_iff.1 (by decide)
  have hupper : N ≤ 12 := by
    have := hle m (hsplit ▸ List.mem_append_right _ List.mem_cons_self)
    rwa [number?_eq_some_iff.2 hnumber] at this
  have hlower : 12 ≤ N := hgreatest.2 ⟨⟨"selected_012", none, ⟨2⟩⟩, by decide, htwelve⟩
  obtain rfl : N = 12 := by omega
  have hranges := hrun.symm.trans hlatest
  exact ⟨hanswers, m, range, hgreatest, hnumber, hrun, by simpa using hranges⟩

/-- The only control is tagged as the marked selection number zero, and no selection is found. -/
def zeroLine : Document where
  body := .cons (.paragraph ⟨0⟩ "Normal" none) (.runOf "a".toList) (taggedLine "selected_0" 1 2)
  nextHandle := 3

theorem latestSelection_misses_zero :
    let host : Host := { document := zeroLine }
    let marker : Marker := ⟨"selected_0", none, ⟨1⟩⟩
    host.Answers ∧ zeroLine.body.markers = [marker] ∧
      Numbers Rules.standard.selectionPrefix marker.tag 0 ∧
      (Host.markerRange marker.handle).runOn host = (.ok [⟨2⟩], host) ∧
      (latestSelection .standard).runOn host = (.ok none, host) :=
  ⟨⟨rfl, rfl⟩, by decide, number?_eq_some_iff.1 (by decide), rfl, rfl⟩

end Redline.Anchor
