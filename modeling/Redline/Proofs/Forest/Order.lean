import Mathlib.Data.List.Infix
import Mathlib.Data.List.Nodup
import Redline.Document.Bookmark

/-!
# The order of paragraphs

Positions in lists without repetitions: what stands between two paragraphs, how consecutive
paragraphs lie among all, and how the order changes when each item gives way to several.
-/

namespace Redline

variable {α β : Type} [DecidableEq α] {l segment : List α} {a b x y : α}

theorem findIdx?_beq (ha : a ∈ l) : l.findIdx? (· == a) = some (l.idxOf a) :=
  List.findIdx?_eq_some_of_exists ⟨a, ha, beq_self_eq_true a⟩

theorem findIdx?_beq_of_notMem (ha : a ∉ l) : l.findIdx? (· == a) = none := by
  rw [List.findIdx?_eq_none_iff]
  intro x hx
  simpa using fun he : x = a => ha (he ▸ hx)

/-- Where keys are not repeated, an item is found by its key. -/
theorem find?_key {key : β → α} {items : List β} (hn : (items.map key).Nodup) {item : β}
    (hi : item ∈ items) : items.find? (fun other => key other == key item) = some item := by
  cases hf : items.find? fun other => key other == key item with
  | none => simpa using List.find?_eq_none.1 hf item hi
  | some other =>
    have hkey : key other = key item := by simpa using List.find?_some hf
    rw [List.inj_on_of_nodup_map hn (List.mem_of_find?_eq_some hf) hi hkey]

/-- A part of a list from one position through another. -/
theorem mem_slice (hn : l.Nodup) {i j : Nat} :
    x ∈ Forest.slice l i j ↔ x ∈ l ∧ i ≤ l.idxOf x ∧ l.idxOf x ≤ j := by
  have hget : ∀ {k : Nat}, l[k]? = some x → l.idxOf x = k := fun hk => by
    obtain ⟨hlt, rfl⟩ := List.getElem?_eq_some_iff.1 hk
    exact hn.idxOf_getElem _ hlt
  rw [Forest.slice, List.mem_iff_getElem?]
  simp only [List.getElem?_take, List.getElem?_drop]
  constructor
  · rintro ⟨k, hk⟩
    split at hk
    · have := hget hk
      exact ⟨List.mem_of_getElem? hk, by omega, by omega⟩
    · cases hk
  · rintro ⟨hx, hi, hj⟩
    refine ⟨l.idxOf x - i, ?_⟩
    rw [if_pos (by omega), show i + (l.idxOf x - i) = l.idxOf x by omega]
    have hlt := List.idxOf_lt_length_of_mem hx
    rw [List.getElem?_eq_getElem hlt, List.getElem_idxOf]

theorem eq_of_idxOf_eq (hx : x ∈ l) (h : l.idxOf x = l.idxOf y) : x = y := by
  have hy : y ∈ l := List.idxOf_lt_length_iff.1 (h ▸ List.idxOf_lt_length_of_mem hx)
  exact (List.idxOf_inj hx).1 h

/-! ## Consecutive items -/

/-- Where consecutive items lie. -/
theorem exists_bounds (hn : l.Nodup) (hs : segment <:+: l) :
    ∃ n, ∀ x, (x ∈ segment → l.idxOf x = n + segment.idxOf x) ∧
      (x ∈ l → n ≤ l.idxOf x → l.idxOf x < n + segment.length → x ∈ segment) := by
  obtain ⟨front, tail, rfl⟩ := hs
  refine ⟨front.length, fun x => ⟨fun hx => ?_, fun hx hlo hhi => ?_⟩⟩
  · have hf : x ∉ front := fun hf =>
      (List.nodup_append.1 (List.nodup_append.1 hn).1).2.2 x hf x hx rfl
    rw [List.append_assoc, List.idxOf_append, if_neg hf, List.idxOf_append, if_pos hx]
    omega
  · by_contra hc
    rw [List.append_assoc, List.idxOf_append] at hlo hhi
    split at hlo
    · next hf =>
      have := List.idxOf_lt_length_of_mem hf
      omega
    · next hf =>
      rw [if_neg hf, List.idxOf_append, if_neg hc] at hhi
      omega

theorem idxOf_head_le (hn : l.Nodup) (hs : segment <:+: l) (ha : segment.head? = some a)
    (hx : x ∈ segment) : l.idxOf a ≤ l.idxOf x := by
  obtain ⟨n, hb⟩ := exists_bounds hn hs
  cases segment with
  | nil => cases ha
  | cons b rest =>
    obtain rfl := Option.some.inj ha
    have := (hb b).1 List.mem_cons_self
    have := (hb x).1 hx
    simp at *
    omega

theorem idxOf_le_getLast (hn : l.Nodup) (hs : segment <:+: l) (ha : segment.getLast? = some a)
    (hx : x ∈ segment) : l.idxOf x ≤ l.idxOf a := by
  obtain ⟨n, hb⟩ := exists_bounds hn hs
  have hns : segment.Nodup := hn.sublist hs.sublist
  have hlt := List.idxOf_lt_length_of_mem hx
  have ha' := (hb a).1 (List.mem_of_getLast? ha)
  have hx' := (hb x).1 hx
  have : segment.idxOf a = segment.length - 1 := by
    rw [List.getLast?_eq_getElem?] at ha
    obtain ⟨hl, rfl⟩ := List.getElem?_eq_some_iff.1 ha
    exact hns.idxOf_getElem _ hl
  omega

/-- What does not belong to consecutive items lies on one side of all of them. -/
theorem idxOf_lt_of_notMem (hn : l.Nodup) (hs : segment <:+: l) (hx : x ∈ segment)
    (hy : y ∈ segment) (ha : a ∈ l) (hna : a ∉ segment) (h : l.idxOf x ≤ l.idxOf a) :
    l.idxOf y < l.idxOf a := by
  obtain ⟨n, hb⟩ := exists_bounds hn hs
  have hx' := (hb x).1 hx
  have hy' := (hb y).1 hy
  have := List.idxOf_lt_length_of_mem hy
  by_contra hc
  exact hna ((hb a).2 ha (by omega) (by omega))

theorem lt_idxOf_of_notMem (hn : l.Nodup) (hs : segment <:+: l) (hx : x ∈ segment)
    (hy : y ∈ segment) (ha : a ∈ l) (hna : a ∉ segment) (h : l.idxOf a ≤ l.idxOf x) :
    l.idxOf a < l.idxOf y := by
  obtain ⟨n, hb⟩ := exists_bounds hn hs
  have hx' := (hb x).1 hx
  have hy' := (hb y).1 hy
  have := List.idxOf_lt_length_of_mem hx
  by_contra hc
  exact hna ((hb a).2 ha (by omega) (by omega))

/-! ## Items that give way to several -/

/-- Items that give way to several keep their order. -/
theorem idxOf_le_of_flatMap [DecidableEq β] {image : α → List β} (hn : (l.flatMap image).Nodup)
    (hx : x ∈ l) (hy : y ∈ l) {u v : β} (hu : u ∈ image x) (hv : v ∈ image y)
    (h : (l.flatMap image).idxOf u ≤ (l.flatMap image).idxOf v) : l.idxOf x ≤ l.idxOf y := by
  induction l with
  | nil => cases hx
  | cons w rest ih =>
    rw [List.flatMap_cons, List.nodup_append] at hn
    rw [List.flatMap_cons, List.idxOf_append, List.idxOf_append] at h
    by_cases hwx : w = x
    · simp [hwx]
    · have hxr : x ∈ rest := (List.mem_cons.1 hx).resolve_left (Ne.symm hwx)
      have hur : u ∈ rest.flatMap image := List.mem_flatMap.2 ⟨x, hxr, hu⟩
      have huw : u ∉ image w := fun hw => hn.2.2 u hw u hur rfl
      rw [if_neg huw] at h
      by_cases hwy : w = y
      · subst hwy
        have := List.idxOf_lt_length_of_mem hv
        rw [if_pos hv] at h
        omega
      · have hyr : y ∈ rest := (List.mem_cons.1 hy).resolve_left (Ne.symm hwy)
        have hvr : v ∈ rest.flatMap image := List.mem_flatMap.2 ⟨y, hyr, hv⟩
        have hvw : v ∉ image w := fun hw => hn.2.2 v hw v hvr rfl
        rw [if_neg hvw] at h
        have := ih hn.2.1 hxr hyr (by omega)
        simpa [List.idxOf_cons, hwx, hwy] using this

end Redline
