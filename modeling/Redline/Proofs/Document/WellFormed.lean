import Redline.Document.Effect
import Redline.Proofs.Forest.Characters

/-!
# Well-formed documents

In a document every handle belongs to one element, wherever that stands, and no run holds a
character that is forbidden.  The changes that effects are made of keep both.

## Main definitions

* `Document.handles` — all handles of a document, those of loose parts included.
* `Document.OfKind` — all runs of a document hold characters of a kind.
* `Document.WellFormed` — handles are unique and given out, and no run holds a forbidden character.
-/

namespace Redline

namespace Document

/-- The body and the loose parts. -/
def trees (d : Document) : List Forest := d.body :: d.loose.map (·.tree)

/-- The handles of the body and of the loose parts. -/
def handles (d : Document) : List Handle := d.trees.flatMap Forest.handles

/-- All characters of all runs are of a kind, in the body and in the loose parts. -/
def OfKind (kind : Char → Bool) (d : Document) : Prop := ∀ tree ∈ d.trees, tree.OfKind kind

theorem ofKind_iff {kind : Char → Bool} (d : Document) :
    d.OfKind kind ↔ ∀ tree ∈ d.trees, tree.characters.all kind = true := by
  simp only [List.all_eq_true]
  rfl

instance (kind : Char → Bool) (d : Document) : Decidable (d.OfKind kind) :=
  decidable_of_iff _ d.ofKind_iff.symm

/-- Every handle belongs to one element and has been given out, and no run holds a forbidden
character. -/
structure WellFormed (d : Document) : Prop where
  distinct : d.handles.Nodup
  given : ∀ h ∈ d.handles, h.number < d.nextHandle
  writable : d.OfKind Text.isAllowed

theorem wellFormed_iff (d : Document) :
    d.WellFormed ↔ d.handles.Nodup ∧ (∀ h ∈ d.handles, h.number < d.nextHandle) ∧
      d.OfKind Text.isAllowed :=
  ⟨fun h => ⟨h.distinct, h.given, h.writable⟩, fun h => ⟨h.1, h.2.1, h.2.2⟩⟩

instance (d : Document) : Decidable d.WellFormed :=
  decidable_of_iff _ d.wellFormed_iff.symm

variable {d : Document} {h x : Handle} {p : Paragraph}

theorem mem_handles {h : Handle} : h ∈ d.handles ↔ ∃ tree ∈ d.trees, h ∈ tree.handles := by
  simp [handles]

theorem mem_handles_of_mem_body (hh : h ∈ d.body.handles) : h ∈ d.handles :=
  mem_handles.2 ⟨d.body, by simp [trees], hh⟩

/-! ## Where an element stands -/

namespace WellFormed

theorem nodup_body (hd : d.WellFormed) : d.body.handles.Nodup := by
  have := hd.distinct
  rw [handles, trees, List.flatMap_cons] at this
  exact (List.nodup_append.1 this).1

/-- What stands in the body stands nowhere else. -/
theorem notMem_loose (hd : d.WellFormed) (hh : h ∈ d.body.handles) {part : LoosePart}
    (hp : part ∈ d.loose) : h ∉ part.tree.handles := by
  have := hd.distinct
  rw [handles, trees, List.flatMap_cons, List.nodup_append] at this
  intro hl
  exact this.2.2 h hh h (List.mem_flatMap.2 ⟨part.tree, List.mem_map_of_mem hp, hl⟩) rfl

theorem plain (hd : d.WellFormed) (hl : h ∈ d.body.listed) : d.body.Plain h :=
  Forest.plain_of_mem_listed hd.nodup_body hl

end WellFormed

theorem mem_handles_of_isRoot {part : LoosePart} (hr : part.isRoot h = true) :
    h ∈ part.tree.handles := by
  unfold LoosePart.isRoot at hr
  split at hr
  · cases hr
  · next e inside rest heq => simp [heq, Element.has_iff.1 hr]

theorem WellFormed.standing_eq_placed (hd : d.WellFormed) (hh : h ∈ d.body.handles) :
    d.standing h = .placed := by
  have : d.loose.find? (·.isRoot h) = none := by
    rw [List.find?_eq_none]
    intro part hp hr
    exact hd.notMem_loose hh hp (mem_handles_of_isRoot hr)
  simp [standing, this]

/-- What is inside a paragraph of the document is its content. -/
theorem WellFormed.inside_eq_content (hd : d.WellFormed) (hp : p ∈ d.paragraphs) :
    d.inside p.handle = p.content := by
  have : d.tree? p.handle = some p.tree := by
    simp [tree?, Forest.tree?_of_mem_paragraphs hd.nodup_body hp]
  rw [inside, this]
  rfl

/-- The new part of an effect, as long as it has not been put in. -/
theorem WellFormed.newTree_eq (hd : d.WellFormed) {part : LoosePart} (hp : part ∈ d.loose)
    (hr : part.isRoot h = true) : Effect.newTree d h = part.tree := by
  have hl : (d.loose.flatMap (·.tree.handles)).Nodup := by
    have := hd.distinct
    rw [handles, trees, List.flatMap_cons, List.flatMap_map] at this
    exact (List.nodup_append.1 this).2.1
  have hsome : (d.loose.find? (·.isRoot h)).isSome := List.find?_isSome.2 ⟨part, hp, hr⟩
  obtain ⟨found, hf⟩ := Option.isSome_iff_exists.1 hsome
  have : found = part :=
    eq_of_mem_flatMap hl (List.mem_of_find?_eq_some hf) hp
      (mem_handles_of_isRoot (List.find?_some hf)) (mem_handles_of_isRoot hr)
  simp [Effect.newTree, hf, this]

/-! ## Changes of all trees -/

@[simp] theorem trees_mapTrees (change : Forest → Forest) (d : Document) :
    (d.mapTrees change).trees = d.trees.map change := by
  simp [trees, mapTrees, Function.comp_def]

theorem count_handles_mapTrees_le {c : Forest → Forest} {n : Nat}
    (hc : ∀ f : Forest, (c f).handles.count x ≤ f.handles.count x + f.handles.count h * n)
    (d : Document) :
    (d.mapTrees c).handles.count x ≤ d.handles.count x + d.handles.count h * n := by
  rw [handles, trees_mapTrees, handles]
  induction d.trees with
  | nil => simp
  | cons f rest ih =>
    have := hc f
    simp only [List.map_cons, List.flatMap_cons, List.count_append]
    nlinarith

/-- A document in which no handle stands more often than in a well-formed one is well formed. -/
theorem WellFormed.of_count_le {d' : Document} (hd : d.WellFormed)
    (hc : ∀ x, d'.handles.count x ≤ d.handles.count x) (hn : d.nextHandle ≤ d'.nextHandle)
    (hr : ∀ tree ∈ d'.trees, tree.OfKind Text.isAllowed) : d'.WellFormed where
  distinct := List.nodup_iff_count.2 fun x => (hc x).trans (List.nodup_iff_count.1 hd.distinct x)
  given x hx := by
    have : x ∈ d.handles := List.count_pos_iff.1 ((List.count_pos_iff.2 hx).trans_le (hc x))
    exact (hd.given x this).trans_le hn
  writable := hr

/-- An edit at a handle that puts in no handle and no forbidden character keeps a document well
formed. -/
theorem WellFormed.replaceAt (hd : d.WellFormed) {g : Element → Forest → Forest}
    (hc : ∀ x e inside, e.has h = true →
      (g e inside).handles.count x ≤ (Forest.single e inside).handles.count x)
    (hr : ∀ e inside, (Forest.single e inside).OfKind Text.isAllowed →
      (g e inside).OfKind Text.isAllowed) :
    (d.mapTrees (·.replaceAt h g)).WellFormed := by
  refine hd.of_count_le (fun x => ?_) le_rfl ?_
  · simpa using count_handles_mapTrees_le (h := h) (n := 0)
      (fun f => Forest.count_handles_replaceAt_le (hc x)) d
  · rw [trees_mapTrees]
    intro tree ht
    obtain ⟨f, hf, rfl⟩ := List.mem_map.1 ht
    exact (hd.writable f hf).replaceAt hr

theorem WellFormed.modifyInside (hd : d.WellFormed) {c : Forest → Forest}
    (hc : ∀ x f, (c f).handles.count x ≤ f.handles.count x)
    (hr : ∀ f : Forest, f.OfKind Text.isAllowed → (c f).OfKind Text.isAllowed) :
    (d.modifyInside h c).WellFormed := by
  simp only [Document.modifyInside, Forest.modifyInside_eq_replaceAt]
  refine hd.replaceAt (fun x e inside _ => ?_) fun e inside => ?_
  · simpa using hc x inside
  · rw [Forest.ofKind_single, Forest.ofKind_single]
    exact And.imp_right (hr inside)

theorem place_eq_replaceAt (d : Document) (h : Handle) (before after : Forest) :
    d.place h before after =
      (d.mapTrees (·.replaceAt h fun e inside => .single e inside ++ after)).mapTrees
        (·.replaceAt h fun e inside => before ++ .single e inside) := by
  simp [place, mapTrees, Forest.insertBefore_eq_replaceAt, Forest.insertAfter_eq_replaceAt,
    Function.comp_def]

theorem place_nil_after (d : Document) (h : Handle) (before : Forest) :
    d.place h before .nil =
      d.mapTrees (·.replaceAt h fun e inside => before ++ .single e inside) := by
  simp [place_eq_replaceAt, Forest.replaceAt_single, mapTrees]

theorem place_nil_before (d : Document) (h : Handle) (after : Forest) :
    d.place h .nil after =
      d.mapTrees (·.replaceAt h fun e inside => .single e inside ++ after) := by
  simp [place_eq_replaceAt, Forest.replaceAt_single, mapTrees]

theorem WellFormed.place_marks (hd : d.WellFormed) {before after : Forest}
    (hb : before.handles = []) (ha : after.handles = []) (hrb : before.OfKind Text.isAllowed)
    (hra : after.OfKind Text.isAllowed) : (d.place h before after).WellFormed := by
  rw [place_eq_replaceAt]
  refine (hd.replaceAt ?_ ?_).replaceAt ?_ ?_
  all_goals simp_all [Forest.ofKind_append]

theorem tree?_eq_findSome? (d : Document) (h : Handle) :
    d.tree? h = d.trees.findSome? (·.tree? h) := by
  rw [trees, List.findSome?_cons, List.findSome?_map, Document.tree?]
  cases d.body.tree? h <;> rfl

theorem count_handles_erase_trees_le {l : List Forest} {tree : Forest}
    (ht : l.findSome? (·.tree? h) = some tree) :
    ((l.map (·.erase h)).flatMap Forest.handles).count x + tree.handles.count x ≤
      (l.flatMap Forest.handles).count x := by
  have hle : ∀ l : List Forest, ((l.map (·.erase h)).flatMap Forest.handles).count x ≤
      (l.flatMap Forest.handles).count x := by
    intro l
    induction l with
    | nil => simp
    | cons f rest ih =>
      have := Forest.count_handles_erase_le f h x
      simp only [List.map_cons, List.flatMap_cons, List.count_append]
      omega
  induction l with
  | nil => simp at ht
  | cons f rest ih =>
    simp only [List.map_cons, List.flatMap_cons, List.count_append]
    rw [List.findSome?_cons] at ht
    split at ht
    · next hf =>
      obtain rfl := Option.some.inj ht
      have := Forest.count_handles_erase_add_le (x := x) hf
      have := hle rest
      omega
    · have := Forest.count_handles_erase_le f h x
      have := ih ht
      omega

theorem WellFormed.takeOut (hd : d.WellFormed) (h : Handle) : (d.takeOut h).WellFormed := by
  unfold Document.takeOut
  cases ht : d.tree? h with
  | none => exact hd
  | some tree =>
    rw [tree?_eq_findSome?] at ht
    have htrees : ({ d.mapTrees (·.erase h) with
        loose := (d.mapTrees (·.erase h)).loose ++ [⟨false, tree⟩] } : Document).trees =
        d.trees.map (·.erase h) ++ [tree] := by
      simp [trees, mapTrees, Function.comp_def]
    refine hd.of_count_le (fun x => ?_) le_rfl ?_
    · rw [handles, htrees, handles]
      simpa using count_handles_erase_trees_le ht
    · rw [htrees]
      intro f hf
      rcases List.mem_append.1 hf with hf | hf
      · obtain ⟨g, hg, rfl⟩ := List.mem_map.1 hf
        rw [Forest.erase_eq_replaceAt]
        exact (hd.writable g hg).replaceAt fun _ _ _ => Forest.ofKind_nil
      · obtain rfl := List.mem_singleton.1 hf
        obtain ⟨g, hg, hgt⟩ := List.exists_of_findSome?_eq_some ht
        exact (hd.writable g hg).tree? hgt

theorem WellFormed.removeParagraph (hd : d.WellFormed) (h : Handle) :
    (d.removeParagraph h).WellFormed := by
  unfold Document.removeParagraph
  split
  · exact hd
  · split
    · exact hd.modifyInside (by simp) (by simp)
    · exact hd.takeOut h

/-! ## Effects -/

open Effect

theorem WellFormed.restyle (hd : d.WellFormed)
    (c : String → Option Alignment → String × Option Alignment) :
    (d.modify h (restyle c)).WellFormed := by
  simp only [Document.modify, Forest.modify_eq_replaceAt]
  refine hd.replaceAt (fun x e inside _ => ?_) fun e inside => ?_
  all_goals cases e <;> simp [Effect.restyle, Forest.ofKind_single, Element.handle?,
    Element.characters]

theorem WellFormed.reproperty (hd : d.WellFormed) (alter : ControlProperties → ControlProperties) :
    (d.modify h (reproperty alter)).WellFormed := by
  simp only [Document.modify, Forest.modify_eq_replaceAt]
  refine hd.replaceAt (fun x e inside _ => ?_) fun e inside hread => ?_
  · cases e with
    | control k properties => cases properties <;> exact le_rfl
    | _ => exact le_rfl
  · cases e with
    | control k properties => cases properties <;> exact hread
    | _ => exact hread

theorem count_handles_dropLoose_add_le (d : Document) (h x : Handle) :
    (d.dropLoose h).handles.count x + (newTree d h).handles.count x ≤ d.handles.count x := by
  have hloose : ∀ l : List LoosePart,
      ((l.filter (!·.isRoot h)).flatMap (·.tree.handles)).count x +
        (((l.find? (LoosePart.isRoot h)).map LoosePart.tree).getD Forest.nil).handles.count x ≤
          (l.flatMap (·.tree.handles)).count x := by
    intro l
    induction l with
    | nil => simp
    | cons part rest ih =>
      have hle : ((rest.filter (!·.isRoot h)).flatMap (·.tree.handles)).count x ≤
          (rest.flatMap (·.tree.handles)).count x :=
        (List.Sublist.flatMap List.filter_sublist _).count_le x
      by_cases hr : part.isRoot h = true
      · simp only [List.filter_cons, hr, List.find?_cons, List.flatMap_cons, List.count_append,
          Bool.not_true, Bool.false_eq_true, if_false, Option.map_some, Option.getD_some]
        omega
      · simp only [Bool.not_eq_true] at hr
        simp only [List.filter_cons, hr, List.find?_cons, List.flatMap_cons, List.count_append,
          Bool.not_false, if_true]
        omega
  have hnew : newTree d h = ((d.loose.find? (LoosePart.isRoot h)).map LoosePart.tree).getD .nil := by
    unfold newTree
    cases d.loose.find? (·.isRoot h) <;> rfl
  have := hloose d.loose
  simp only [handles, trees, dropLoose, hnew, List.flatMap_cons, List.count_append,
    List.flatMap_map]
  omega

theorem ofKind_newTree (hd : d.WellFormed) (h : Handle) : (newTree d h).OfKind Text.isAllowed := by
  unfold newTree
  split
  · next part hf =>
    exact hd.writable _ (List.mem_cons_of_mem _ (List.mem_map_of_mem (List.mem_of_find?_eq_some hf)))
  · exact Forest.ofKind_nil

theorem trees_dropLoose_subset (d : Document) (h : Handle) : (d.dropLoose h).trees ⊆ d.trees := by
  intro tree ht
  rcases List.mem_cons.1 ht with rfl | ht
  · exact List.mem_cons_self
  · obtain ⟨part, hp, rfl⟩ := List.mem_map.1 ht
    exact List.mem_cons_of_mem _ (List.mem_map_of_mem (List.mem_of_mem_filter hp))

/-- A loose part may be put in at a handle, for it stands nowhere else then. -/
theorem WellFormed.moveIn (hd : d.WellFormed) (new : Handle) {anchor : Handle}
    {g : Element → Forest → Forest}
    (hc : ∀ x e inside, e.has anchor = true → (g e inside).handles.count x ≤
      (Forest.single e inside).handles.count x + (newTree d new).handles.count x)
    (hr : ∀ e inside, (Forest.single e inside).OfKind Text.isAllowed →
      (g e inside).OfKind Text.isAllowed) :
    ((d.dropLoose new).mapTrees (·.replaceAt anchor g)).WellFormed := by
  refine hd.of_count_le (fun x => ?_) le_rfl ?_
  · have hle := count_handles_mapTrees_le (h := anchor)
      (fun f => Forest.count_handles_replaceAt_le (hc x)) (d.dropLoose new)
    have hx := count_handles_dropLoose_add_le d new x
    have ha : (d.dropLoose new).handles.count anchor ≤ 1 :=
      (Nat.le_of_add_right_le (count_handles_dropLoose_add_le d new anchor)).trans
        (List.nodup_iff_count.1 hd.distinct anchor)
    nlinarith [Nat.zero_le ((newTree d new).handles.count x)]
  · rw [trees_mapTrees]
    intro tree ht
    obtain ⟨f, hf, rfl⟩ := List.mem_map.1 ht
    exact (hd.writable f (trees_dropLoose_subset d new hf)).replaceAt hr

theorem trees_setAside (new : Handle) (d : Document) : (setAside new d).trees = d.trees := by
  simp only [setAside, trees, List.map_map]
  congr 2
  funext part
  simp only [Function.comp_apply]
  split <;> rfl

theorem WellFormed.applyInsertBeside (hd : d.WellFormed) (new anchor : Handle) (side : Side) :
    (applyInsertBeside new side anchor d).1.WellFormed := by
  unfold Effect.applyInsertBeside
  have hr := ofKind_newTree hd new
  cases d.standing anchor with
  | fresh => exact hd
  | removed =>
    refine hd.of_count_le (fun x => ?_) le_rfl ?_
    · simp [handles, done, trees_setAside]
    · intro tree ht
      exact hd.writable tree (by simpa [done, trees_setAside] using ht)
  | placed =>
    cases side with
    | before =>
      simp only [done, place_nil_after]
      refine hd.moveIn new (fun x e inside _ => ?_) fun e inside h => ?_
      · simp [Nat.add_comm]
      · exact Forest.ofKind_append.2 ⟨hr, h⟩
    | after =>
      simp only [done, place_nil_before]
      refine hd.moveIn new (fun x e inside _ => ?_) fun e inside h => ?_
      · simp [Nat.add_assoc]
      · exact Forest.ofKind_append.2 ⟨h, hr⟩

end Document

end Redline
