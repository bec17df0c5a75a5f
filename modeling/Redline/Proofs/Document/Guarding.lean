import Redline.Proofs.Document.Accepting
import Redline.Proofs.Forest.Guarding

/-!
# Effects and the paragraphs of cells

Whatever effects are made with handles of paragraphs and content controls outside of text boxes, the
cells of the body stay, each guarded one with a paragraph.  Only clearing the body takes cells out,
and then all of them.

## Main definitions

* `Document.roles` — what the handles of a document lead to.
* `Document.IsFresh` — a part that has been made and not been put in yet.
* `Document.Advances` — a change of a document that leaves its cells with their paragraphs.
-/

namespace Redline

/-- A change of contents that puts in no handle and no cell, and writes what it puts in. -/
structure Forest.Tame (change : Forest → Forest) : Prop where
  handles : ∀ f, (change f).handles.Sublist f.handles
  ofKind : ∀ {kind : Char → Bool} [Text.Admits kind] (f : Forest), f.OfKind kind →
    (change f).OfKind kind
  cells : ∀ f : Forest, f.everyCell = [] → (change f).everyCell = []

namespace Forest

/-- The paragraphs with the given handles are empty. -/
def Emptied (emptied : List Handle) (f : Forest) : Prop :=
  ∀ q ∈ f.paragraphs, q.handle ∈ emptied → q.content = .nil

namespace Emptied

variable {f : Forest} {h : Handle} {emptied : List Handle} {r : Paragraph → Forest}

theorem rewriteAt (he : f.Emptied emptied) (hr : ∀ p, ∀ q ∈ (r p).paragraphs, q.content = .nil) :
    (f.rewriteAt h r).Emptied (h :: emptied) := by
  intro q hq hmem
  rw [paragraphs_rewriteAt, List.mem_flatMap] at hq
  obtain ⟨p, hp, hq⟩ := hq
  split at hq
  · exact hr p q hq
  · next hne =>
    obtain rfl : q = p := by simpa using hq
    exact he q hp ((List.mem_cons.1 hmem).resolve_left hne)

theorem cons_of_notMem (he : f.Emptied emptied) (hn : h ∉ f.listed) : f.Emptied (h :: emptied) := by
  intro q hq hmem
  rcases List.mem_cons.1 hmem with rfl | hmem
  · exact absurd (List.mem_map_of_mem hq) hn
  · exact he q hq hmem

end Emptied

/-- Paragraphs that are empty in the end hold no cells. -/
theorem KeepsBoxes.of_emptied {f g : Forest} {touched : List Handle} (hk : f.KeepsBoxes touched g)
    (he : g.Emptied touched) : f.KeepsBoxes [] g := by
  intro q hq
  rcases hk q hq with ht | hrest
  · exact .inr (.inl (by simp [Paragraph.boxedCells, he q hq ht]))
  · exact .inr hrest

theorem tame_withoutMarks : Tame withoutMarks :=
  ⟨handles_withoutMarks_sublist, fun _ hf => hf.withoutMarks, fun _ hf => everyCell_withoutMarks hf⟩

end Forest

theorem Forest.tame_empty : Forest.Tame fun _ => .nil :=
  ⟨fun _ => List.nil_sublist _, fun _ _ => Forest.ofKind_nil, fun _ _ => rfl⟩

namespace Document

open Forest

/-- The handles of a document, those of loose parts included, with their roles. -/
def roles (d : Document) : List (Handle × Role) := d.trees.flatMap Forest.roles

/-- The element that was made with the handle has not been put in yet, and neither a handle nor a
cell stands inside it. -/
def IsFresh (new : Handle) (d : Document) : Prop :=
  ∃ e inside, ⟨true, .single e inside⟩ ∈ d.loose ∧ e.has new = true ∧ inside.handles = [] ∧
    inside.everyCell = []

/-- A change that leaves a document well formed and its handles in their roles, takes no paragraphs
but the given ones out of cells, and leaves the text boxes alone but for those of the paragraphs that
it touches. -/
structure Advances (register : List (Handle × Role)) (gone touched : List Handle)
    (d d' : Document) : Prop where
  wellFormed : d'.WellFormed
  roles : d'.roles ⊆ register
  stays : d.body.Stays gone d'.body
  boxes : d.body.KeepsBoxes touched d'.body
  fresh : ∀ new, d.IsFresh new → d'.IsFresh new

variable {register : List (Handle × Role)} {gone touched : List Handle} {d d' d'' : Document}
  {h new : Handle} {role : Role} {into : Element → Forest → Forest} {change : Forest → Forest}

namespace Advances

theorem refl (hd : d.WellFormed) (hf : d.roles ⊆ register) :
    Advances register gone touched d d :=
  ⟨hd, hf, .refl gone d.body, .refl touched d.body, fun _ h => h⟩

theorem trans (h : Advances register gone touched d d')
    (h' : Advances register gone touched d' d'') : Advances register gone touched d d'' :=
  ⟨h'.wellFormed, h'.roles, h.stays.trans h'.stays, h.boxes.trans h'.boxes,
    fun new hnew => h'.fresh new (h.fresh new hnew)⟩

end Advances

/-! ## Roles -/

theorem roles_subset_iff : d.roles ⊆ register ↔ ∀ tree ∈ d.trees, tree.roles ⊆ register := by
  simp only [roles, List.subset_def, List.mem_flatMap]
  exact ⟨fun h tree ht x hx => h ⟨tree, ht, hx⟩, fun h x ⟨tree, ht, hx⟩ => h tree ht hx⟩

theorem roles_body_subset (hf : d.roles ⊆ register) : d.body.roles ⊆ register :=
  roles_subset_iff.1 hf _ List.mem_cons_self

theorem roles_loose_subset (hf : d.roles ⊆ register) {part : LoosePart} (hp : part ∈ d.loose) :
    part.tree.roles ⊆ register :=
  roles_subset_iff.1 hf _ (List.mem_cons_of_mem _ (List.mem_map_of_mem hp))

theorem roles_withBody {body : Forest} (hf : d.roles ⊆ register) (hb : body.roles ⊆ register) :
    ({ d with body } : Document).roles ⊆ register :=
  roles_subset_iff.2 fun tree ht => by
    rcases List.mem_cons.1 ht with rfl | ht
    · exact hb
    · exact roles_subset_iff.1 hf tree (List.mem_cons_of_mem _ ht)

theorem roles_dropLoose (hf : d.roles ⊆ register) (h : Handle) :
    (d.dropLoose h).roles ⊆ register :=
  roles_subset_iff.2 fun tree ht => roles_subset_iff.1 hf tree (trees_dropLoose_subset d h ht)

theorem roles_mapTrees {c : Forest → Forest} (hf : d.roles ⊆ register)
    (hc : ∀ tree : Forest, tree.roles ⊆ register → (c tree).roles ⊆ register) :
    (d.mapTrees c).roles ⊆ register := by
  rw [roles_subset_iff, trees_mapTrees]
  intro tree ht
  obtain ⟨old, ho, rfl⟩ := List.mem_map.1 ht
  exact hc old (roles_subset_iff.1 hf old ho)

theorem map_fst_roles (d : Document) : d.roles.map Prod.fst = d.handles := by
  simp only [roles, handles, List.map_flatMap, Forest.map_fst_roles]

theorem roles_append_loose (d : Document) (loose : List LoosePart) :
    ({ d with loose := d.loose ++ loose } : Document).roles =
      d.roles ++ loose.flatMap (·.tree.roles) := by
  simp [roles, trees, List.flatMap_map]

/-- What is found by the handle of a paragraph or a content control has its roles in the document. -/
theorem roles_tree?_subset {tree : Forest} (hc : Consistent register) (hf : d.roles ⊆ register)
    (hrole : role ≠ .boxed) (hr : (h, role) ∈ register) (ht : d.tree? h = some tree) :
    tree.roles ⊆ register := by
  rw [tree?_eq_findSome?] at ht
  obtain ⟨old, ho, hfound⟩ := List.exists_of_findSome?_eq_some ht
  exact Forest.roles_tree?_subset hc hrole hr (roles_subset_iff.1 hf old ho) hfound

/-! ## Parts that have not been put in -/

namespace IsFresh

theorem standing_ne_placed (hnew : d.IsFresh new) : d.standing new ≠ .placed := by
  obtain ⟨e, inside, hmem, he, -⟩ := hnew
  have hroot : (⟨true, .single e inside⟩ : LoosePart).isRoot new = true := he
  have hsome : (d.loose.find? (·.isRoot new)).isSome := List.find?_isSome.2 ⟨_, hmem, hroot⟩
  obtain ⟨found, hf⟩ := Option.isSome_iff_exists.1 hsome
  rw [standing, hf]
  dsimp only
  split <;> simp

theorem mem_handles (hnew : d.IsFresh new) : new ∈ d.handles := by
  obtain ⟨e, inside, hmem, he, -⟩ := hnew
  refine Document.mem_handles.2 ⟨_, List.mem_cons_of_mem _ (List.mem_map_of_mem hmem), ?_⟩
  simp [Element.has_iff.1 he]

theorem append_loose {loose : List LoosePart} (hnew : d.IsFresh new) :
    ({ d with loose := d.loose ++ loose } : Document).IsFresh new := by
  obtain ⟨e, inside, hmem, h⟩ := hnew
  exact ⟨e, inside, List.mem_append_left _ hmem, h⟩

theorem replaceAt (hnew : d.IsFresh new)
    (hinto : ∀ e inside, e.has h = true → e.has new = true → ⟨true, .single e inside⟩ ∈ d.loose →
      inside.handles = [] → inside.everyCell = [] →
      ∃ e' inside', into e inside = .single e' inside' ∧ e'.has new = true ∧
        inside'.handles = [] ∧ inside'.everyCell = []) :
    (d.mapTrees (·.replaceAt h into)).IsFresh new := by
  obtain ⟨e, inside, hmem, he, hhandles, hcells⟩ := hnew
  have hpart : (⟨true, (Forest.single e inside).replaceAt h into⟩ : LoosePart) ∈
      (d.mapTrees (·.replaceAt h into)).loose := List.mem_map.2 ⟨_, hmem, rfl⟩
  rw [Forest.single, Forest.replaceAt] at hpart
  by_cases hhas : e.has h = true
  · obtain ⟨e', inside', heq, h'⟩ := hinto e inside hhas he hmem hhandles hcells
    rw [if_pos hhas, heq, append_nil] at hpart
    exact ⟨e', inside', hpart, h'⟩
  · have hnone : h ∉ inside.handles := by simp [hhandles]
    rw [if_neg hhas, replaceAt_of_notMem hnone] at hpart
    exact ⟨e, inside, hpart, he, hhandles, hcells⟩

/-- A change at another handle does not reach the part. -/
theorem replaceAt_of_ne (hnew : d.IsFresh new) (hne : h ≠ new) :
    (d.mapTrees (·.replaceAt h into)).IsFresh new :=
  hnew.replaceAt fun _ _ hh hn => by
    have hsame := (Element.has_iff.1 hh).symm.trans (Element.has_iff.1 hn)
    exact absurd (Option.some.inj hsame) hne

end IsFresh

/-! ## Changes at a handle -/

theorem place_eq_mapTrees (d : Document) (h : Handle) (before after : Forest) :
    d.place h before after =
      d.mapTrees (·.replaceAt h fun e inside => before ++ (.single e inside ++ after)) := by
  have hforest : ∀ f : Forest, Forest.insertBefore h before (Forest.insertAfter h after f) =
      f.replaceAt h fun e inside => before ++ (.single e inside ++ after) := by
    intro f
    induction f with
    | nil => rfl
    | cons e inside rest ihi ihr =>
      rw [insertAfter, Forest.replaceAt]
      split
      · next he => rw [insertBefore, if_pos he, append_assoc, append_assoc]; rfl
      · next he => rw [insertBefore, if_neg he, ihi, ihr]
  simp only [place, hforest]

section
variable (hc : Consistent register) (hd : d.WellFormed) (hf : d.roles ⊆ register)
include hc hf

theorem advances_replaceAt (hrole : role ≠ .boxed) (hr : (h, role) ∈ register)
    (hw : (d.mapTrees (·.replaceAt h into)).WellFormed)
    (hinto : ∀ e inside, e.has h = true → (Forest.single e inside).roles ⊆ register →
      Harmless register gone touched (.single e inside) (into e inside))
    (hown : d.body.aloneInCell h = true → ∀ p : Paragraph, p.handle = h →
      (into p.element p.content).own ≠ [])
    (hfresh : ∀ new, d.IsFresh new →
      (d.mapTrees (·.replaceAt h into)).IsFresh new) :
    Advances register gone touched d (d.mapTrees (·.replaceAt h into)) where
  wellFormed := hw
  roles := roles_mapTrees hf fun _ ht =>
    roles_replaceAt hc hrole hr ht fun e inside he hs => (hinto e inside he hs).roles hs
  stays := stays_replaceAt hc hrole hr (roles_body_subset hf)
    (fun e inside he hs => (hinto e inside he hs).stays) hown
  boxes := keepsBoxes_replaceAt hc hrole hr (roles_body_subset hf) fun e inside he hs =>
    (hinto e inside he hs).boxes
  fresh := hfresh

omit hf in
/-- An element with the handle of a paragraph is a paragraph, where the roles are those of the
register. -/
theorem exists_paragraph_of_role {e : Element} {inside : Forest}
    (hs : (Forest.single e inside).roles ⊆ register) (he : e.has h = true)
    (hr : (h, .paragraph) ∈ register) :
    ∃ p : Paragraph, p.handle = h ∧ p.element = e ∧ p.content = inside := by
  have hp := isParagraph_of_role hc hs he hr
  cases e with
  | paragraph k style alignment =>
    exact ⟨⟨k, style, alignment, inside⟩, Option.some.inj (Element.has_iff.1 he), rfl, rfl⟩
  | _ => cases hp

/-- A paragraph gives way to an edit of it. -/
theorem advances_edit (hr : (h, .paragraph) ∈ register)
    (hw : (d.mapTrees (·.replaceAt h into)).WellFormed)
    (hinto : ∀ p : Paragraph, p.handle = h → ∃ q : Paragraph, into p.element p.content = q.tree ∧
      q.handle = p.handle ∧ q.content.handles ⊆ p.content.handles ∧
      (p.content.everyCell = [] → q.content.everyCell = []) ∧
      (h ∈ touched ∨ q.boxedCells.Sublist p.boxedCells)) :
    Advances register gone touched d (d.mapTrees (·.replaceAt h into)) := by
  have hharmless : ∀ e inside, e.has h = true → (Forest.single e inside).roles ⊆ register →
      Harmless register gone touched (.single e inside) (into e inside) := by
    intro e inside he hs
    obtain ⟨p, hp, rfl, rfl⟩ := exists_paragraph_of_role hc hs he hr
    obtain ⟨q, heq, hhandle, hhandles, -, hboxes⟩ := hinto p hp
    rw [heq]
    exact harmless_edit hhandle hhandles (hboxes.imp_left fun ht => hp ▸ ht)
  refine advances_replaceAt hc hf (by simp) hr hw hharmless ?_ fun new hnew => hnew.replaceAt ?_
  · intro _ p hp
    obtain ⟨q, heq, -⟩ := hinto p hp
    simp [heq]
  · intro e inside he hnew hmem hhandles hcells
    obtain ⟨p, hp, rfl, rfl⟩ := exists_paragraph_of_role hc (roles_loose_subset hf hmem) he hr
    obtain ⟨q, heq, hhandle, hsub, hnone, -⟩ := hinto p hp
    refine ⟨q.element, q.content, heq, ?_, List.subset_nil.1 (hhandles ▸ hsub), hnone hcells⟩
    rw [Element.has_iff, Paragraph.handle?_element] at hnew ⊢
    rw [hhandle, hnew]

include hd

theorem advances_modifyInside (hr : (h, .paragraph) ∈ register) (ht : Tame change)
    (hb : h ∈ touched ∨ ∀ f : Forest,
      ((change f).everyCell.map Forest.listed).Sublist (f.everyCell.map Forest.listed)) :
    Advances register gone touched d (d.modifyInside h change) := by
  have hw : (d.modifyInside h change).WellFormed :=
    hd.modifyInside (fun x f => (ht.handles f).count_le x) ht.ofKind
  simp only [modifyInside, modifyInside_eq_replaceAt] at hw ⊢
  refine advances_edit hc hf hr hw fun p _ => ?_
  exact ⟨{ p with content := change p.content }, rfl, rfl, (ht.handles _).subset, ht.cells _,
    hb.imp_right fun hb => hb p.content⟩

theorem advances_restyle (hr : (h, .paragraph) ∈ register)
    (look : String → Option Alignment → String × Option Alignment) :
    Advances register gone touched d (d.modify h (Effect.restyle look)) := by
  have hw : (d.modify h (Effect.restyle look)).WellFormed := hd.restyle look
  simp only [modify, modify_eq_replaceAt] at hw ⊢
  refine advances_edit hc hf hr hw fun p _ => ?_
  exact ⟨{ p with style := (look p.style p.alignment).1, alignment := (look p.style p.alignment).2 },
    rfl, rfl, List.Subset.refl _, id, .inr (List.Sublist.refl _)⟩

/-- A content control gets other properties. -/
theorem advances_reproperty (hr : (h, .control) ∈ register)
    (alter : ControlProperties → ControlProperties) :
    Advances register gone touched d (d.modify h (Effect.reproperty alter)) := by
  -- Such a change gives way to the element itself but for the properties of a content control.
  have hcases : ∀ e inside, (∃ properties, e = .control h (some properties) ∧
      Forest.single (Effect.reproperty alter e inside).1 (Effect.reproperty alter e inside).2 =
        .single (.control h (some (alter properties))) inside) ∨ ¬ e.has h = true ∨
      Forest.single (Effect.reproperty alter e inside).1 (Effect.reproperty alter e inside).2 =
        .single e inside := by
    intro e inside
    cases e with
    | control k properties =>
      cases properties with
      | none => exact .inr (.inr rfl)
      | some properties =>
        by_cases hk : k = h
        · exact .inl ⟨properties, by rw [hk], by rw [hk]; rfl⟩
        · exact .inr (.inl fun hh => hk (Option.some.inj (Element.has_iff.1 hh)))
    | _ => exact .inr (.inr rfl)
  have hw := hd.reproperty (h := h) alter
  simp only [modify, modify_eq_replaceAt] at hw ⊢
  refine advances_replaceAt hc hf (by simp) hr hw (fun e inside he hs => ?_) ?_ fun new hnew => ?_
  · rcases hcases e inside with ⟨properties, rfl, heq⟩ | hne | heq
    · rw [heq]
      exact harmless_control h _ _ inside
    · exact absurd he hne
    · rw [heq]
      exact ⟨id, .refl gone _, .refl touched _⟩
  · intro _ p _
    exact List.cons_ne_nil _ _
  · refine hnew.replaceAt fun e inside he hn _ hhandles hcells => ?_
    rcases hcases e inside with ⟨properties, rfl, heq⟩ | hne | heq
    · exact ⟨_, inside, heq, hn, hhandles, hcells⟩
    · exact absurd he hne
    · exact ⟨e, inside, heq, hn, hhandles, hcells⟩

omit hd in
/-- Something without cells is put on both sides of an element. -/
theorem advances_place (hrole : role ≠ .boxed) (hr : (h, role) ∈ register) {before after : Forest}
    (hw : (d.place h before after).WellFormed)
    (hroles : before.roles ⊆ register ∧ after.roles ⊆ register)
    (hcells : before.cellInsides = [] ∧ after.cellInsides = [])
    (hboxes : ∀ q, q ∈ before.paragraphs ∨ q ∈ after.paragraphs → q.boxedCells = [])
    (hfresh : ∀ new, d.IsFresh new → h ≠ new) :
    Advances register gone touched d (d.place h before after) := by
  rw [place_eq_mapTrees] at hw ⊢
  refine advances_replaceAt hc hf hrole hr hw (fun e inside _ _ => ?_) ?_ fun new hnew => ?_
  · exact harmless_beside hroles hcells hboxes _
  · intro _ p _
    simp [single]
  · exact hnew.replaceAt_of_ne (hfresh new hnew)

/-- Marks are put on both sides of a paragraph that stands somewhere. -/
theorem advances_place_marks (hr : (h, .paragraph) ∈ register) (hs : d.standing h = .placed)
    {before after : Forest} (hb : before.AllMarks) (ha : after.AllMarks) :
    Advances register gone touched d (d.place h before after) := by
  have hw := hd.place_marks (h := h) hb.handles_eq ha.handles_eq hb.ofKind ha.ofKind
  refine advances_place hc hf (by simp) hr hw ⟨?_, ?_⟩ ⟨hb.cellInsides_eq, ha.cellInsides_eq⟩
    (fun q hq => ?_) fun new hnew he => hnew.standing_ne_placed (he ▸ hs)
  · simp [roles_eq_nil hb.handles_eq]
  · simp [roles_eq_nil ha.handles_eq]
  · simp [hb.paragraphs_eq, ha.paragraphs_eq] at hq

/-! ## Taking paragraphs out -/

omit hc hf hd in
theorem standing_modifyInside (d : Document) (h : Handle) (change : Forest → Forest) (k : Handle) :
    (d.modifyInside h change).standing k = d.standing k := by
  have hroot : ∀ part : LoosePart,
      ({ part with tree := part.tree.modifyInside h change } : LoosePart).isRoot k =
        part.isRoot k := by
    rintro ⟨fresh, tree⟩
    cases tree with
    | nil => rfl
    | cons e inside rest =>
      by_cases he : e.has h = true <;>
        simp [LoosePart.isRoot, Forest.modifyInside, Forest.modify, he]
  simp only [standing, modifyInside, mapTrees, List.find?_map, Function.comp_def, hroot]
  cases d.loose.find? (·.isRoot k) <;> rfl

omit hc hf hd in
theorem body_removeParagraph_of_notMem (hn : h ∉ d.body.handles) :
    (d.removeParagraph h).body = d.body := by
  unfold removeParagraph
  split
  · rfl
  · split
    · simp [modifyInside, mapTrees, modifyInside_eq_replaceAt, replaceAt_of_notMem hn]
    · unfold takeOut
      split
      · rfl
      · simp [mapTrees, erase_eq_replaceAt, replaceAt_of_notMem hn]

/-- A paragraph is taken out if it is not the only one of a cell. -/
theorem advances_takeOut (hr : (h, .paragraph) ∈ register) (hs : d.standing h = .placed)
    (halone : d.aloneInCell h = false) (hg : h ∈ gone) :
    Advances register gone touched d (d.takeOut h) := by
  have hw := hd.takeOut h
  unfold takeOut at hw ⊢
  cases ht : d.tree? h with
  | none => exact .refl hd hf
  | some tree =>
    have herase : d.mapTrees (·.erase h) = d.mapTrees (·.replaceAt h fun _ _ => .nil) := by
      simp only [erase_eq_replaceAt]
    rw [ht] at hw
    dsimp only at hw ⊢
    rw [herase] at hw ⊢
    have hrest : (d.mapTrees (·.replaceAt h fun _ _ => .nil)).WellFormed :=
      hd.replaceAt (by simp) fun _ _ _ => ofKind_nil
    have hbody : d.body.aloneInCell h = false := (Bool.or_eq_false_iff.1 halone).1
    have hadvance :
        Advances register gone touched d (d.mapTrees (·.replaceAt h fun _ _ => .nil)) := by
      refine advances_replaceAt hc hf (by simp) hr hrest (fun e inside he hroles => ?_) ?_
        fun new hnew => ?_
      · obtain ⟨p, hp, rfl, rfl⟩ := exists_paragraph_of_role hc hroles he hr
        refine ⟨fun _ => List.nil_subset _, ⟨.nil, fun x hx => .inr ?_⟩, fun q hq => ?_⟩
        · have hx : x ∈ p.tree.listed := hx
          obtain rfl : x = p.handle := by simpa using hx
          exact hp ▸ hg
        · simp at hq
      · intro ha
        rw [hbody] at ha
        cases ha
      · exact hnew.replaceAt_of_ne fun he => hnew.standing_ne_placed (he ▸ hs)
    refine ⟨hw, ?_, hadvance.stays, hadvance.boxes,
      fun new hnew => (hadvance.fresh new hnew).append_loose⟩
    rw [roles_append_loose, List.append_subset]
    exact ⟨hadvance.roles, by simpa using roles_tree?_subset hc hf (by simp) hr ht⟩

theorem advances_removeParagraph (hr : (h, .paragraph) ∈ register) (hg : h ∈ gone) :
    Advances register gone touched d (d.removeParagraph h) := by
  unfold removeParagraph
  by_cases hs : d.standing h = .placed
  · rw [if_neg (not_not_intro hs)]
    by_cases ha : d.aloneInCell h = true
    · rw [if_pos ha]
      exact advances_modifyInside hc hd hf hr tame_empty (.inr (by simp))
    · rw [if_neg ha]
      exact advances_takeOut hc hd hf hr hs (by simpa using ha) hg
  · rw [if_pos hs]
    exact .refl hd hf

/-! ## Clearing a range -/

/-- Taking marks out of the paragraphs of a range. -/
theorem advances_bare {range : List Handle} (hr : ∀ k ∈ range, (k, .paragraph) ∈ register)
    (ht : range ⊆ touched) :
    Advances register gone touched d (d.bare range) ∧
      ∀ k, (d.bare range).standing k = d.standing k := by
  induction range generalizing d with
  | nil => exact ⟨.refl hd hf, fun _ => rfl⟩
  | cons k rest ih =>
    rw [List.forall_mem_cons] at hr
    rw [List.cons_subset] at ht
    have hfirst : Advances register gone touched d (d.modifyInside k (·.withoutMarks)) :=
      advances_modifyInside hc hd hf hr.1 tame_withoutMarks (.inl ht.1)
    obtain ⟨hrest, hstanding⟩ := ih hfirst.wellFormed hfirst.roles hr.2 ht.2
    exact ⟨hfirst.trans hrest, fun k' => (hstanding k').trans (standing_modifyInside d k _ k')⟩

theorem emptied_modifyInside (hr : (h, .paragraph) ∈ register) :
    (d.modifyInside h fun _ => .nil).body.Emptied [h] := by
  have hnone : d.body.Emptied [] := fun q _ hmem => by simp at hmem
  by_cases hl : h ∈ d.body.listed
  · rw [modifyInside_of_listed hd hl]
    refine hnone.rewriteAt fun p q hq => ?_
    have hq : q ∈ p.emptied.tree.paragraphs := hq
    obtain rfl : q = p.emptied := by simpa using hq
    rfl
  · have hn : h ∉ d.body.handles := fun hm =>
      hl (listed_of_mem_handles hc (roles_body_subset hf) hr hm)
    have hbody : (d.modifyInside h fun _ => .nil).body = d.body := by
      simp [modifyInside, mapTrees, modifyInside_eq_replaceAt, replaceAt_of_notMem hn]
    rw [hbody]
    exact hnone.cons_of_notMem hl

/-- Removing paragraphs one after the other.  Those that are left are empty. -/
theorem advances_removeAll {others emptied : List Handle}
    (hr : ∀ k ∈ others, (k, .paragraph) ∈ register) (hg : others ⊆ gone)
    (he : d.body.Emptied emptied) :
    Advances register gone touched d (d.removeAll others) ∧
      (d.removeAll others).body.Emptied (others ++ emptied) := by
  induction others generalizing d emptied with
  | nil => exact ⟨.refl hd hf, he⟩
  | cons k rest ih =>
    rw [List.forall_mem_cons] at hr
    rw [List.cons_subset] at hg
    have hfirst : Advances register gone touched d (d.removeParagraph k) :=
      advances_removeParagraph hc hd hf hr.1 hg.1
    have hemptied : (d.removeParagraph k).body.Emptied (k :: emptied) := by
      by_cases hk : k ∈ d.body.listed
      · rw [body_removeParagraph hd hk]
        refine he.rewriteAt fun p q hq => ?_
        split at hq
        · obtain rfl : q = p.emptied := by simpa using hq
          rfl
        · simp at hq
      · have hnone : k ∉ d.body.handles := fun hm =>
          hk (listed_of_mem_handles hc (roles_body_subset hf) hr.1 hm)
        rw [body_removeParagraph_of_notMem hnone]
        exact he.cons_of_notMem hk
    obtain ⟨hrest, hleft⟩ := ih hfirst.wellFormed hfirst.roles hr.2 hg.2 hemptied
    refine ⟨hfirst.trans hrest, fun q hq hmem => hleft q hq ?_⟩
    simp only [List.cons_append, List.mem_cons, List.mem_append] at hmem ⊢
    tauto

/-- The marks of a range go beside a paragraph, if that stands anywhere. -/
theorem advances_marks (gone : List Handle) {keep : Handle} {range : List Handle}
    (hkeep : (keep, .paragraph) ∈ register) (hr : ∀ k ∈ range, (k, .paragraph) ∈ register)
    (ht : range ⊆ touched) :
    Advances register gone touched d
      (if d.standing keep = .placed then
        (d.bare range).place keep (d.startsOf range) (d.endsOf range)
      else d.bare range) := by
  obtain ⟨hbare, hstanding⟩ := advances_bare hc hd hf hr ht
  split
  · next hs =>
    exact hbare.trans (advances_place_marks hc hbare.wellFormed hbare.roles hkeep
      ((hstanding keep).trans hs) (allMarks_startsOf range d) (allMarks_endsOf range d))
  · exact hbare

/-- Clearing a range with paragraphs of the document, whether they still stand in it or not. -/
theorem advances_clearRange {keep : Handle} {others : List Handle}
    (hr : ∀ k ∈ keep :: others, (k, .paragraph) ∈ register) (hg : others ⊆ gone) :
    Advances register gone [] d ((Effect.clearRange keep others).apply d).1 := by
  obtain ⟨hkeep, hothers⟩ := List.forall_mem_cons.1 hr
  simp only [Effect.apply, Effect.applyClearRange]
  split
  · exact .refl hd hf
  · have hrange : Effect.lastPlaces (keep :: others) ⊆ keep :: others := fun _ => mem_lastPlaces.1
    have hmarked := advances_marks hc hd hf gone hkeep (fun k hk => hr k (hrange hk)) hrange
    have hempty := hmarked.trans (advances_modifyInside hc hmarked.wellFormed hmarked.roles hkeep
      tame_empty (.inr (by simp)))
    obtain ⟨hremoved, hleft⟩ := advances_removeAll hc hempty.wellFormed hempty.roles hothers hg
      (emptied_modifyInside hc hmarked.wellFormed hmarked.roles hkeep)
    have hall := hempty.trans hremoved
    refine ⟨hall.wellFormed, hall.roles, hall.stays, hall.boxes.of_emptied fun q hq hmem => ?_,
      hall.fresh⟩
    refine hleft q hq ?_
    simp only [List.mem_cons, List.mem_append] at hmem ⊢
    tauto

end

end Document

end Redline
