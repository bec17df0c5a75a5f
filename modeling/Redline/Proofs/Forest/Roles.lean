import Redline.Proofs.Forest.Rewrite

/-!
# Roles of handles

A handle leads to a paragraph of the document, to a content control around paragraphs, or to
something inside a paragraph.  An edit puts nothing into another role, so a handle leads to the same
kind of thing as long as its element stands anywhere.

## Main definitions

* `Role`, `Forest.roles` — what the handles of a forest lead to.
* `Consistent` — no handle has two roles.
-/

namespace Redline

/-- What a handle leads to. -/
inductive Role where
  /-- A paragraph outside of text boxes. -/
  | paragraph
  /-- A content control outside of paragraphs. -/
  | control
  /-- Something inside a paragraph. -/
  | boxed
deriving DecidableEq, Repr

/-- No handle has two roles. -/
def Consistent (register : List (Handle × Role)) : Prop :=
  ∀ h role role', (h, role) ∈ register → (h, role') ∈ register → role = role'

theorem consistent_of_nodup {register : List (Handle × Role)}
    (hn : (register.map Prod.fst).Nodup) : Consistent register :=
  fun _ _ _ hr hr' => congrArg Prod.snd (List.inj_on_of_nodup_map hn hr hr' rfl)

/-- A new handle may take any role. -/
theorem Consistent.concat {register : List (Handle × Role)} {new : Handle}
    (hc : Consistent register) (hn : ∀ role, (new, role) ∉ register) (role : Role) :
    Consistent (register ++ [(new, role)]) := by
  intro h first second hfirst hsecond
  rw [List.mem_append, List.mem_singleton] at hfirst hsecond
  rcases hfirst with hfirst | hfirst <;> rcases hsecond with hsecond | hsecond
  · exact hc h _ _ hfirst hsecond
  · obtain ⟨rfl, -⟩ := Prod.mk.inj hsecond
    exact absurd hfirst (hn _)
  · obtain ⟨rfl, -⟩ := Prod.mk.inj hfirst
    exact absurd hsecond (hn _)
  · exact (Prod.mk.inj hfirst).2.trans (Prod.mk.inj hsecond).2.symm

namespace Forest

/-- The handles of a forest with their roles. -/
def roles : Forest → List (Handle × Role)
  | .nil => []
  | .cons (.paragraph h _ _) inside rest =>
    (h, .paragraph) :: (inside.handles.map (·, .boxed) ++ rest.roles)
  | .cons e inside rest => e.handle?.toList.map (·, .control) ++ (inside.roles ++ rest.roles)

variable {register : List (Handle × Role)} {f g : Forest} {h : Handle} {e : Element}
  {p : Paragraph} {inside : Forest} {into : Element → Forest → Forest} {r : Paragraph → Forest}

@[simp] theorem roles_nil : Forest.nil.roles = [] := rfl

@[simp] theorem roles_cons_paragraph (p : Paragraph) (rest : Forest) :
    (Forest.cons p.element p.content rest).roles =
      (p.handle, .paragraph) :: (p.content.handles.map (·, .boxed) ++ rest.roles) := rfl

theorem roles_cons_other (inside rest : Forest) (he : e.isParagraph = false) :
    (Forest.cons e inside rest).roles =
      e.handle?.toList.map (·, .control) ++ (inside.roles ++ rest.roles) := by
  cases e <;> simp_all [roles, Element.isParagraph]

@[simp] theorem roles_append (f g : Forest) : (f ++ g).roles = f.roles ++ g.roles := by
  induction f using paragraphInduction with
  | nil => rfl
  | paragraph p rest _ ih => simp [ih]
  | other e inside rest he _ ih => simp [roles_cons_other _ _ he, ih]

theorem flatMap_roles_trees (f : Forest) : f.trees.flatMap roles = f.roles := by
  induction f with
  | nil => rfl
  | cons e inside rest _ ih =>
    rw [trees, List.flatMap_cons, ih, ← roles_append]
    rfl

theorem map_fst_roles (f : Forest) : f.roles.map Prod.fst = f.handles := by
  induction f using paragraphInduction with
  | nil => rfl
  | paragraph p rest _ ih => simp [ih, Function.comp_def]
  | other e inside rest he ihi ihr =>
    simp [roles_cons_other _ _ he, ihi, ihr, Function.comp_def]

theorem roles_eq_nil (hf : f.handles = []) : f.roles = [] := by
  rw [← map_fst_roles] at hf
  exact List.map_eq_nil_iff.1 hf

theorem mem_roles_of_listed (hl : h ∈ f.listed) : (h, .paragraph) ∈ f.roles := by
  induction f using paragraphInduction with
  | nil => simp at hl
  | paragraph p rest _ ih =>
    rw [listed_cons_paragraph, List.mem_cons] at hl
    rcases hl with rfl | hl
    · simp
    · simp [ih hl]
  | other e inside rest he ihi ihr =>
    rw [listed_cons_other _ _ he, List.mem_append] at hl
    rw [roles_cons_other _ _ he]
    rcases hl with hl | hl
    · simp [ihi hl]
    · simp [ihr hl]

theorem listed_of_mem_roles (hr : (h, .paragraph) ∈ f.roles) : h ∈ f.listed := by
  induction f using paragraphInduction with
  | nil => simp at hr
  | paragraph p rest _ ih =>
    rw [listed_cons_paragraph, List.mem_cons]
    simp only [roles_cons_paragraph, List.mem_cons, Prod.mk.injEq, and_true, List.mem_append,
      List.mem_map, reduceCtorEq, and_false, exists_false, false_or] at hr
    exact hr.imp_right ih
  | other e inside rest he ihi ihr =>
    rw [listed_cons_other _ _ he, List.mem_append]
    simp only [roles_cons_other _ _ he, List.mem_append, List.mem_map, Prod.mk.injEq,
      reduceCtorEq, and_false, exists_false, false_or] at hr
    exact hr.imp ihi ihr

/-! ## What a role says -/

section
variable (hc : Consistent register)
include hc

/-- A handle whose role is known stands in a forest in this role alone. -/
theorem listed_of_mem_handles (hf : f.roles ⊆ register) (hr : (h, .paragraph) ∈ register)
    (hm : h ∈ f.handles) : h ∈ f.listed := by
  rw [← map_fst_roles] at hm
  obtain ⟨⟨_, role⟩, hrole, rfl⟩ := List.mem_map.1 hm
  obtain rfl : role = .paragraph := hc _ _ _ (hf hrole) hr
  exact listed_of_mem_roles hrole

theorem isParagraph_of_role (hf : (single e inside).roles ⊆ register) (he : e.has h = true)
    (hr : (h, .paragraph) ∈ register) : e.isParagraph = true := by
  by_contra hp
  have hp : e.isParagraph = false := by simpa using hp
  have hcontrol : (h, .control) ∈ register :=
    hf (by simp [single, roles_cons_other _ _ hp, Element.has_iff.1 he])
  cases hc _ _ _ hr hcontrol

theorem isParagraph_of_control_role (hf : (single e inside).roles ⊆ register)
    (he : e.has h = true) (hr : (h, .control) ∈ register) : e.isParagraph = false := by
  cases e with
  | paragraph k style alignment =>
    have hk : k = h := Option.some.inj (Element.has_iff.1 he)
    have hparagraph : (h, .paragraph) ∈ register := hf (by simp [single, roles, hk])
    cases hc _ _ _ hr hparagraph
  | _ => rfl

theorem notMem_content_of_role {role : Role} (hrole : role ≠ .boxed)
    (hf : p.tree.roles ⊆ register) (hr : (h, role) ∈ register) : h ∉ p.content.handles := by
  intro hm
  have hboxed : (h, .boxed) ∈ register := hf (by simp [Paragraph.tree, single, hm])
  exact hrole (hc _ _ _ hr hboxed)

end

theorem roles_cons_subset {rest : Forest} :
    (Forest.cons e inside rest).roles ⊆ register ↔
      (single e inside).roles ⊆ register ∧ rest.roles ⊆ register := by
  rw [show Forest.cons e inside rest = single e inside ++ rest from rfl, roles_append,
    List.append_subset]

theorem roles_inside_subset (he : e.isParagraph = false) (hf : (single e inside).roles ⊆ register) :
    inside.roles ⊆ register := by
  rw [single, roles_cons_other _ _ he, roles_nil, List.append_nil, List.append_subset] at hf
  exact hf.2

theorem exists_of_tree? {tree : Forest} (ht : f.tree? h = some tree) :
    ∃ e inside, tree = single e inside ∧ e.has h = true := by
  induction f with
  | nil => cases ht
  | cons e inside rest ihi ihr =>
    rw [tree?] at ht
    split at ht
    · next he => exact ⟨e, inside, (Option.some.inj ht).symm, he⟩
    · split at ht
      · next hi => exact ihi (ht ▸ hi)
      · exact ihr ht

/-- What is found by the handle of a paragraph or a content control has its roles in the forest. -/
theorem roles_tree?_subset {role : Role} {tree : Forest} (hc : Consistent register)
    (hrole : role ≠ .boxed) (hr : (h, role) ∈ register) (hf : f.roles ⊆ register)
    (ht : f.tree? h = some tree) : tree.roles ⊆ register := by
  induction f using paragraphInduction with
  | nil => cases ht
  | paragraph p rest _ ih =>
    obtain ⟨hp, hrest⟩ := roles_cons_subset.1 hf
    rw [tree?] at ht
    split at ht
    · exact Option.some.inj ht ▸ hp
    · -- Inside of paragraphs all handles are boxed, so this one is not there.
      have hnone : p.content.tree? h = none :=
        tree?_eq_none_iff.2 (notMem_content_of_role hc hrole hp hr)
      rw [hnone] at ht
      exact ih hrest ht
  | other e inside rest hother ihi ihr =>
    obtain ⟨hp, hrest⟩ := roles_cons_subset.1 hf
    rw [tree?] at ht
    split at ht
    · exact Option.some.inj ht ▸ hp
    · split at ht
      · next hi => exact ihi (roles_inside_subset hother hp) (Option.some.inj ht ▸ hi)
      · exact ihr hrest ht

/-! ## Roles in changed forests -/

/-- An edit at an element outside of paragraphs changes roles there alone. -/
theorem roles_replaceAt {role : Role} (hc : Consistent register) (hrole : role ≠ .boxed)
    (hr : (h, role) ∈ register) (hf : f.roles ⊆ register)
    (hinto : ∀ e inside, e.has h = true → (single e inside).roles ⊆ register →
      (into e inside).roles ⊆ register) :
    (f.replaceAt h into).roles ⊆ register := by
  induction f using paragraphInduction with
  | nil => exact hf
  | paragraph p rest _ ih =>
    obtain ⟨hp, hrest⟩ := roles_cons_subset.1 hf
    by_cases he : p.element.has h = true
    · rw [replaceAt, if_pos he, roles_append, List.append_subset]
      exact ⟨hinto _ _ he hp, hrest⟩
    · rw [replaceAt, if_neg he, replaceAt_of_notMem (notMem_content_of_role hc hrole hp hr)]
      exact roles_cons_subset.2 ⟨hp, ih hrest⟩
  | other e inside rest hother ihi ihr =>
    obtain ⟨hp, hrest⟩ := roles_cons_subset.1 hf
    by_cases he : e.has h = true
    · rw [replaceAt, if_pos he, roles_append, List.append_subset]
      exact ⟨hinto _ _ he hp, hrest⟩
    · rw [replaceAt, if_neg he]
      refine roles_cons_subset.2 ⟨?_, ihr hrest⟩
      have hi := ihi (roles_inside_subset hother hp)
      rw [single, roles_cons_other _ _ hother, List.append_subset] at hp ⊢
      exact ⟨hp.1, by simpa using hi⟩

theorem roles_rewrite (hf : f.roles ⊆ register)
    (hr : ∀ p ∈ f.paragraphs, p.tree.roles ⊆ register → (r p).roles ⊆ register) :
    (f.rewrite r).roles ⊆ register := by
  induction f using paragraphInduction with
  | nil => exact hf
  | paragraph p rest _ ih =>
    obtain ⟨hp, hrest⟩ := roles_cons_subset.1 hf
    rw [rewrite_cons_paragraph, roles_append, List.append_subset]
    exact ⟨hr p (by simp) hp, ih hrest fun q hq => hr q (by simp [hq])⟩
  | other e inside rest he ihi ihr =>
    rw [paragraphs_cons_other _ _ he] at hr
    rw [roles_cons_other _ _ he, List.append_subset, List.append_subset] at hf
    rw [rewrite_cons_other _ _ he, roles_cons_other _ _ he, List.append_subset, List.append_subset]
    exact ⟨hf.1, ihi hf.2.1 fun p hp => hr p (List.mem_append_left _ hp),
      ihr hf.2.2 fun p hp => hr p (List.mem_append_right _ hp)⟩

/-- A paragraph has its roles in the forest that it stands in. -/
theorem roles_tree_subset (hp : p ∈ f.paragraphs) : p.tree.roles ⊆ f.roles := by
  intro x hx
  induction f using paragraphInduction with
  | nil => simp at hp
  | paragraph q rest _ ih =>
    rw [← tree_append, roles_append, List.mem_append]
    rcases List.mem_cons.1 hp with rfl | hp
    · exact .inl hx
    · exact .inr (ih hp)
  | other e inside rest he ihi ihr =>
    rw [paragraphs_cons_other _ _ he, List.mem_append] at hp
    rw [roles_cons_other _ _ he, List.mem_append, List.mem_append]
    exact .inr (hp.imp ihi ihr)

end Forest

end Redline
