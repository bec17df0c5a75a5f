import Redline.Proofs.Document.Guarding
import Redline.Proofs.Document.Wrapping

/-!
# Effects spare the last paragraphs of cells

Every effect that is made with handles of the right kind leaves a document well formed, its handles
in their roles, and every guarded cell with a paragraph.  So does a row of effects, however far it
gets.

## Main definitions

* `Effect.Fits` — an effect asks for paragraphs and content controls by handles of such.
* `Effect.makes`, `Effect.removes` — what was made for an effect, and what it is to take out.
* `Forest.Spares` — a change that leaves every guarded cell with a paragraph, or no cell at all.
* `Document.Queued` — effects that are ready to be made.
-/

namespace Redline

open Forest

namespace Effect

/-- The handles that an effect asks for belong to a register in the roles that it takes them in. -/
def Fits (register : List (Handle × Role)) : Effect → Prop
  | .insertBeside new _ _ anchor => (new, .paragraph) ∈ register ∧
    ((anchor, .paragraph) ∈ register ∨ (anchor, .control) ∈ register)
  | .insertInBody new _ _ => (new, .paragraph) ∈ register
  | .setText paragraph _ | .setStyle paragraph _ | .setColor paragraph _ | .setBold paragraph _
  | .setAlignment paragraph _ | .delete paragraph => (paragraph, .paragraph) ∈ register
  | .replace found _ => (found.paragraph, .paragraph) ∈ register
  | .clearRange keep others => ∀ h ∈ keep :: others, (h, .paragraph) ∈ register
  | .clearBody => True
  | .wrap control first others _ => (control, .control) ∈ register ∧
    ∀ h ∈ first :: others, (h, .paragraph) ∈ register
  | .setTag control _ | .setAppearance control _ => (control, .control) ∈ register

instance (register : List (Handle × Role)) : (e : Effect) → Decidable (e.Fits register)
  | .insertBeside .. => inferInstanceAs (Decidable (_ ∧ (_ ∨ _)))
  | .clearRange .. => inferInstanceAs (Decidable (∀ h ∈ _, (h, Role.paragraph) ∈ register))
  | .clearBody => inferInstanceAs (Decidable True)
  | .wrap .. => inferInstanceAs (Decidable (_ ∧ ∀ h ∈ _, (h, Role.paragraph) ∈ register))
  | .insertInBody .. | .setText .. | .setStyle .. | .setColor .. | .setBold .. | .setAlignment ..
  | .delete .. | .replace .. | .setTag .. | .setAppearance .. =>
    inferInstanceAs (Decidable (_ ∈ register))

/-- What has been made for an effect and is put in by it. -/
def makes : Effect → List Handle
  | .insertBeside new _ _ _ | .insertInBody new _ _ => [new]
  | .wrap control _ _ _ => [control]
  | _ => []

/-- The paragraphs that an effect is to take out. -/
def removes : Effect → List Handle
  | .clearRange _ others => others
  | .delete paragraph => [paragraph]
  | _ => []

theorem Fits.mono {register register' : List (Handle × Role)} {e : Effect} (h : e.Fits register)
    (hs : register ⊆ register') : e.Fits register' := by
  cases e with
  | insertBeside new text side anchor => exact ⟨hs h.1, h.2.imp (hs ·) (hs ·)⟩
  | clearRange keep others => exact fun k hk => hs (h k hk)
  | clearBody => trivial
  | wrap control first others tag => exact ⟨hs h.1, fun k hk => hs (h.2 k hk)⟩
  | _ => exact hs h

end Effect

/-- Every guarded cell is left with a paragraph and no paragraphs but the given ones are taken out of
cells, unless all cells are gone; the cells in the text boxes of paragraphs have stood there with the
same paragraphs. -/
structure Forest.Spares (gone : List Handle) (f g : Forest) : Prop where
  cells : g.cellInsides = [] ∨ List.Forall₂ (CellKept gone) f.cellInsides g.cellInsides
  boxes : f.KeepsBoxes [] g

namespace Forest.Spares

variable {f g k : Forest} {gone : List Handle}

theorem of_stays (hs : f.Stays gone g) (hb : f.KeepsBoxes [] g) : f.Spares gone g :=
  ⟨.inr hs.cells, hb⟩

theorem refl (gone : List Handle) (f : Forest) : f.Spares gone f :=
  .of_stays (.refl gone f) (.refl [] f)

theorem trans (hfg : f.Spares gone g) (hgk : g.Spares gone k) : f.Spares gone k where
  cells := by
    rcases hgk.cells with hk | hk
    · exact .inl hk
    · rcases hfg.cells with hg | hg
      · rw [hg] at hk
        exact .inl (List.forall₂_nil_left_iff.1 hk)
      · exact .inr (CellKept.forall₂_trans hg hk)
  boxes := hfg.boxes.trans hgk.boxes

end Forest.Spares

namespace Document

/-- What effects leave of a document.  What is made for other effects stays as it was made. -/
structure Passes (register : List (Handle × Role)) (gone made : List Handle)
    (d d' : Document) : Prop where
  wellFormed : d'.WellFormed
  roles : d'.roles ⊆ register
  spares : d.body.Spares gone d'.body
  fresh : ∀ new ∉ made, d.IsFresh new → d'.IsFresh new

variable {register : List (Handle × Role)} {gone made made' : List Handle} {d d' d'' : Document}

namespace Passes

theorem refl (hd : d.WellFormed) (hf : d.roles ⊆ register) :
    Passes register gone made d d :=
  ⟨hd, hf, .refl gone d.body, fun _ _ hnew => hnew⟩

theorem mono (h : Passes register gone made d d') (hm : made ⊆ made') :
    Passes register gone made' d d' :=
  ⟨h.wellFormed, h.roles, h.spares, fun new hn => h.fresh new fun hmem => hn (hm hmem)⟩

theorem trans (h : Passes register gone made d d') (h' : Passes register gone made d' d'') :
    Passes register gone made d d'' :=
  ⟨h'.wellFormed, h'.roles, h.spares.trans h'.spares,
    fun new hn hnew => h'.fresh new hn (h.fresh new hn hnew)⟩

end Passes

theorem Advances.passes (h : Advances register gone [] d d') : Passes register gone made d d' :=
  ⟨h.wellFormed, h.roles, .of_stays h.stays h.boxes, fun new _ hnew => h.fresh new hnew⟩

end Document

/-! ## Contents -/

namespace Forest

variable {f : Forest} {h : Handle} {change change' : Forest → Forest}

theorem everyCell_textContent (text : List Char) (f : Forest) :
    (Effect.textContent text f).everyCell = [] := by
  rw [Effect.textContent]
  split <;> simp [(AllMarks.startMarks f).everyCell_eq, (AllMarks.endMarks f).everyCell_eq]

theorem tame_textContent (text : List Char) : Tame (Effect.textContent text) := by
  have hedit : ∀ f : Forest, (⟨default, "", none, f⟩ : Paragraph).IsEdit
      ⟨default, "", none, Effect.textContent text f⟩ := fun f => Effect.isEdit_textContent _ text
  exact ⟨fun f => (hedit f).handles, fun f _ => Effect.ofKind_textContent text f,
    fun f _ => everyCell_textContent text f⟩

theorem tame_formatRuns (format : RunFormat → RunFormat) : Tame (·.formatRuns format) :=
  ⟨fun _ => by simp, fun _ hf => by simpa [OfKind] using hf, fun _ hf => by simpa using hf⟩

theorem tame_spliceRuns (start stop : Nat) (new : List Char) :
    Tame fun f => (f.spliceRuns start stop new).1 where
  handles := handles_spliceFrom_sublist
  ofKind _ hf := ofKind_spliceFrom hf
  cells f hf := List.sublist_nil.1 (hf ▸ everyCell_spliceFrom_sublist start stop 0 new f)

/-- What becomes of other contents does not matter. -/
theorem modifyInside_congr (hn : f.handles.Nodup)
    (hc : ∀ e inside, f.tree? h = some (single e inside) → change inside = change' inside) :
    f.modifyInside h change = f.modifyInside h change' := by
  simp only [modifyInside_eq_replaceAt]
  induction f with
  | nil => rfl
  | cons e inside rest ihi ihr =>
    rw [handles_cons, List.nodup_append, List.nodup_append] at hn
    by_cases he : e.has h = true
    · rw [replaceAt, replaceAt, if_pos he, if_pos he, hc e inside (by simp [tree?, he])]
    · have hi := ihi hn.2.1.1 fun e' i' ht => hc e' i' (by simp [tree?, he, ht])
      rw [replaceAt, replaceAt, if_neg he, if_neg he, hi]
      congr 1
      -- The handle stands inside or behind, not both, so one of the two parts is left as it is.
      by_cases hm : h ∈ inside.handles
      · have hr : h ∉ rest.handles := fun hr => hn.2.1.2.2 h hm h hr rfl
        rw [replaceAt_of_notMem hr, replaceAt_of_notMem hr]
      · have hnone : inside.tree? h = none := tree?_eq_none_iff.2 hm
        exact ihr hn.2.1.2.1 fun e' i' ht => hc e' i' (by simp [tree?, he, hnone, ht])

end Forest

namespace Document

variable {register : List (Handle × Role)} {gone made others : List Handle} {d d' : Document}
  {h k new control first : Handle} {tree found : Forest} {change : Forest → Forest}

/-- A handle leads to the same element wherever one begins to look for it. -/
theorem WellFormed.tree?_eq (hd : d.WellFormed) (ht : tree ∈ d.trees)
    (hf : tree.tree? h = some found) : d.tree? h = some found := by
  have hmem : ∀ {t t' : Forest}, t.tree? h = some t' → h ∈ t.handles := fun hs => by
    by_contra hn
    rw [tree?_eq_none_iff.2 hn] at hs
    cases hs
  rw [tree?_eq_findSome?]
  cases hs : d.trees.findSome? (·.tree? h) with
  | none =>
    have := List.findSome?_eq_none_iff.1 hs tree ht
    rw [hf] at this
    cases this
  | some other =>
    obtain ⟨tree', ht', hother⟩ := List.exists_of_findSome?_eq_some hs
    -- No two trees share a handle, so the first one that has it is the given one.
    obtain rfl := eq_of_mem_flatMap hd.distinct ht ht' (hmem hf) (hmem hother)
    exact hother.symm.trans hf

/-- What a content becomes may be told from the content that is there. -/
theorem WellFormed.modifyInside_inside (hd : d.WellFormed) (h : Handle)
    (change : Forest → Forest) :
    (d.modifyInside h fun _ => change (d.inside h)) = d.modifyInside h change := by
  have htree : ∀ tree ∈ d.trees, tree.modifyInside h (fun _ => change (d.inside h)) =
      tree.modifyInside h change := by
    intro tree ht
    have hn : tree.handles.Nodup := (List.nodup_flatMap.1 hd.distinct).1 tree ht
    refine modifyInside_congr hn fun e inside hs => ?_
    rw [Document.inside, hd.tree?_eq ht hs]
    rfl
  have hloose : ∀ part ∈ d.loose, part.tree ∈ d.trees := fun part hp =>
    List.mem_cons_of_mem _ (List.mem_map_of_mem hp)
  rw [Document.modifyInside, Document.modifyInside, mapTrees, mapTrees,
    htree d.body List.mem_cons_self]
  congr 1
  exact List.map_congr_left fun part hp => by rw [htree part.tree (hloose part hp)]

/-! ## Parts that are put in -/

theorem IsFresh.dropLoose (hk : d.IsFresh k) (hne : k ≠ new) :
    (d.dropLoose new).IsFresh k := by
  obtain ⟨e, inside, hmem, he, hrest⟩ := hk
  refine ⟨e, inside, List.mem_filter.2 ⟨hmem, ?_⟩, he, hrest⟩
  have hroot : ¬ e.has new = true := fun hn =>
    hne (Option.some.inj ((Element.has_iff.1 he).symm.trans (Element.has_iff.1 hn)))
  simpa [LoosePart.isRoot, Forest.single] using hroot

/-- A paragraph that has been made and not been put in yet is put in as it was made. -/
theorem IsFresh.exists_paragraph (hc : Consistent register) (hd : d.WellFormed)
    (hf : d.roles ⊆ register) (hr : (new, .paragraph) ∈ register) (hnew : d.IsFresh new) :
    ∃ p : Paragraph, Effect.newTree d new = p.tree ∧ p.tree.roles ⊆ register ∧
      p.boxedCells = [] := by
  obtain ⟨e, inside, hmem, he, -, hcells⟩ := hnew
  have hroles := roles_loose_subset hf hmem
  obtain ⟨p, -, rfl, rfl⟩ := exists_paragraph_of_role hc hroles he hr
  exact ⟨p, hd.newTree_eq hmem he, hroles, by simp [Paragraph.boxedCells, hcells]⟩

/-- What is put in is fresh no longer, and everything else is left alone. -/
theorem Advances.passes_dropLoose (h : Advances register gone [] (d.dropLoose new) d') :
    Passes register gone [new] d d' :=
  ⟨h.wellFormed, h.roles, .of_stays h.stays h.boxes, fun k hne hk =>
    h.fresh k (hk.dropLoose fun he => hne (List.mem_singleton.2 he))⟩

theorem IsFresh.of_dropLoose (hk : (d.dropLoose new).IsFresh k) :
    d.IsFresh k := by
  obtain ⟨e, inside, hmem, hrest⟩ := hk
  exact ⟨e, inside, List.mem_of_mem_filter hmem, hrest⟩

section
variable (hc : Consistent register) (hd : d.WellFormed) (hf : d.roles ⊆ register)
include hc hd hf

theorem passes_insertBeside (text : String) (side : Side) {anchor : Handle}
    (hr : (new, .paragraph) ∈ register)
    (ha : (anchor, .paragraph) ∈ register ∨ (anchor, .control) ∈ register)
    (hnew : d.IsFresh new) :
    Passes register gone [new] d ((Effect.insertBeside new text side anchor).apply d).1 := by
  have hw := hd.applyInsertBeside new anchor side
  simp only [Effect.apply, Effect.applyInsertBeside] at hw ⊢
  cases hs : d.standing anchor with
  | fresh => exact .refl hd hf
  | removed =>
    rw [hs] at hw
    -- Nothing is put in: the new paragraph is set aside, and other ones are as fresh as before.
    have hroles : (Effect.setAside new d).roles ⊆ register := by
      rwa [roles, trees_setAside]
    refine ⟨hw, hroles, .refl gone d.body, fun k hne hk => ?_⟩
    obtain ⟨e, inside, hmem, he, hrest⟩ := hk
    refine ⟨e, inside, List.mem_map.2 ⟨_, hmem, ?_⟩, he, hrest⟩
    have hroot : ¬ e.has new = true := fun hn =>
      hne (List.mem_singleton.2 (Option.some.inj
        ((Element.has_iff.1 he).symm.trans (Element.has_iff.1 hn))))
    simp [LoosePart.isRoot, Forest.single, hroot]
  | placed =>
    obtain ⟨p, htree, hroles, hboxes⟩ := hnew.exists_paragraph hc hd hf hr
    obtain ⟨role, hrole, hrank⟩ : ∃ role, (anchor, role) ∈ register ∧ role ≠ .boxed :=
      ha.elim (fun ha => ⟨_, ha, by simp⟩) fun ha => ⟨_, ha, by simp⟩
    have hfresh : ∀ k, (d.dropLoose new).IsFresh k → anchor ≠ k := fun k hk he =>
      hk.of_dropLoose.standing_ne_placed (he ▸ hs)
    have hdrop : (d.dropLoose new).roles ⊆ register := roles_dropLoose hf new
    rw [hs, htree] at hw
    rw [htree]
    cases side with
    | before =>
      refine (advances_place hc hdrop hrank hrole hw ⟨hroles, by simp⟩ ⟨by simp, rfl⟩
        (fun q hq => ?_) hfresh).passes_dropLoose
      obtain rfl : q = p := by simpa using hq
      exact hboxes
    | after =>
      refine (advances_place hc hdrop hrank hrole hw ⟨by simp, hroles⟩ ⟨rfl, by simp⟩
        (fun q hq => ?_) hfresh).passes_dropLoose
      obtain rfl : q = p := by simpa using hq
      exact hboxes

theorem passes_insertInBody (text : String) (edge : Edge) (hr : (new, .paragraph) ∈ register)
    (hnew : d.IsFresh new) :
    Passes register gone [new] d ((Effect.insertInBody new text edge).apply d).1 := by
  have hw := keeps_insertInBody new text edge d hd
  obtain ⟨p, htree, hroles, hboxes⟩ := hnew.exists_paragraph hc hd hf hr
  simp only [Effect.apply, Effect.applyInsertInBody, htree] at hw ⊢
  -- The new paragraph goes to one of the two ends, and nothing to the other one.
  have hput : ∀ before after : Forest,
      (before.roles ⊆ register ∧ after.roles ⊆ register) →
      (before.cellInsides = [] ∧ after.cellInsides = []) →
      (∀ q, q ∈ before.paragraphs ∨ q ∈ after.paragraphs → q.boxedCells = []) →
      ({ d.dropLoose new with body := before ++ (d.body ++ after) } : Document).WellFormed →
      Passes register gone [new] d
        { d.dropLoose new with body := before ++ (d.body ++ after) } := by
    intro before after hroles hcells hboxes hwell
    have hharmless : Harmless register gone [] d.body (before ++ (d.body ++ after)) :=
      harmless_beside hroles hcells hboxes d.body
    have hbody := hharmless.roles (roles_body_subset hf)
    exact ⟨hwell, roles_withBody (roles_dropLoose hf new) hbody,
      .of_stays hharmless.stays hharmless.boxes,
      fun k hne hk => hk.dropLoose fun he => hne (List.mem_singleton.2 he)⟩
  cases edge with
  | start =>
    refine (append_nil d.body ▸ hput p.tree .nil) ⟨hroles, by simp⟩ ⟨by simp, rfl⟩
      (fun q hq => ?_) hw
    obtain rfl : q = p := by simpa using hq
    exact hboxes
  | stop =>
    refine hput .nil p.tree ⟨by simp, hroles⟩ ⟨rfl, by simp⟩ (fun q hq => ?_) hw
    obtain rfl : q = p := by simpa using hq
    exact hboxes

omit hc in
theorem passes_clearBody : Passes register gone made d (Effect.clearBody.apply d).1 where
  wellFormed := keeps_clearBody d hd
  roles := by
    have hempty : ({ d with body := .nil } : Document).roles ⊆ register :=
      roles_withBody hf (List.nil_subset _)
    have hmoved := roles_append_loose { d with body := .nil } (d.body.trees.map (⟨false, ·⟩))
    rw [List.flatMap_map, flatMap_roles_trees] at hmoved
    exact hmoved ▸ List.append_subset.2 ⟨hempty, roles_body_subset hf⟩
  spares := ⟨.inl rfl, fun q hq => by simp [Effect.apply, Effect.applyClearBody, Effect.done] at hq⟩
  fresh _ _ hnew := hnew.append_loose

theorem passes_wrap (tag : String) (hr : (control, .control) ∈ register)
    (hnew : d.IsFresh control) :
    Passes register gone [control] d ((Effect.wrap control first others tag).apply d).1 := by
  by_cases hown : ∀ h ∈ first :: others, h ∈ d.body.ownParagraphs
  · obtain ⟨e, inside, hmem, he, hinside, -⟩ := hnew
    have hroles := roles_loose_subset hf hmem
    have hother := isParagraph_of_control_role hc hroles he hr
    have hcell : e ≠ .cell := by
      rintro rfl
      cases Element.has_iff.1 he
    have hrange : ∀ h, h ∈ Effect.lastPlaces (first :: others) ↔ h ∈ first :: others := fun h =>
      mem_lastPlaces
    obtain ⟨ps, hps, hhandles⟩ := exists_own_paragraphs fun h hh => hown h ((hrange h).1 hh)
    rw [apply_wrap hd hmem he hown hother hinside tag hps hhandles]
    refine ⟨wellFormed_wrapped hd hmem he hown hother hinside hps hhandles,
      roles_withBody (roles_dropLoose hf control)
        (roles_wrapping hother hps (roles_body_subset hf) hroles),
      .of_stays ?_ (keepsBoxes_wrapping hother hps []),
      fun k hne hk => hk.dropLoose fun he => hne (List.mem_singleton.2 he)⟩
    have hlisted := hd.nodup_body.sublist (listed_sublist_handles d.body)
    exact stays_wrapping hother hps hlisted hcell List.mem_cons_self fun h => by
      rw [hhandles, hrange]
  · have hall : ¬ (first :: others).all d.body.ownParagraphs.contains = true := by
      simpa [List.all_eq_true] using hown
    simp only [Effect.apply, Effect.applyWrap, if_neg hall]
    exact .refl hd hf

/-! ## Every effect -/

theorem passes_modifyInside (hr : (h, .paragraph) ∈ register) (ht : Tame change)
    (hb : ∀ f : Forest,
      ((change f).everyCell.map Forest.listed).Sublist (f.everyCell.map Forest.listed)) :
    Passes register gone made d (d.modifyInside h change) :=
  (advances_modifyInside hc hd hf hr ht (.inr hb)).passes

theorem passes_setProperty (hr : (control, .control) ∈ register) (text : String)
    (alter : ControlProperties → ControlProperties) :
    Passes register gone made d (Effect.applySetProperty control text alter d).1 := by
  unfold Effect.applySetProperty
  split
  · exact .refl hd hf
  · split
    · exact .refl hd hf
    · exact (advances_reproperty hc hd hf hr alter).passes

/-- Every effect that is made with handles of the right kind passes. -/
theorem passes_apply {e : Effect} (he : e.Fits register)
    (hm : ∀ new ∈ e.makes, d.IsFresh new) (hg : e.removes ⊆ gone) :
    Passes register gone e.makes d (e.apply d).1 := by
  cases e with
  | insertBeside new text side anchor =>
    exact passes_insertBeside hc hd hf text side he.1 he.2 (hm new List.mem_cons_self)
  | insertInBody new text edge =>
    exact passes_insertInBody hc hd hf text edge he (hm new List.mem_cons_self)
  | setText paragraph text =>
    exact passes_modifyInside hc hd hf he (tame_textContent _) fun f => by
      simp [everyCell_textContent]
  | setStyle paragraph style =>
    simp only [Effect.apply, Effect.applySetStyle, Effect.withValue]
    split
    · exact (advances_restyle hc hd hf he _).passes
    · exact .refl hd hf
  | setColor paragraph color =>
    simp only [Effect.apply, Effect.applySetColor, Effect.withValue]
    split
    · exact passes_modifyInside hc hd hf he (tame_formatRuns _) fun f => by simp
    · exact .refl hd hf
  | setBold paragraph bold =>
    exact passes_modifyInside hc hd hf he (tame_formatRuns _) fun f => by simp
  | setAlignment paragraph alignment =>
    simp only [Effect.apply, Effect.applySetAlignment]
    split
    · exact (advances_restyle hc hd hf he _).passes
    · exact .refl hd hf
  | replace found text =>
    simp only [Effect.apply, Effect.applyReplace]
    split
    · exact .refl hd hf
    · have hsplice := hd.modifyInside_inside found.paragraph fun f =>
        (f.spliceRuns found.start found.stop text.toList).1
      rw [hsplice]
      exact passes_modifyInside hc hd hf he (tame_spliceRuns _ _ _) fun f =>
        (everyCell_spliceFrom_sublist _ _ _ _ f).map _
  | clearRange keep others => exact (advances_clearRange hc hd hf he hg).passes
  | clearBody => exact passes_clearBody hd hf
  | delete paragraph =>
    simp only [Effect.apply, Effect.applyDelete]
    split
    · exact .refl hd hf
    · exact (advances_removeParagraph hc hd hf he (hg List.mem_cons_self)).passes
  | wrap control first others tag =>
    exact passes_wrap hc hd hf tag he.1 (hm control List.mem_cons_self)
  | setTag control tag => exact passes_setProperty hc hd hf he tag _
  | setAppearance control appearance => exact passes_setProperty hc hd hf he appearance _

end

/-! ## Rows of effects -/

/-- Effects that are ready to be made: each asks for handles of the right kind, and what was made for
it has not been put in yet. -/
structure Queued (register : List (Handle × Role)) (pending : List Effect) (d : Document) :
    Prop where
  fits : ∀ e ∈ pending, e.Fits register
  distinct : (pending.flatMap Effect.makes).Nodup
  fresh : ∀ new ∈ pending.flatMap Effect.makes, d.IsFresh new

namespace Queued

variable {register' : List (Handle × Role)} {pending : List Effect} {e : Effect}

theorem nil (register : List (Handle × Role)) (d : Document) : Queued register [] d :=
  ⟨by simp, by simp, by simp⟩

theorem mono (hq : Queued register pending d) (hr : register ⊆ register')
    (hd : ∀ new, d.IsFresh new → d'.IsFresh new) : Queued register' pending d' :=
  ⟨fun e he => (hq.fits e he).mono hr, hq.distinct, fun new hn => hd new (hq.fresh new hn)⟩

/-- One more effect is queued. -/
theorem concat (hq : Queued register pending d) (he : e.Fits register) (hn : e.makes.Nodup)
    (hm : ∀ new ∈ e.makes, d.IsFresh new ∧ new ∉ pending.flatMap Effect.makes) :
    Queued register (pending ++ [e]) d where
  fits x hx := by
    rcases List.mem_append.1 hx with hx | hx
    · exact hq.fits x hx
    · exact List.mem_singleton.1 hx ▸ he
  distinct := by
    rw [List.flatMap_append, List.flatMap_singleton]
    exact hq.distinct.append hn fun new hold hnew => (hm new hnew).2 hold
  fresh new hnew := by
    rw [List.flatMap_append, List.flatMap_singleton, List.mem_append] at hnew
    exact hnew.elim (hq.fresh new) fun hnew => (hm new hnew).1

end Queued

section
variable {pending : List Effect} {isOpen : Bool} (hc : Consistent register)
include hc

theorem passes_step {e : Effect} (hd : d.WellFormed) (hf : d.roles ⊆ register)
    (he : e.Fits register) (hm : ∀ new ∈ e.makes, d.IsFresh new) (hg : e.removes ⊆ gone) :
    Passes register gone e.makes d (Host.step isOpen e d).1 := by
  unfold Host.step
  split
  · exact passes_apply hc hd hf he hm hg
  · split
    · exact .refl hd hf
    · exact passes_apply hc hd hf he hm hg

/-- A row of effects passes, whether it is made as a whole or one of the effects fails. -/
theorem passes_applyAll (hd : d.WellFormed) (hf : d.roles ⊆ register)
    (hq : Queued register pending d) (hg : pending.flatMap Effect.removes ⊆ gone) :
    Passes register gone (pending.flatMap Effect.makes) d
      (d.applyAll (Host.step isOpen) pending).document := by
  induction pending generalizing d with
  | nil => exact .refl hd hf
  | cons e rest ih =>
    obtain ⟨hfits, hfitsRest⟩ := List.forall_mem_cons.1 hq.fits
    have hdistinct := hq.distinct
    rw [List.flatMap_cons, List.nodup_append] at hdistinct
    rw [List.flatMap_cons, List.append_subset] at hg
    have hmade : ∀ new ∈ e.makes, d.IsFresh new := fun new hn =>
      hq.fresh new (List.mem_append_left _ hn)
    have hstep : Passes register gone e.makes d (Host.step isOpen e d).1 :=
      passes_step hc hd hf hfits hmade hg.1
    have hfirst := hstep.mono (List.subset_append_left e.makes (rest.flatMap Effect.makes))
    rw [applyAll, List.flatMap_cons]
    rcases hrun : Host.step isOpen e d with ⟨next, _ | fault⟩
    · rw [hrun] at hstep hfirst
      -- What this effect has put in is fresh no longer, but no later effect puts it in too.
      have hrest : Queued register rest next := by
        refine ⟨hfitsRest, hdistinct.2.1, fun new hn => hstep.fresh new (fun hm => ?_) ?_⟩
        · exact hdistinct.2.2 new hm new hn rfl
        · exact hq.fresh new (List.mem_append_right _ hn)
      exact hfirst.trans ((ih hstep.wellFormed hstep.roles hrest hg.2).mono
        (List.subset_append_right _ _))
    · rw [hrun] at hfirst
      exact hfirst

end

/-! ## Handles that are given out -/

theorem nextHandle_bare (range : List Handle) (d : Document) :
    (d.bare range).nextHandle = d.nextHandle := by
  induction range generalizing d with
  | nil => rfl
  | cons h rest ih => exact ih (d.modifyInside h (·.withoutMarks))

/-- No effect gives a handle out. -/
theorem nextHandle_apply (e : Effect) (d : Document) : (e.apply d).1.nextHandle = d.nextHandle := by
  cases e with
  | insertBeside new text side anchor =>
    simp only [Effect.apply, Effect.applyInsertBeside]
    split
    · rfl
    · rfl
    · split <;> rfl
  | insertInBody new text edge => cases edge <;> rfl
  | setStyle paragraph style =>
    simp only [Effect.apply, Effect.applySetStyle, Effect.withValue]
    split <;> rfl
  | setColor paragraph color =>
    simp only [Effect.apply, Effect.applySetColor, Effect.withValue]
    split <;> rfl
  | setAlignment paragraph alignment =>
    simp only [Effect.apply, Effect.applySetAlignment]
    split <;> rfl
  | replace found text =>
    simp only [Effect.apply, Effect.applyReplace]
    split <;> rfl
  | clearRange keep others =>
    simp only [Effect.apply, Effect.applyClearRange]
    split
    · rfl
    · refine (nextHandle_removeAll others _).trans ?_
      change (if _ then _ else _ : Document).nextHandle = d.nextHandle
      split
      · exact nextHandle_bare _ d
      · exact nextHandle_bare _ d
  | delete paragraph =>
    simp only [Effect.apply, Effect.applyDelete]
    split
    · rfl
    · exact nextHandle_removeParagraph d paragraph
  | wrap control first others tag =>
    simp only [Effect.apply, Effect.applyWrap, foldl_erase]
    split <;> rfl
  | setTag control tag =>
    simp only [Effect.apply, Effect.applySetProperty]
    split
    · rfl
    · split <;> rfl
  | setAppearance control appearance =>
    simp only [Effect.apply, Effect.applySetProperty]
    split
    · rfl
    · split <;> rfl
  | _ => rfl

theorem nextHandle_applyAll (isOpen : Bool) (pending : List Effect) (d : Document) :
    (d.applyAll (Host.step isOpen) pending).document.nextHandle = d.nextHandle := by
  induction pending generalizing d with
  | nil => rfl
  | cons e rest ih =>
    have hstep : (Host.step isOpen e d).1.nextHandle = d.nextHandle := by
      unfold Host.step
      split
      · exact nextHandle_apply e d
      · split
        · rfl
        · exact nextHandle_apply e d
    rw [applyAll]
    rcases hrun : Host.step isOpen e d with ⟨next, _ | fault⟩
    · rw [hrun] at hstep
      exact (ih next).trans hstep
    · rw [hrun] at hstep
      exact hstep

end Document

end Redline
