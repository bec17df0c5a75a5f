import Redline.Proofs.Document.Clearing
import Redline.Proofs.Forest.Wrapping

/-!
# Wrapping a range

Paragraphs that stand directly in the body are wrapped in a content control that has been made for
them and takes the place of the first of them.

## Main results

* `Document.apply_wrap` — what wrapping makes of a document.
* `Document.wellFormed_wrapped` — the document stays well formed.
-/

namespace Redline

open Forest

namespace Document

open Effect

variable {d : Document} {h control first : Handle} {others range : List Handle} {e : Element}
  {inside : Forest} {ps : List Paragraph}

theorem WellFormed.dropLoose (hd : d.WellFormed) (h : Handle) : (d.dropLoose h).WellFormed :=
  hd.of_count_le
    (fun x => (Nat.le_add_right _ _).trans (count_handles_dropLoose_add_le d h x)) le_rfl
    fun tree ht => hd.writable tree (trees_dropLoose_subset d h ht)

theorem exists_own_paragraphs {f : Forest} (hl : ∀ h ∈ range, h ∈ f.ownParagraphs) :
    ∃ ps : List Paragraph, ps ⊆ f.own ∧ ps.map (·.handle) = range := by
  induction range with
  | nil => exact ⟨[], List.nil_subset _, rfl⟩
  | cons h rest ih =>
    obtain ⟨hfirst, hrest⟩ := List.forall_mem_cons.1 hl
    rw [ownParagraphs_eq] at hfirst
    obtain ⟨p, hp, rfl⟩ := List.mem_map.1 hfirst
    obtain ⟨ps, hps, rfl⟩ := ih hrest
    exact ⟨p :: ps, List.cons_subset.2 ⟨hp, hps⟩, rfl⟩

theorem filterMap_tree? (hd : d.WellFormed) (hps : ps ⊆ d.paragraphs) :
    (ps.map (·.handle)).filterMap d.tree? = ps.map Paragraph.tree := by
  induction ps with
  | nil => rfl
  | cons p rest ih =>
    rw [List.cons_subset] at hps
    have htree : d.tree? p.handle = some p.tree := by
      simp [tree?, tree?_of_mem_paragraphs hd.nodup_body hps.1]
    rw [List.map_cons, List.filterMap_cons_some htree, ih hps.2, List.map_cons]

theorem foldl_erase (range : List Handle) (d : Document) :
    range.foldl (fun d h => d.mapTrees (·.erase h)) d = d.mapTrees (·.eraseAll range) := by
  induction range generalizing d with
  | nil => simp [mapTrees, eraseAll]
  | cons h rest ih =>
    rw [List.foldl_cons, ih]
    simp [mapTrees, eraseAll, Function.comp_def]

/-- A change that finds nothing to change in the loose parts is made in the body alone. -/
theorem mapTrees_of_loose {change : Forest → Forest} (body : Forest)
    (hl : ∀ part ∈ d.loose, change part.tree = part.tree) :
    ({ d with body } : Document).mapTrees change = { d with body := change body } := by
  have hloose : (d.loose.map fun part => { part with tree := change part.tree }) = d.loose.map id :=
    List.map_congr_left fun part hp => by simp [hl part hp]
  simp [mapTrees, hloose]

section
variable (hd : d.WellFormed) (hnew : ⟨true, .single e inside⟩ ∈ d.loose)
  (he : e.has control = true) (hown : ∀ h ∈ first :: others, h ∈ d.body.ownParagraphs)
include hd hnew he

theorem notMem_body_of_loose : control ∉ d.body.handles := fun hm =>
  hd.notMem_loose hm hnew (by simp [Element.has_iff.1 he])

include hown

omit hd hnew he in
theorem mem_listed_of_own : ∀ h ∈ first :: others, h ∈ d.body.listed := by
  intro h hh
  have hmem := hown h hh
  rw [ownParagraphs_eq] at hmem
  exact ((own_sublist_paragraphs _).map _).subset hmem

/-- The control is put in front of the first paragraph of the range. -/
theorem place_control :
    (d.dropLoose control).place first (.single e inside) .nil =
        (d.dropLoose control).rewriteAt first (fun p => .single e inside ++ p.tree) ∧
      ((d.dropLoose control).rewriteAt first fun p => .single e inside ++ p.tree).WellFormed := by
  have hfirst := mem_listed_of_own hown first List.mem_cons_self
  have hplace : (d.dropLoose control).place first (.single e inside) .nil =
      (d.dropLoose control).rewriteAt first fun p => .single e inside ++ p.tree :=
    place_before_of_listed (hd.dropLoose control) hfirst _
  refine ⟨hplace, ?_⟩
  have hwell := hd.applyInsertBeside control first .before
  rw [applyInsertBeside, hd.standing_eq_placed ((listed_sublist_handles _).subset hfirst),
    hd.newTree_eq hnew he] at hwell
  exact hplace ▸ hwell

/-- A range of paragraphs that stand directly in the body is wrapped in a control that has been made
and not been put in yet. -/
theorem apply_wrap (hother : e.isParagraph = false) (hinside : inside.handles = []) (tag : String)
    (hps : ps ⊆ d.body.own) (hrange : ps.map (·.handle) = lastPlaces (first :: others)) :
    (Effect.wrap control first others tag).apply d =
      ({ d.dropLoose control with
        body := d.body.rewrite (wrapping first (first :: others)
          (.single e (join (ps.map Paragraph.tree)))) }, none) := by
  obtain ⟨hplace, hplaced⟩ := place_control hd hnew he hown
  have hlisted := mem_listed_of_own hown
  have hnodup : (d.body.rewriteAt first fun p => .single e inside ++ p.tree).handles.Nodup :=
    hplaced.nodup_body
  have hcontrolPlaced :
      control ∈ (d.body.rewriteAt first fun p => .single e inside ++ p.tree).handles :=
    mem_handles_rewriteAt (hlisted first List.mem_cons_self) fun p => by
      simp [Element.has_iff.1 he]
  have hloose : ∀ part ∈ (d.dropLoose control).loose,
      part.tree.eraseAll (first :: others) = part.tree ∧ control ∉ part.tree.handles := by
    intro part hp
    refine ⟨eraseAll_of_notMem fun h hh => ?_, hplaced.notMem_loose hcontrolPlaced hp⟩
    exact hplaced.notMem_loose
      ((listed_sublist_handles _).subset (mem_listed_placed (hlisted h hh))) hp
  have hcontent : ((d.body.rewriteAt first fun p => .single e inside ++ p.tree).eraseAll
      (first :: others)).replaceAt control (fun e _ => .single e (join (ps.map Paragraph.tree))) = _ :=
    replaceAt_erased hlisted hnodup hother hinside he (notMem_body_of_loose hd hnew he)
  have houtside := mapTrees_of_loose (d := d.dropLoose control)
    (d.body.rewriteAt first fun p => .single e inside ++ p.tree) fun part hp => (hloose part hp).1
  have hinto := mapTrees_of_loose (d := d.dropLoose control)
    ((d.body.rewriteAt first fun p => .single e inside ++ p.tree).eraseAll (first :: others))
    fun part hp => replaceAt_of_notMem (hloose part hp).2 fun e _ =>
      .single e (join (ps.map Paragraph.tree))
  have hall : ((first :: others).all d.body.ownParagraphs.contains) = true := by
    simpa [List.all_eq_true] using hown
  have hparagraphs : ps ⊆ d.paragraphs := fun p hp => (own_sublist_paragraphs _).subset (hps hp)
  rw [apply, applyWrap, if_pos hall, ← hrange, filterMap_tree? hd hparagraphs,
    hd.newTree_eq hnew he]
  dsimp only
  rw [hplace, foldl_erase, modifyInside]
  simp only [modifyInside_eq_replaceAt]
  rw [show ((d.dropLoose control).rewriteAt first fun p => .single e inside ++ p.tree).mapTrees
    (·.eraseAll (first :: others)) = _ from houtside, hinto, hcontent, done]

theorem wellFormed_wrapped (hother : e.isParagraph = false) (hinside : inside.handles = [])
    (hps : ps ⊆ d.body.own) (hrange : ps.map (·.handle) = lastPlaces (first :: others)) :
    ({ d.dropLoose control with
      body := d.body.rewrite (wrapping first (first :: others)
        (.single e (join (ps.map Paragraph.tree)))) } : Document).WellFormed := by
  obtain ⟨-, hplaced⟩ := place_control hd hnew he hown
  have hlisted := mem_listed_of_own hown
  have hnodup : (d.body.rewriteAt first fun p => .single e inside ++ p.tree).handles.Nodup :=
    hplaced.nodup_body
  have hcontrol := notMem_body_of_loose hd hnew he
  have hparagraphs : ps ⊆ d.body.paragraphs := fun p hp =>
    (own_sublist_paragraphs _).subset (hps hp)
  refine hplaced.of_count_le (fun x => ?_) le_rfl fun tree ht => ?_
  · have := count_handles_wrapping_le (x := x) hlisted hnodup hother hinside he hcontrol hparagraphs
      (hrange ▸ nodup_lastPlaces _) fun h => by rw [hrange, mem_lastPlaces]
    simp only [handles, trees, List.flatMap_cons, List.count_append, body_rewriteAt, loose_rewriteAt]
    exact Nat.add_le_add_right this _
  · rcases List.mem_cons.1 ht with rfl | ht
    · have hbody := hplaced.writable _ List.mem_cons_self
      rw [← replaceAt_erased hlisted hnodup hother hinside he hcontrol,
        eraseAll_eq_rewrite hnodup fun h hh => .inl (mem_listed_placed (hlisted h hh))]
      refine OfKind.replaceAt ?_ fun e _ hread => ?_
      · refine ofKind_rewrite _ hbody fun p _ hp => ?_
        split
        · exact ofKind_nil
        · exact ofKind_tree.2 hp
      · refine ofKind_single.2 ⟨(ofKind_single.1 hread).1, ofKind_join fun tree ht => ?_⟩
        obtain ⟨p, hp, rfl⟩ := List.mem_map.1 ht
        exact ofKind_tree.2 ((hd.writable _ List.mem_cons_self).content (hparagraphs hp))
    · exact hplaced.writable _ (List.mem_cons_of_mem _ ht)

end

end Document

end Redline
