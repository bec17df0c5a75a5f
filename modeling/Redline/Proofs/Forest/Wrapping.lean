import Redline.Proofs.Document.Edits
import Redline.Proofs.Forest.Guarding

/-!
# Ranges that move into one place

When a range is wrapped, its paragraphs leave their places and stand inside one element, which takes
the place of the first of them.  As long as they stood directly in the forest, no paragraph is lost
and no cell is touched.

## Main definitions

* `Forest.eraseAll` — a forest without the elements with the given handles.
* `wrapping` — what a wrap makes of each paragraph.
-/

namespace Redline

namespace Forest

variable {f g : Forest} {h k x : Handle} {p : Paragraph} {r : Paragraph → Forest}
  {into : Element → Forest → Forest} {range : List Handle}

theorem replaceAt_append_left (hg : h ∉ g.handles) :
    (f ++ g).replaceAt h into = f.replaceAt h into ++ g := by
  induction f with
  | nil => exact replaceAt_of_notMem hg into
  | cons e inside rest _ ih =>
    rw [cons_append, replaceAt, replaceAt]
    split
    · rw [append_assoc]
    · rw [ih]
      rfl

theorem replaceAt_append_right (hf : h ∉ f.handles) :
    (f ++ g).replaceAt h into = f ++ g.replaceAt h into := by
  induction f with
  | nil => rfl
  | cons e inside rest _ ih =>
    simp only [handles_cons, List.mem_append, Option.mem_toList, not_or] at hf
    have he : ¬ e.has h = true := by simpa [Element.has_iff] using hf.1
    rw [cons_append, replaceAt, if_neg he, replaceAt_of_notMem hf.2.1, ih hf.2.2, cons_append]

/-- A change at a handle that rewriting has put in happens where it was put in. -/
theorem replaceAt_rewrite (hk : k ∉ f.handles) (hn : (f.rewrite r).handles.Nodup) :
    (f.rewrite r).replaceAt k into = f.rewrite fun p => (r p).replaceAt k into := by
  induction f using paragraphInduction with
  | nil => rfl
  | paragraph p rest _ ih =>
    rw [rewrite_cons_paragraph, handles_append, List.nodup_append] at hn
    have hrest : k ∉ rest.handles := fun hm => hk (by simp [hm])
    have ih := ih hrest hn.2.1
    rw [rewrite_cons_paragraph, rewrite_cons_paragraph]
    by_cases hm : k ∈ (r p).handles
    · have hnone : k ∉ (rest.rewrite r).handles := fun hm' => hn.2.2 k hm k hm' rfl
      rw [replaceAt_append_left hnone, ← ih, replaceAt_of_notMem hnone]
    · rw [replaceAt_append_right hm, ih, replaceAt_of_notMem hm]
  | other e inside rest he ihi ihr =>
    rw [rewrite_cons_other _ _ he, handles_cons, List.nodup_append, List.nodup_append] at hn
    simp only [handles_cons, List.mem_append, Option.mem_toList, not_or] at hk
    have hne : ¬ e.has k = true := by simpa [Element.has_iff] using hk.1
    rw [rewrite_cons_other _ _ he, rewrite_cons_other _ _ he, replaceAt, if_neg hne,
      ihi hk.2.1 hn.2.1.1, ihr hk.2.2 hn.2.1.2.1]

/-! ## Taking a range out -/

theorem erase_eq_rewriteAt (hn : f.handles.Nodup) (hl : h ∈ f.listed) :
    f.erase h = f.rewriteAt h fun _ => .nil := by
  rw [erase_eq_replaceAt, replaceAt_eq_rewriteAt (plain_of_mem_listed hn hl)]

theorem nodup_handles_erase (hn : f.handles.Nodup) (h : Handle) : (f.erase h).handles.Nodup :=
  List.nodup_iff_count.2 fun x =>
    (count_handles_erase_le f h x).trans (List.nodup_iff_count.1 hn x)

theorem notMem_handles_erase (hn : f.handles.Nodup) (hl : h ∈ f.listed) :
    h ∉ (f.erase h).handles := by
  obtain ⟨p, hp, rfl⟩ := List.mem_map.1 hl
  have hle := count_handles_erase_add_le (x := p.handle) (tree?_of_mem_paragraphs hn hp)
  have hone := List.nodup_iff_count.1 hn p.handle
  have htree : 1 ≤ p.tree.handles.count p.handle := by simp
  exact List.count_eq_zero.1 (by omega)

theorem mem_paragraphs_erase (hn : f.handles.Nodup) (hl : h ∈ f.listed) (hp : p ∈ f.paragraphs)
    (hne : p.handle ≠ h) : p ∈ (f.erase h).paragraphs := by
  rw [erase_eq_rewriteAt hn hl, paragraphs_rewriteAt, List.mem_flatMap]
  exact ⟨p, hp, by simp [hne]⟩

/-- Takes the elements with the given handles out. -/
def eraseAll (range : List Handle) (f : Forest) : Forest := range.foldl (fun f h => f.erase h) f

/-- A handle may occur twice in the range, and then the second time nothing happens. -/
theorem eraseAll_eq_rewrite (hn : f.handles.Nodup)
    (hl : ∀ h ∈ range, h ∈ f.listed ∨ h ∉ f.handles) :
    f.eraseAll range = f.rewrite fun p => if p.handle ∈ range then .nil else p.tree := by
  induction range generalizing f with
  | nil => simp [eraseAll, rewrite_self]
  | cons h rest ih =>
    obtain ⟨hfirst, hrest⟩ := List.forall_mem_cons.1 hl
    rw [eraseAll, List.foldl_cons]
    rcases hfirst with hlisted | hnone
    · have hrest : ∀ k ∈ rest, k ∈ (f.erase h).listed ∨ k ∉ (f.erase h).handles := by
        intro k hk
        by_cases hkh : k = h
        · rw [hkh]
          exact .inr (notMem_handles_erase hn hlisted)
        · rcases hrest k hk with hk | hk
          · obtain ⟨p, hp, rfl⟩ := List.mem_map.1 hk
            exact .inl (List.mem_map_of_mem (mem_paragraphs_erase hn hlisted hp hkh))
          · refine .inr fun hm => hk ?_
            exact List.count_pos_iff.1
              ((List.count_pos_iff.2 hm).trans_le (count_handles_erase_le f h k))
      have := ih (nodup_handles_erase hn h) hrest
      rw [eraseAll] at this
      rw [this, erase_eq_rewriteAt hn hlisted, rewriteAt, rewrite_rewrite]
      refine rewrite_congr fun p _ => ?_
      by_cases hp : p.handle = h <;> simp [hp]
    · have hsame : f.erase h = f := by rw [erase_eq_replaceAt, replaceAt_of_notMem hnone]
      have := ih hn hrest
      rw [eraseAll] at this
      rw [hsame, this]
      refine rewrite_congr fun p hp => ?_
      have hp : p.handle ≠ h := fun he => hnone (he ▸ mem_handles_of_mem_paragraphs hp)
      simp [hp]

theorem nodup_handles_eraseAll (hn : f.handles.Nodup) (range : List Handle) :
    (f.eraseAll range).handles.Nodup := by
  induction range generalizing f with
  | nil => exact hn
  | cons h rest ih => exact ih (nodup_handles_erase hn h)

theorem eraseAll_of_notMem (hl : ∀ h ∈ range, h ∉ f.handles) : f.eraseAll range = f := by
  induction range with
  | nil => rfl
  | cons h rest ih =>
    obtain ⟨hfirst, hrest⟩ := List.forall_mem_cons.1 hl
    rw [eraseAll, List.foldl_cons, erase_eq_replaceAt, replaceAt_of_notMem hfirst]
    exact ih hrest

/-- What is taken out and what is left hold no more handles than before. -/
theorem count_handles_eraseAll_add_le {ps : List Paragraph} (hn : f.handles.Nodup)
    (hps : ps ⊆ f.paragraphs) (hdistinct : (ps.map (·.handle)).Nodup) :
    (f.eraseAll (ps.map (·.handle))).handles.count x +
      (join (ps.map Paragraph.tree)).handles.count x ≤ f.handles.count x := by
  induction ps generalizing f with
  | nil => simp [eraseAll, join]
  | cons p rest ih =>
    rw [List.cons_subset] at hps
    rw [List.map_cons, List.nodup_cons] at hdistinct
    have hlisted : p.handle ∈ f.listed := List.mem_map_of_mem hps.1
    have hrest : rest ⊆ (f.erase p.handle).paragraphs := fun q hq =>
      mem_paragraphs_erase hn hlisted (hps.2 hq) fun he =>
        hdistinct.1 (he ▸ List.mem_map_of_mem hq)
    have hfirst := count_handles_erase_add_le (x := x) (tree?_of_mem_paragraphs hn hps.1)
    have hall := ih (nodup_handles_erase hn p.handle) hrest hdistinct.2
    simp only [eraseAll, List.map_cons, List.foldl_cons, join_cons, handles_append,
      List.count_append] at hall ⊢
    omega

/-! ## Paragraphs outside of cells -/

theorem paragraphs_sublist_of_mem_cellInsides {inside : Forest} (hi : inside ∈ f.cellInsides) :
    inside.paragraphs.Sublist f.paragraphs := by
  induction f using paragraphInduction with
  | nil => simp at hi
  | paragraph p rest _ ih => exact (ih hi).trans (List.sublist_cons_self _ _)
  | other e within rest he ihi ihr =>
    rw [cellInsides_cons_other _ _ he, List.mem_append, List.mem_append] at hi
    rw [paragraphs_cons_other _ _ he]
    rcases hi with hi | hi | hi
    · have hself : inside = within := by
        by_cases hc : e = .cell <;> simp_all
      exact hself ▸ List.sublist_append_left _ _
    · exact (ihi hi).trans (List.sublist_append_left _ _)
    · exact (ihr hi).trans (List.sublist_append_right _ _)

/-- A paragraph that stands directly in a forest stands in none of its cells. -/
theorem disjoint_own_cellInsides (hn : f.paragraphs.Nodup) (hp : p ∈ f.own) {inside : Forest}
    (hi : inside ∈ f.cellInsides) : p ∉ inside.paragraphs := by
  intro hpi
  induction f using paragraphInduction with
  | nil => simp at hp
  | paragraph q rest _ ih =>
    rw [paragraphs_cons_paragraph, List.nodup_cons] at hn
    rcases List.mem_cons.1 hp with rfl | hp
    · exact hn.1 ((paragraphs_sublist_of_mem_cellInsides (f := rest) hi).subset hpi)
    · exact ih hn.2 hp hi
  | other e within rest he _ ih =>
    rw [paragraphs_cons_other _ _ he, List.nodup_append] at hn
    rw [own_cons_other _ _ he] at hp
    rw [cellInsides_cons_other _ _ he, List.mem_append, List.mem_append] at hi
    have hpr : p ∈ rest.paragraphs := (own_sublist_paragraphs _).subset hp
    rcases hi with hi | hi | hi
    · have hself : inside = within := by by_cases hc : e = .cell <;> simp_all
      exact hn.2.2 p (hself ▸ hpi) p hpr rfl
    · exact hn.2.2 p ((paragraphs_sublist_of_mem_cellInsides hi).subset hpi) p hpr rfl
    · exact ih hn.2.1 hp hi

/-! ## Rewritten forests -/

theorem mem_handles_of_mem_tree (hp : p ∈ f.paragraphs) (hx : x ∈ p.tree.handles) :
    x ∈ f.handles :=
  (flatMap_handles_sublist f).subset (List.mem_flatMap.2 ⟨p, hp, by simpa using hx⟩)

/-- Where no paragraph stands nothing is rewritten. -/
theorem rewrite_of_paragraphs_eq (hf : f.paragraphs = []) : f.rewrite r = f := by
  rw [rewrite_congr (s := Paragraph.tree), rewrite_self]
  simp [hf]

theorem paragraphs_single_eq {e : Element} {inside : Forest} (he : e.isParagraph = false)
    (hi : inside.handles = []) : (single e inside).paragraphs = [] := by
  have hlisted : inside.listed = [] := List.sublist_nil.1 (hi ▸ listed_sublist_handles inside)
  rw [single, paragraphs_cons_other _ _ he, List.map_eq_nil_iff.1 hlisted, paragraphs_nil,
    List.nil_append]

theorem ofKind_join {kind : Char → Bool} {forests : List Forest}
    (hf : ∀ f ∈ forests, f.OfKind kind) : (join forests).OfKind kind := by
  induction forests with
  | nil => exact ofKind_nil
  | cons f rest ih =>
    rw [List.forall_mem_cons] at hf
    exact ofKind_append.2 ⟨hf.1, ih hf.2⟩

theorem mem_handles_rewriteAt (hl : h ∈ f.listed) (hr : ∀ p, x ∈ (r p).handles) :
    x ∈ (f.rewriteAt h r).handles := by
  rw [rewriteAt]
  induction f using paragraphInduction with
  | nil => simp at hl
  | paragraph p rest _ ih =>
    rw [listed_cons_paragraph, List.mem_cons] at hl
    rw [rewrite_cons_paragraph, handles_append, List.mem_append]
    by_cases hp : p.handle = h
    · exact .inl (by simpa [hp] using hr p)
    · exact .inr (ih (hl.resolve_left fun he => hp he.symm))
  | other e inside rest he ihi ihr =>
    rw [listed_cons_other _ _ he, List.mem_append] at hl
    rw [rewrite_cons_other _ _ he, handles_cons, List.mem_append, List.mem_append]
    exact .inr (hl.imp ihi ihr)

end Forest

open Forest

/-- What stands in the place of each paragraph when a range is wrapped: a control in front of where
the first of its paragraphs was, and none of them beside it. -/
def wrapping (first : Handle) (range : List Handle) (wrapped : Forest) (p : Paragraph) : Forest :=
  (if p.handle = first then wrapped else .nil) ++ if p.handle ∈ range then .nil else p.tree

namespace Forest

variable {f inside content : Forest} {h control first x : Handle} {range : List Handle} {e : Element}
  {p : Paragraph} {ps : List Paragraph}

theorem notMem_wrapping {wrapped : Forest} (hp : p ∈ f.paragraphs) (hne : p.handle ≠ first)
    (hn : h ∉ f.handles) : h ∉ (wrapping first range wrapped p).handles := by
  have htree : h ∉ p.tree.handles := fun hm => hn (mem_handles_of_mem_tree hp hm)
  rw [wrapping, if_neg hne, nil_append]
  split
  · simp
  · exact htree

theorem mem_listed_placed (hh : h ∈ f.listed) :
    h ∈ (f.rewriteAt first fun p => .single e inside ++ p.tree).listed := by
  obtain ⟨p, hp, rfl⟩ := List.mem_map.1 hh
  rw [Forest.rewriteAt, listed_rewrite]
  refine List.mem_flatMap.2 ⟨p, hp, ?_⟩
  split <;> simp

section
variable (hl : ∀ h ∈ range, h ∈ f.listed)
  (hn : (f.rewriteAt first fun p => .single e inside ++ p.tree).handles.Nodup)
include hl hn

/-- The range goes out of a forest in which the control has been put. -/
theorem eraseAll_placed (hother : e.isParagraph = false) (hinside : inside.handles = []) :
    (f.rewriteAt first fun p => .single e inside ++ p.tree).eraseAll range =
      f.rewrite (wrapping first range (.single e inside)) := by
  rw [eraseAll_eq_rewrite hn fun h hh => .inl (mem_listed_placed (hl h hh)), Forest.rewriteAt,
    rewrite_rewrite]
  refine rewrite_congr fun p _ => ?_
  by_cases hp : p.handle = first
  · simp [wrapping, hp, rewrite_of_paragraphs_eq (paragraphs_single_eq hother hinside)]
  · simp [wrapping, hp]

/-- What is wrapped goes into the control. -/
theorem replaceAt_erased (hother : e.isParagraph = false) (hinside : inside.handles = [])
    (he : e.has control = true) (hcontrol : control ∉ f.handles) :
    ((f.rewriteAt first fun p => .single e inside ++ p.tree).eraseAll range).replaceAt control
      (fun e _ => .single e content) = f.rewrite (wrapping first range (.single e content)) := by
  have hnodup := nodup_handles_eraseAll hn range
  rw [eraseAll_placed hl hn hother hinside] at hnodup ⊢
  rw [replaceAt_rewrite hcontrol hnodup]
  refine rewrite_congr fun p hp => ?_
  by_cases hpf : p.handle = first
  · simp [wrapping, hpf, single, replaceAt, he]
  · rw [replaceAt_of_notMem (notMem_wrapping hp hpf hcontrol), wrapping, wrapping, if_neg hpf,
      if_neg hpf]

/-- A range that is moved holds no more handles than before. -/
theorem count_handles_wrapping_le (hother : e.isParagraph = false) (hinside : inside.handles = [])
    (he : e.has control = true) (hcontrol : control ∉ f.handles) (hps : ps ⊆ f.paragraphs)
    (hdistinct : (ps.map (·.handle)).Nodup) (hrange : ∀ h, h ∈ range ↔ h ∈ ps.map (·.handle)) :
    (f.rewrite (wrapping first range
      (.single e (join (ps.map Paragraph.tree))))).handles.count x ≤
        (f.rewriteAt first fun p => .single e inside ++ p.tree).handles.count x := by
  have hput : ∀ p ∈ ps, p ∈ (f.rewriteAt first fun p => .single e inside ++ p.tree).paragraphs := by
    intro p hp
    rw [paragraphs_rewriteAt, List.mem_flatMap]
    refine ⟨p, hps hp, ?_⟩
    split <;> simp
  have hrange : (f.rewriteAt first fun p => .single e inside ++ p.tree).eraseAll range =
      (f.rewriteAt first fun p => .single e inside ++ p.tree).eraseAll (ps.map (·.handle)) := by
    have hlisted : ∀ h ∈ range,
        h ∈ (f.rewriteAt first fun p => .single e inside ++ p.tree).listed := fun h hh =>
      mem_listed_placed (hl h hh)
    rw [eraseAll_eq_rewrite hn fun h hh => .inl (hlisted h hh),
      eraseAll_eq_rewrite hn fun h hh => .inl (hlisted h ((hrange h).2 hh))]
    simp only [hrange]
  have hout := count_handles_eraseAll_add_le (x := x) hn hput hdistinct
  rw [← hrange] at hout
  have hin := count_handles_replaceAt_le (h := control) (x := x)
    (f := (f.rewriteAt first fun p => .single e inside ++ p.tree).eraseAll range)
    (g := fun e _ => .single e (join (ps.map Paragraph.tree)))
    (n := (join (ps.map Paragraph.tree)).handles.count x) fun e inside _ => by
      simp only [handles_single, List.count_append]
      omega
  rw [replaceAt_erased hl hn hother hinside he hcontrol] at hin
  have hone := List.nodup_iff_count.1 (nodup_handles_eraseAll hn range) control
  calc (f.rewrite (wrapping first range (.single e (join (ps.map Paragraph.tree))))).handles.count x
      ≤ ((f.rewriteAt first fun p => .single e inside ++ p.tree).eraseAll range).handles.count x +
          1 * (join (ps.map Paragraph.tree)).handles.count x :=
        hin.trans (Nat.add_le_add_left (Nat.mul_le_mul_right _ hone) _)
    _ ≤ (f.rewriteAt first fun p => .single e inside ++ p.tree).handles.count x := by
        rw [Nat.one_mul]
        exact hout

end

/-! ## What a wrap leaves -/

section
variable {register : List (Handle × Role)} {gone : List Handle}
  (hother : e.isParagraph = false) (hps : ps ⊆ f.own)
include hother hps

omit hps in
theorem paragraphs_wrapped : (single e (join (ps.map Paragraph.tree))).paragraphs = ps := by
  rw [single, paragraphs_cons_other _ _ hother, paragraphs_join_tree, paragraphs_nil,
    List.append_nil]

theorem roles_wrapping (hf : f.roles ⊆ register) (hs : (single e inside).roles ⊆ register) :
    (f.rewrite (wrapping first range (.single e (join (ps.map Paragraph.tree))))).roles ⊆
      register := by
  have hjoin : ∀ l : List Paragraph, l ⊆ f.own →
      (join (l.map Paragraph.tree)).roles ⊆ register := by
    intro l hl
    induction l with
    | nil => exact List.nil_subset _
    | cons p rest ih =>
      rw [List.cons_subset] at hl
      rw [List.map_cons, join_cons, roles_append, List.append_subset]
      have hp := roles_tree_subset ((own_sublist_paragraphs f).subset hl.1)
      exact ⟨fun x hx => hf (hp hx), ih hl.2⟩
  refine roles_rewrite hf fun p _ hp => ?_
  rw [wrapping, roles_append, List.append_subset]
  constructor
  · split
    · rw [single, roles_cons_other _ _ hother, List.append_subset] at hs ⊢
      exact ⟨hs.1, by simpa using hjoin ps hps⟩
    · exact List.nil_subset _
  · split
    · exact List.nil_subset _
    · exact hp

/-- No cell is touched, and no paragraph lost. -/
theorem stays_wrapping (hn : f.listed.Nodup) (hcell : e ≠ .cell) (hfirst : first ∈ range)
    (hrange : ∀ h, h ∈ range ↔ h ∈ ps.map (·.handle)) :
    f.Stays gone (f.rewrite (wrapping first range (.single e (join (ps.map Paragraph.tree))))) := by
  have hpart : ∀ p ∈ f.paragraphs, p.handle ∈ range → p ∈ f.own := by
    intro p hp hh
    obtain ⟨q, hq, he⟩ := List.mem_map.1 ((hrange p.handle).1 hh)
    have hsame := List.inj_on_of_nodup_map hn ((own_sublist_paragraphs f).subset (hps hq)) hp he
    exact hsame ▸ hps hq
  have hwrapped : (single e (join (ps.map Paragraph.tree))).cellInsides = [] := by
    have hflat : (join (ps.map Paragraph.tree)).cellInsides = [] := by
      rw [← List.map_eq_nil_iff, ← cells_eq_map_own]
      exact (flat_join_tree ps).cells
    rw [single, cellInsides_cons_other _ _ hother, if_neg hcell, hflat]
    rfl
  refine stays_rewrite (fun p => ?_) (fun inside hi => ?_) fun h hh => ?_
  · rw [wrapping, cellInsides_append]
    split <;> split <;> simp [hwrapped]
  · -- What stands in a cell does not stand directly in the forest.
    rw [rewrite_congr (s := Paragraph.tree), rewrite_self]
    intro p hp
    have hpf := (paragraphs_sublist_of_mem_cellInsides hi).subset hp
    have hout : p.handle ∉ range := fun hh =>
      disjoint_own_cellInsides (List.Nodup.of_map _ hn) (hpart p hpf hh) hi hp
    have hne : p.handle ≠ first := fun he => hout (he ▸ hfirst)
    simp [wrapping, hout, hne]
  · rw [listed_rewrite, List.mem_flatMap]
    obtain ⟨p, hp, rfl⟩ := List.mem_map.1 hh
    by_cases hin : p.handle ∈ range
    · obtain ⟨q, hq, he⟩ := List.mem_map.1 ((hrange first).1 hfirst)
      refine ⟨q, (own_sublist_paragraphs f).subset (hps hq), ?_⟩
      rw [wrapping, if_pos he, listed_append, List.mem_append, Forest.listed,
        paragraphs_wrapped hother]
      exact .inl ((hrange p.handle).1 hin)
    · exact ⟨p, hp, by simp [wrapping, hin]⟩

theorem keepsBoxes_wrapping (touched : List Handle) :
    f.KeepsBoxes touched
      (f.rewrite (wrapping first range (.single e (join (ps.map Paragraph.tree))))) := by
  intro q hq
  suffices hmem : q ∈ f.paragraphs from KeepsBoxes.refl touched f q hmem
  rw [paragraphs_rewrite, List.mem_flatMap] at hq
  obtain ⟨p, hp, hq⟩ := hq
  rw [wrapping, paragraphs_append, List.mem_append] at hq
  rcases hq with hq | hq
  · split at hq
    · rw [paragraphs_wrapped hother] at hq
      exact (own_sublist_paragraphs f).subset (hps hq)
    · simp at hq
  · split at hq
    · simp at hq
    · obtain rfl : q = p := by simpa using hq
      exact hp

end

end Forest

end Redline
