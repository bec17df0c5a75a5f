import Mathlib.Data.List.Flatten
import Redline.Proofs.Forest.Handles

/-!
# Rewriting the paragraphs of a forest

Nearly every edit of a document replaces paragraphs, where they stand, by other paragraphs and marks.
Such edits are described by what each paragraph becomes, and they compose by composing these
descriptions.

## Main definitions

* `Paragraph.tree` — a paragraph as a forest.
* `Forest.rewrite` — replaces every paragraph by a forest.
* `Forest.Plain` — a handle that stands at most once, and then on a paragraph.
-/

namespace Redline

/-- Whether an element is a paragraph. -/
def Element.isParagraph : Element → Bool
  | .paragraph _ _ _ => true
  | _ => false

namespace Paragraph

/-- A paragraph without its content. -/
def element (p : Paragraph) : Element := .paragraph p.handle p.style p.alignment

/-- A paragraph as a forest of one element. -/
def tree (p : Paragraph) : Forest := .single p.element p.content

@[simp] theorem handle?_element (p : Paragraph) : p.element.handle? = some p.handle := rfl

@[simp] theorem handles_tree (p : Paragraph) : p.tree.handles = p.handle :: p.content.handles := by
  simp [tree]

end Paragraph

namespace Forest

/-- Replaces every paragraph outside of text boxes by a forest. -/
def rewrite (r : Paragraph → Forest) : Forest → Forest
  | .nil => .nil
  | .cons (.paragraph h style alignment) inside rest =>
    r ⟨h, style, alignment, inside⟩ ++ rest.rewrite r
  | .cons e inside rest => .cons e (inside.rewrite r) (rest.rewrite r)

/-- The handles of the paragraphs outside of text boxes. -/
def listed (f : Forest) : List Handle := f.paragraphs.map (·.handle)

/-! ## Paragraphs and other elements -/

/-- Induction over a forest that tells paragraphs from all other elements. -/
@[elab_as_elim]
theorem paragraphInduction {motive : Forest → Prop} (f : Forest) (nil : motive .nil)
    (paragraph : ∀ (p : Paragraph) (rest : Forest), motive p.content → motive rest →
      motive (.cons p.element p.content rest))
    (other : ∀ (e : Element) (inside rest : Forest), e.isParagraph = false → motive inside →
      motive rest → motive (.cons e inside rest)) : motive f := by
  induction f with
  | nil => exact nil
  | cons e inside rest ihi ihr =>
    cases e with
    | paragraph h style alignment => exact paragraph ⟨h, style, alignment, inside⟩ rest ihi ihr
    | _ => exact other _ inside rest rfl ihi ihr

section
variable {r : Paragraph → Forest} {e : Element} (inside rest : Forest)

@[simp] theorem rewrite_nil : Forest.nil.rewrite r = .nil := rfl

@[simp] theorem rewrite_cons_paragraph (p : Paragraph) :
    (Forest.cons p.element p.content rest).rewrite r = r p ++ rest.rewrite r := rfl

theorem rewrite_cons_other (he : e.isParagraph = false) :
    (Forest.cons e inside rest).rewrite r =
      .cons e (inside.rewrite r) (rest.rewrite r) := by
  cases e <;> simp_all [rewrite, Element.isParagraph]

@[simp] theorem paragraphs_nil : Forest.nil.paragraphs = [] := rfl

@[simp] theorem paragraphs_cons_paragraph (p : Paragraph) :
    (Forest.cons p.element p.content rest).paragraphs = p :: rest.paragraphs := rfl

theorem paragraphs_cons_other (he : e.isParagraph = false) :
    (Forest.cons e inside rest).paragraphs = inside.paragraphs ++ rest.paragraphs := by
  cases e <;> simp_all [paragraphs, Element.isParagraph]

@[simp] theorem listed_nil : Forest.nil.listed = [] := rfl

@[simp] theorem listed_cons_paragraph (p : Paragraph) :
    (Forest.cons p.element p.content rest).listed = p.handle :: rest.listed := rfl

theorem listed_cons_other (he : e.isParagraph = false) :
    (Forest.cons e inside rest).listed = inside.listed ++ rest.listed := by
  simp [listed, paragraphs_cons_other inside rest he]

end

@[simp] theorem paragraphs_tree (p : Paragraph) : p.tree.paragraphs = [p] := rfl

@[simp] theorem listed_tree (p : Paragraph) : p.tree.listed = [p.handle] := rfl

@[simp] theorem listed_append (f g : Forest) : (f ++ g).listed = f.listed ++ g.listed := by
  simp [listed]

/-! ## Laws of rewriting -/

variable {r s : Paragraph → Forest} {f : Forest}

@[simp] theorem rewrite_append (f g : Forest) :
    (f ++ g).rewrite r = f.rewrite r ++ g.rewrite r := by
  induction f using paragraphInduction with
  | nil => rfl
  | paragraph p rest _ ih => simp [ih, append_assoc]
  | other e inside rest he _ ih => simp [rewrite_cons_other _ _ he, ih]

@[simp] theorem rewrite_tree (p : Paragraph) : p.tree.rewrite r = r p := by
  simp [Paragraph.tree, single]

/-- Rewriting each paragraph into itself changes nothing. -/
theorem rewrite_self (f : Forest) : f.rewrite Paragraph.tree = f := by
  induction f using paragraphInduction with
  | nil => rfl
  | paragraph p rest _ ih => simp [ih, Paragraph.tree, single]
  | other e inside rest he ihi ihr => rw [rewrite_cons_other _ _ he, ihi, ihr]

theorem rewrite_congr (h : ∀ p ∈ f.paragraphs, r p = s p) :
    f.rewrite r = f.rewrite s := by
  induction f using paragraphInduction with
  | nil => rfl
  | paragraph p rest _ ih => simp_all
  | other e inside rest he ihi ihr =>
    rw [paragraphs_cons_other _ _ he] at h
    rw [rewrite_cons_other _ _ he, rewrite_cons_other _ _ he,
      ihi fun p hp => h p (List.mem_append_left _ hp),
      ihr fun p hp => h p (List.mem_append_right _ hp)]

/-- Rewriting twice is rewriting once. -/
theorem rewrite_rewrite (f : Forest) :
    (f.rewrite r).rewrite s = f.rewrite fun p => (r p).rewrite s := by
  induction f using paragraphInduction with
  | nil => rfl
  | paragraph p rest _ ih => simp [ih]
  | other e inside rest he ihi ihr => simp [rewrite_cons_other _ _ he, ihi, ihr]

theorem paragraphs_rewrite (f : Forest) :
    (f.rewrite r).paragraphs = f.paragraphs.flatMap fun p => (r p).paragraphs := by
  induction f using paragraphInduction with
  | nil => rfl
  | paragraph p rest _ ih => simp [ih]
  | other e inside rest he ihi ihr =>
    simp [rewrite_cons_other _ _ he, paragraphs_cons_other _ _ he, ihi, ihr]

theorem listed_rewrite (f : Forest) :
    (f.rewrite r).listed = f.paragraphs.flatMap fun p => (r p).listed := by
  simp [listed, paragraphs_rewrite, List.map_flatMap]

/-! ## Paragraphs in a row -/

theorem tree_append (p : Paragraph) (f : Forest) :
    p.tree ++ f = .cons p.element p.content f := by
  simp [Paragraph.tree, single]

theorem join_cons (f : Forest) (rest : List Forest) : join (f :: rest) = f ++ join rest := rfl

theorem paragraphs_join_tree (news : List Paragraph) :
    (join (news.map Paragraph.tree)).paragraphs = news := by
  induction news with
  | nil => rfl
  | cons q rest ih => simp [join_cons, ih]

theorem listed_join_tree (news : List Paragraph) :
    (join (news.map Paragraph.tree)).listed = news.map (·.handle) := by
  rw [listed, paragraphs_join_tree]

theorem rewrite_join_tree (news : List Paragraph) :
    (join (news.map Paragraph.tree)).rewrite r = join (news.map r) := by
  induction news with
  | nil => rfl
  | cons q rest ih => simp [join_cons, ih]

/-! ## Handles of paragraphs -/

/-- The paragraphs with their contents account for handles of the forest, each for its own. -/
theorem flatMap_handles_sublist (f : Forest) :
    (f.paragraphs.flatMap fun p => p.handle :: p.content.handles).Sublist f.handles := by
  induction f using paragraphInduction with
  | nil => simp
  | paragraph p rest _ ih => simpa using ih
  | other e inside rest he ihi ihr =>
    rw [paragraphs_cons_other _ _ he, List.flatMap_append, handles_cons]
    exact (ihi.append ihr).trans (List.sublist_append_right _ _)

theorem listed_sublist_handles (f : Forest) : f.listed.Sublist f.handles := by
  refine List.Sublist.trans ?_ (flatMap_handles_sublist f)
  rw [listed, List.map_eq_flatMap]
  exact List.Sublist.flatMap_right _ fun p _ => by simp

theorem count_listed_le (f : Forest) (h : Handle) : f.listed.count h ≤ f.handles.count h :=
  (listed_sublist_handles f).count_le h

theorem mem_handles_of_mem_paragraphs {p : Paragraph} (hp : p ∈ f.paragraphs) :
    p.handle ∈ f.handles :=
  (listed_sublist_handles f).subset (List.mem_map_of_mem hp)

theorem tree?_of_mem_paragraphs {p : Paragraph} (hn : f.handles.Nodup) (hp : p ∈ f.paragraphs) :
    f.tree? p.handle = some p.tree := by
  induction f using paragraphInduction with
  | nil => simp at hp
  | paragraph q rest _ ih =>
    rw [handles_cons, Paragraph.handle?_element, Option.toList_some, List.singleton_append,
      List.nodup_cons, List.mem_append, List.nodup_append] at hn
    rcases List.mem_cons.1 hp with rfl | hp
    · simp [tree?, Element.has, Paragraph.tree]
    · have hm := mem_handles_of_mem_paragraphs hp
      have hq : q.handle ≠ p.handle := fun he => hn.1 (Or.inr (he ▸ hm))
      have hi : p.handle ∉ q.content.handles := fun hc => hn.2.2.2 _ hc _ hm rfl
      simp [tree?, Element.has, hq, tree?_eq_none_iff.2 hi, ih hn.2.2.1 hp]
  | other e inside rest he ihi ihr =>
    rw [handles_cons, List.nodup_append, List.nodup_append] at hn
    rw [paragraphs_cons_other _ _ he, List.mem_append] at hp
    have hne : ¬ e.has p.handle = true := by
      intro hh
      refine hn.2.2 p.handle (by simp [Element.has_iff.1 hh]) p.handle ?_ rfl
      exact List.mem_append.2 (hp.imp mem_handles_of_mem_paragraphs mem_handles_of_mem_paragraphs)
    rcases hp with hp | hp
    · simp [tree?, hne, ihi hn.2.1.1 hp]
    · have hi : p.handle ∉ inside.handles := fun hc =>
        hn.2.1.2.2 _ hc _ (mem_handles_of_mem_paragraphs hp) rfl
      simp [tree?, hne, tree?_eq_none_iff.2 hi, ihr hn.2.1.2.1 hp]

/-! ## Edits at a paragraph -/

/-- The handle stands at most once, and then on a paragraph outside of text boxes. -/
structure Plain (h : Handle) (f : Forest) : Prop where
  once : f.handles.count h ≤ 1
  onParagraph : f.handles.count h ≤ f.listed.count h

theorem plain_of_mem_listed {h : Handle} (hn : f.handles.Nodup) (hl : h ∈ f.listed) :
    f.Plain h where
  once := List.nodup_iff_count.1 hn h
  onParagraph := (List.nodup_iff_count.1 hn h).trans (List.count_pos_iff.2 hl)

/-- Only the paragraph with the given handle is rewritten. -/
def rewriteAt (h : Handle) (r : Paragraph → Forest) (f : Forest) : Forest :=
  f.rewrite fun p => if p.handle = h then r p else p.tree

theorem rewriteAt_of_notMem {h : Handle} (hf : h ∉ f.listed) : f.rewriteAt h r = f := by
  rw [rewriteAt, rewrite_congr (s := Paragraph.tree), rewrite_self]
  intro p hp
  have hne : p.handle ≠ h := fun he => hf (he ▸ List.mem_map_of_mem hp)
  simp [hne]

theorem replaceAt_eq_rewriteAt {h : Handle} (hp : f.Plain h)
    (change : Element → Forest → Forest) :
    f.replaceAt h change = f.rewriteAt h fun p => change p.element p.content := by
  obtain ⟨once, onParagraph⟩ := hp
  induction f using paragraphInduction with
  | nil => rfl
  | paragraph p rest _ ih =>
    have hl := count_listed_le rest h
    simp only [handles_cons, Paragraph.handle?_element, Option.toList_some, List.count_append,
      List.count_cons, List.count_nil, listed_cons_paragraph, beq_iff_eq] at once onParagraph
    by_cases hk : p.handle = h
    · simp only [hk, if_true] at once
      have hr : h ∉ rest.listed := List.count_eq_zero.1 (by omega)
      have := rewriteAt_of_notMem (r := fun p => change p.element p.content) hr
      rw [rewriteAt] at this
      simp [replaceAt, rewriteAt, Element.has, hk, this]
    · simp only [hk, if_false] at once onParagraph
      have hi : h ∉ p.content.handles := List.count_eq_zero.1 (by omega)
      have := ih (by omega) (by omega)
      rw [rewriteAt] at this
      simp [replaceAt, rewriteAt, Element.has, hk, replaceAt_of_notMem hi, this,
        Paragraph.tree, single]
  | other e inside rest he ihi ihr =>
    have hli := count_listed_le inside h
    have hlr := count_listed_le rest h
    simp only [handles_cons, List.count_append, listed_cons_other _ _ he] at once onParagraph
    have hne : ¬ e.has h = true := by
      intro hh
      simp only [Element.has_iff.1 hh, Option.toList_some, List.count_singleton_self]
        at once onParagraph
      omega
    simp only [replaceAt, hne, rewriteAt, rewrite_cons_other _ _ he]
    rw [if_neg (by simp), ihi (by omega) (by omega), ihr (by omega) (by omega)]
    rfl

end Forest

end Redline
