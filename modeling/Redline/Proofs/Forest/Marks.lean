import Redline.Document.Bookmark
import Redline.Proofs.Forest.Characters

/-!
# Marks of a forest

The marks of a forest carry neither handles nor text, so they go wherever they are put without
touching what the document shows.

## Main definitions

* `Forest.AllMarks` — a forest of marks alone.
-/

namespace Redline.Forest

/-- The forest consists of marks, with nothing inside them. -/
inductive AllMarks : Forest → Prop where
  | nil : AllMarks .nil
  | start (name id : String) {rest : Forest} :
    AllMarks rest → AllMarks (.cons (.bookmarkStart name id) .nil rest)
  | stop (id : String) {rest : Forest} :
    AllMarks rest → AllMarks (.cons (.bookmarkEnd id) .nil rest)

namespace AllMarks

theorem append {f g : Forest} (hf : f.AllMarks) (hg : g.AllMarks) : (f ++ g).AllMarks := by
  induction hf with
  | nil => exact hg
  | start name id _ ih => exact .start name id ih
  | stop id _ ih => exact .stop id ih

theorem join {forests : List Forest} (h : ∀ f ∈ forests, f.AllMarks) :
    (Forest.join forests).AllMarks := by
  induction forests with
  | nil => exact .nil
  | cons f rest ih =>
    exact (h f List.mem_cons_self).append (ih fun g hg => h g (List.mem_cons_of_mem _ hg))

theorem startMarks (f : Forest) : f.startMarks.AllMarks := by
  induction f with
  | nil => exact .nil
  | cons e inside rest ihi ihr =>
    cases e with
    | bookmarkStart name id => exact .start name id (ihi.append ihr)
    | _ => exact ihi.append ihr

theorem endMarks (f : Forest) : f.endMarks.AllMarks := by
  induction f with
  | nil => exact .nil
  | cons e inside rest ihi ihr =>
    cases e with
    | bookmarkEnd id => exact .stop id (ihi.append ihr)
    | _ => exact ihi.append ihr

variable {f : Forest} (hf : f.AllMarks)
include hf

theorem handles_eq : f.handles = [] := by
  induction hf <;> simp_all [Element.handle?]

theorem ofKind {kind : Char → Bool} : f.OfKind kind := by
  induction hf <;> simp_all [ofKind_cons, Element.characters]

theorem paragraphs_eq : f.paragraphs = [] := by
  induction hf <;> simp_all [paragraphs]

theorem shownText_eq : f.shownText = [] := by
  induction hf <;> simp_all [shownText]

theorem rewrite_eq (r : Paragraph → Forest) : f.rewrite r = f := by
  induction hf <;> simp_all [rewrite]

end AllMarks

@[simp] theorem shownText_append (f g : Forest) :
    (f ++ g).shownText = f.shownText ++ g.shownText := by
  induction f with
  | nil => rfl
  | cons e inside rest _ ih => cases e <;> simp [shownText, ih]

theorem shownText_runOf (text : List Char) : (runOf text).shownText = Text.written text := by
  simp [runOf, single, shownText]

/-! ## Forests without marks -/

theorem handles_withoutMarks_sublist (f : Forest) : f.withoutMarks.handles.Sublist f.handles := by
  induction f with
  | nil => simp [withoutMarks]
  | cons e inside rest ihi ihr =>
    have hrest : rest.withoutMarks.handles.Sublist (inside.handles ++ rest.handles) :=
      ihr.trans (List.sublist_append_right _ _)
    cases e with
    | bookmarkStart name id => simpa [withoutMarks, Element.handle?] using hrest
    | bookmarkEnd id => simpa [withoutMarks, Element.handle?] using hrest
    | _ => exact (List.Sublist.refl _).append (ihi.append ihr)

theorem OfKind.withoutMarks {kind : Char → Bool} {f : Forest} (hf : f.OfKind kind) :
    f.withoutMarks.OfKind kind := by
  induction f with
  | nil => exact hf
  | cons e inside rest ihi ihr =>
    rw [ofKind_cons] at hf
    cases e with
    | bookmarkStart name id => exact ihr hf.2.2
    | bookmarkEnd id => exact ihr hf.2.2
    | _ => exact ofKind_cons.2 ⟨hf.1, ihi hf.2.1, ihr hf.2.2⟩

end Redline.Forest
