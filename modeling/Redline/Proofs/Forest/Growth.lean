import Redline.Proofs.Forest.Rewrite

/-!
# Forests into which paragraphs have been put

Someone who goes on writing puts paragraphs into a document.  What was there keeps its order, and
the texts of the old paragraphs stay the same, even when something is put into their text boxes.

## Main definitions

* `Woven` — a list with further items among those of another one.
* `Forest.Grows` — a forest with further paragraphs at any places.
-/

namespace Redline

/-- The second list goes through the items of the first one in their order, with further items,
all of them new, anywhere among them. -/
inductive Woven {α β : Type} (same : α → β → Prop) (new : β → Prop) : List α → List β → Prop
  | nil : Woven same new [] []
  | keep {a : α} {b : β} {as : List α} {bs : List β} :
      same a b → Woven same new as bs → Woven same new (a :: as) (b :: bs)
  | put {b : β} {as : List α} {bs : List β} :
      new b → Woven same new as bs → Woven same new as (b :: bs)

namespace Woven

variable {α β : Type} {same : α → β → Prop} {new : β → Prop} {as as' : List α} {bs bs' : List β}

theorem append (h : Woven same new as bs) (h' : Woven same new as' bs') :
    Woven same new (as ++ as') (bs ++ bs') := by
  induction h with
  | nil => exact h'
  | keep hs _ ih => exact .keep hs ih
  | put hn _ ih => exact .put hn ih

/-- Items that are the same pass or fail a test together. -/
theorem filter {p : α → Bool} {q : β → Bool} (hpq : ∀ a b, same a b → p a = q b)
    (h : Woven same new as bs) : Woven same new (as.filter p) (bs.filter q) := by
  induction h with
  | nil => exact .nil
  | @keep a b as bs hs _ ih =>
    rw [List.filter_cons, List.filter_cons, hpq a b hs]
    by_cases hb : q b = true
    · simpa [hb] using ih.keep hs
    · simpa [hb] using ih
  | @put b as bs hn _ ih =>
    rw [List.filter_cons]
    by_cases hb : q b = true
    · simpa [hb] using ih.put hn
    · simpa [hb] using ih

end Woven

namespace Forest

/-- The second forest is the first one into which paragraphs have been put, at any places, those in
cells, content controls and text boxes included. -/
inductive Grows (new : Paragraph → Prop) : Forest → Forest → Prop
  | nil : Grows new .nil .nil
  | keep {e : Element} {inside inside' rest rest' : Forest} :
      Grows new inside inside' → Grows new rest rest' →
        Grows new (.cons e inside rest) (.cons e inside' rest')
  | put {p : Paragraph} {f g : Forest} : new p → Grows new f g →
      Grows new f (.cons p.element p.content g)

namespace Grows

variable {new : Paragraph → Prop} {f g k : Forest} {h : Handle} {p : Paragraph}

theorem refl (f : Forest) : Grows new f f := by
  induction f with
  | nil => exact .nil
  | cons e inside rest ihi ihr => exact .keep ihi ihr

theorem insertBefore (hn : new p) (f : Forest) : Grows new f (Forest.insertBefore h p.tree f) := by
  induction f with
  | nil => exact .nil
  | cons e inside rest ihi ihr =>
    rw [Forest.insertBefore]
    by_cases he : e.has h = true
    · rw [if_pos he]
      exact .put hn (.refl _)
    · rw [if_neg he]
      exact .keep ihi ihr

theorem insertAfter (hn : new p) (f : Forest) : Grows new f (Forest.insertAfter h p.tree f) := by
  induction f with
  | nil => exact .nil
  | cons e inside rest ihi ihr =>
    rw [Forest.insertAfter]
    by_cases he : e.has h = true
    · rw [if_pos he]
      exact .keep (.refl _) (.put hn (.refl _))
    · rw [if_neg he]
      exact .keep ihi ihr

/-- What is put in touches no text. -/
theorem texts_eq (hg : Grows new f g) : g.runTexts = f.runTexts ∧ g.shownText = f.shownText := by
  induction hg with
  | nil => exact ⟨rfl, rfl⟩
  | @keep e inside inside' rest rest' _ _ ihi ihr =>
    cases e <;> simp [runTexts, shownText, runText, ihi, ihr]
  | put _ _ ih => exact ih

/-- Further paragraphs may be put in later, also into those that are new themselves, provided that
being new is a matter of the text. -/
theorem trans (ht : ∀ p content, content.shownText = p.content.shownText → new p →
    new { p with content }) (hf : Grows new f g) (hg : Grows new g k) : Grows new f k := by
  induction hg generalizing f with
  | nil => exact hf
  | put hn _ ih => exact .put hn (ih hf)
  | @keep e inside inside' rest rest' hi hr ihi ihr =>
    cases hf with
    | keep hi' hr' => exact .keep (ihi hi') (ihr hr')
    | @put p _ _ hn hf' => exact .put (ht p inside' hi.texts_eq.2 hn) (ihr hf')

/-- A paragraph with its old handle, style and text. -/
def Same (p q : Paragraph) : Prop := q.handle = p.handle ∧ q.style = p.style ∧ q.text = p.text

theorem paragraphs (hg : Grows new f g) : Woven Same new f.paragraphs g.paragraphs := by
  induction hg with
  | nil => exact .nil
  | put hn _ ih => exact .put hn ih
  | @keep e inside inside' rest rest' hi _ ihi ihr =>
    cases e with
    | paragraph h style alignment =>
      refine .keep ⟨rfl, rfl, ?_⟩ ihr
      simp [Paragraph.text, hi.texts_eq.2]
    | _ => exact ihi.append ihr

end Grows

end Forest

end Redline
