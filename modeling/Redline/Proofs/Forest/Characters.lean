import Mathlib.Data.List.TakeWhile
import Redline.Proofs.Forest.Rewrite

/-!
# The characters of runs

A document holds no character that is forbidden.  What has been written into a run also holds no
return, since that reads back as a feed, so writing it once more changes nothing; only a document
that comes from elsewhere may hold returns.

## Main definitions

* `Text.isAllowed`, `Text.isReadable` — whether a character can stand in a run, and whether it reads
  back as it is.
* `Text.Admits` — a kind of characters that whatever is written belongs to.
* `Forest.OfKind` — whether all characters of all runs of a forest are of a kind.
-/

namespace Redline

namespace Text

/-- Whether a character can stand in a document. -/
def isAllowed (c : Char) : Bool := !isForbidden c

/-- Whether a character reads back as it is when it is written. -/
def isReadable (c : Char) : Bool := isAllowed c && c != '\r'

/-- Whatever is written is of this kind. -/
class Admits (kind : Char → Bool) : Prop where
  of_isReadable : ∀ c, isReadable c = true → kind c = true

instance : Admits isReadable := ⟨fun _ h => h⟩

instance : Admits isAllowed := ⟨fun c h => by
  rw [isReadable, Bool.and_eq_true] at h
  exact h.1⟩

theorem isReadable_iff {c : Char} : isReadable c = true ↔ isAllowed c = true ∧ c ≠ '\r' := by
  simp [isReadable]

theorem isWritable_iff {text : List Char} :
    isWritable text = true ↔ ∀ c ∈ text, isAllowed c = true := by
  simp [isWritable, isAllowed]

theorem readBack_of_isReadable {c : Char} (h : isReadable c = true) : readBack c = c := by
  simp [readBack, (isReadable_iff.1 h).2]

theorem isReadable_readBack {c : Char} (h : isAllowed c = true) :
    isReadable (readBack c) = true := by
  by_cases hc : c = '\r'
  · subst hc; decide
  · simp [readBack, isReadable, hc, h]

theorem map_readBack_of_readable {text : List Char} (h : ∀ c ∈ text, isReadable c = true) :
    text.map readBack = text := by
  rw [List.map_congr_left fun c hc => readBack_of_isReadable (h c hc), List.map_id']

theorem mem_soundPieces {text : List Char} {c : Char} (h : c ∈ soundPieces text) :
    isAllowed c = true := by
  simp only [soundPieces, List.mem_reverse] at h
  have := (List.dropWhile_sublist _).subset h
  simp only [List.mem_reverse] at this
  simpa [isAllowed] using List.mem_takeWhile_imp this

/-- What has been written is readable. -/
theorem isReadable_of_mem_written {text : List Char} {c : Char} (h : c ∈ written text) :
    isReadable c = true := by
  rw [written, List.mem_map] at h
  obtain ⟨a, ha, rfl⟩ := h
  apply isReadable_readBack
  split at ha
  · next hw => exact isWritable_iff.1 hw a ha
  · exact mem_soundPieces ha

theorem Admits.of_mem_written {kind : Char → Bool} [Admits kind] {text : List Char} {c : Char}
    (h : c ∈ written text) : kind c = true :=
  of_isReadable c (isReadable_of_mem_written h)

end Text

/-- The characters of an element itself. -/
def Element.characters : Element → List Char
  | .run text _ => text.toList
  | _ => []

namespace Forest

open Redline.Text

/-- The characters of all runs of a forest, at any depth. -/
def characters : Forest → List Char
  | .nil => []
  | .cons e inside rest => e.characters ++ (inside.characters ++ rest.characters)

/-- All characters of all runs are of a kind. -/
def OfKind (kind : Char → Bool) (f : Forest) : Prop := ∀ c ∈ f.characters, kind c = true

variable {kind : Char → Bool}

@[simp] theorem ofKind_nil : OfKind kind .nil := by simp [OfKind, characters]

theorem ofKind_cons {e : Element} {inside rest : Forest} :
    (Forest.cons e inside rest).OfKind kind ↔
      (∀ c ∈ e.characters, kind c = true) ∧ inside.OfKind kind ∧ rest.OfKind kind := by
  simp [OfKind, characters, or_imp, forall_and]

theorem ofKind_append {f g : Forest} :
    (f ++ g).OfKind kind ↔ f.OfKind kind ∧ g.OfKind kind := by
  induction f with
  | nil => simp
  | cons e inside rest _ ih => simp only [cons_append, ofKind_cons, ih, and_assoc]

theorem ofKind_single {e : Element} {inside : Forest} :
    (single e inside).OfKind kind ↔
      (∀ c ∈ e.characters, kind c = true) ∧ inside.OfKind kind := by
  simp [single, ofKind_cons]

theorem ofKind_runOf [Admits kind] (text : List Char) : (runOf text).OfKind kind := by
  rw [runOf, ofKind_single]
  simpa [Element.characters] using fun c => Admits.of_mem_written

theorem OfKind.replaceAt {h : Handle} {into : Element → Forest → Forest} {f : Forest}
    (hf : f.OfKind kind)
    (hinto : ∀ e inside, (single e inside).OfKind kind → (into e inside).OfKind kind) :
    (f.replaceAt h into).OfKind kind := by
  induction f with
  | nil => exact hf
  | cons e inside rest ihi ihr =>
    rw [ofKind_cons] at hf
    by_cases he : e.has h = true
    · simp only [Forest.replaceAt, he, if_true, ofKind_append]
      exact ⟨hinto e inside (ofKind_single.2 ⟨hf.1, hf.2.1⟩), hf.2.2⟩
    · simp only [Forest.replaceAt, he, ofKind_cons, Bool.false_eq_true, if_false]
      exact ⟨hf.1, ihi hf.2.1, ihr hf.2.2⟩

theorem OfKind.tree? {h : Handle} {f tree : Forest} (hf : f.OfKind kind)
    (ht : f.tree? h = some tree) : tree.OfKind kind := by
  induction f with
  | nil => simp [Forest.tree?] at ht
  | cons e inside rest ihi ihr =>
    rw [ofKind_cons] at hf
    simp only [Forest.tree?] at ht
    split at ht
    · obtain rfl := Option.some.inj ht
      exact ofKind_single.2 ⟨hf.1, hf.2.1⟩
    · split at ht
      · next hi => exact ihi hf.2.1 (hi.trans ht)
      · exact ihr hf.2.2 ht

theorem OfKind.content {f : Forest} {p : Paragraph} (hf : f.OfKind kind) (hp : p ∈ f.paragraphs) :
    p.content.OfKind kind := by
  induction f using paragraphInduction with
  | nil => simp at hp
  | paragraph q rest _ ih =>
    rw [ofKind_cons] at hf
    rcases List.mem_cons.1 hp with rfl | hp
    · exact hf.2.1
    · exact ih hf.2.2 hp
  | other e inside rest he ihi ihr =>
    rw [ofKind_cons] at hf
    rw [paragraphs_cons_other _ _ he, List.mem_append] at hp
    rcases hp with hp | hp
    · exact ihi hf.2.1 hp
    · exact ihr hf.2.2 hp

end Forest

end Redline
