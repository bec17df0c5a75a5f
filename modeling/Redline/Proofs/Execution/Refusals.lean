import Redline.Proofs.Preparing

/-!
# What an open host refuses

While effects are queued an open host refuses one thing alone: to make a paragraph for a text that
cannot be written.

## Main definitions

* `Host.Inserting` — a way of inserting paragraphs.
-/

namespace Redline

open Editing Redline.Text

variable {host mid left : Host} {mishap : Mishap}

namespace Host

theorem makeParagraph_error {text : String}
    (h : (makeParagraph text).runOn host = (.error mishap, left)) :
    ∃ f, mishap = .fault f ∧
      (host.isOpen = true → f = .forbiddenCharacter ∧ isWritable text.toList = false) := by
  rw [makeParagraph, runOn_bind, runOn_get] at h
  simp only at h
  split at h
  · next hclosed =>
    obtain ⟨rfl, rfl⟩ : _ ∧ _ := by simpa using h
    refine ⟨_, rfl, fun hopen => ?_⟩
    simp [hopen] at hclosed
  · split at h
    · next hw =>
      obtain ⟨rfl, rfl⟩ : _ ∧ _ := by simpa using h
      exact ⟨_, rfl, fun _ => ⟨rfl, by simpa using hw⟩⟩
    · simp [runOn_map] at h

/-- A way of inserting a paragraph for a text: it prepares the host, and an open host refuses nothing
but a text that cannot be written. -/
structure Inserting (insert : String → Editing Handle) : Prop where
  prepares : ∀ text, Prepares (insert text)
  refuses : ∀ text (host left : Host) mishap, (insert text).runOn host = (.error mishap, left) →
    ∃ f, mishap = .fault f ∧
      (host.isOpen = true → f = .forbiddenCharacter ∧ isWritable text.toList = false)

/-- A paragraph is made, and one effect puts it in. -/
theorem inserting_of_queue (effect : Handle → String → Effect) :
    Inserting fun text => do
      let h ← makeParagraph text
      queue (effect h text)
      pure h where
  prepares text :=
    (prepares_makeParagraph text).bind fun _ => (prepares_queue _).bind fun _ => .pure _
  refuses text host left mishap h := by
    rw [runOn_bind] at h
    rcases hmake : (makeParagraph text).runOn host with ⟨early | made, last⟩
    · simp only [hmake, Prod.mk.injEq, Except.error.injEq] at h
      exact h.1 ▸ makeParagraph_error hmake
    · simp [hmake, runOn_map] at h

theorem inserting_insertParagraph (anchor : Handle) (side : Side) :
    Inserting fun text => insertParagraph text anchor side :=
  inserting_of_queue fun h text => .insertBeside h text side anchor

theorem inserting_insertParagraphInBody (edge : Edge) :
    Inserting fun text => insertParagraphInBody text edge :=
  inserting_of_queue fun h text => .insertInBody h text edge

end Host

namespace Execution

variable {α : Type}

/-- Inserting texts one behind the other goes wrong with a text that cannot be written, or with what
belongs to one of the new paragraphs. -/
theorem insertEach_error {text : α → String} {dress : Handle → α → Editing Unit}
    {insert : String → Editing Handle} {as : List α} (hi : Host.Inserting insert)
    (hd : ∀ h a, Prepares (dress h a))
    (h : (insertEach text dress insert as).runOn host = (.error mishap, left)) :
    (∃ f, mishap = .fault f ∧ (host.isOpen = true →
      f = .forbiddenCharacter ∧ ∃ a ∈ as, isWritable (text a).toList = false)) ∨
    ∃ a ∈ as, ∃ h mid last, (dress h a).runOn mid = (.error mishap, last) := by
  induction as generalizing insert host with
  | nil => simp [insertEach] at h
  | cons a rest ih =>
    have hinsert := hi.prepares (text a) host
    rw [insertEach, runOn_bind] at h
    rcases hrun : (insert (text a)).runOn host with ⟨early | p, ready⟩
    · simp only [hrun, Prod.mk.injEq, Except.error.injEq] at h
      obtain ⟨f, hf, hopen⟩ := hi.refuses _ _ _ _ hrun
      exact .inl ⟨f, h.1 ▸ hf, fun ho => ⟨(hopen ho).1, a, List.mem_cons_self, (hopen ho).2⟩⟩
    · rw [hrun] at hinsert
      have hdress := hd p a ready
      simp only [hrun, runOn_bind] at h
      rcases hdressed : (dress p a).runOn ready with ⟨early | _, dressed⟩
      · simp only [hdressed, Prod.mk.injEq, Except.error.injEq] at h
        exact .inr ⟨a, List.mem_cons_self, p, ready, dressed, h.1 ▸ hdressed⟩
      · rw [hdressed] at hdress
        simp only [hdressed] at h
        rcases ih (Host.inserting_insertParagraph p .after) h with
          ⟨f, hf, hopen⟩ | ⟨b, hb, hfail⟩
        · refine .inl ⟨f, hf, fun ho => ?_⟩
          obtain ⟨hforbidden, b, hb, hw⟩ := hopen ((hdress.isOpen.trans hinsert.isOpen).trans ho)
          exact ⟨hforbidden, b, List.mem_cons_of_mem _ hb, hw⟩
        · exact .inr ⟨b, List.mem_cons_of_mem _ hb, hfail⟩

end Execution

end Redline
