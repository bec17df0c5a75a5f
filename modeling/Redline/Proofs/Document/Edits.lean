import Redline.Proofs.Document.WellFormed
import Redline.Proofs.Forest.Marks

/-!
# Edits as rewritings

At a paragraph of a well-formed document, every edit rewrites that paragraph in the body and leaves
all other paragraphs alone.

## Main definitions

* `Document.rewrite`, `Document.rewriteAt` — rewriting the paragraphs of the body, or one of them.
* `Paragraph.IsEdit` — a paragraph that stands for another one after a change.
* `Document.put` — gives such a paragraph the place of the other one.
* `Document.IsWaiting` — a paragraph that has been made and not put in yet.
-/

namespace Redline

/-- The second paragraph has the handle of the first, and nothing inside it is new or forbidden. -/
structure Paragraph.IsEdit (p q : Paragraph) : Prop where
  handle : q.handle = p.handle
  writable : p.content.OfKind Text.isAllowed → q.content.OfKind Text.isAllowed
  handles : q.content.handles.Sublist p.content.handles

namespace Paragraph.IsEdit

variable {p q q' : Paragraph}

theorem refl (p : Paragraph) : p.IsEdit p := ⟨rfl, id, .refl _⟩

theorem trans (h : p.IsEdit q) (h' : q.IsEdit q') : p.IsEdit q' :=
  ⟨h'.handle.trans h.handle, fun hr => h'.writable (h.writable hr), h'.handles.trans h.handles⟩

theorem count_handles_le (h : p.IsEdit q) (x : Handle) :
    q.tree.handles.count x ≤ p.tree.handles.count x := by
  simpa [h.handle, List.count_cons] using h.handles.count_le x

end Paragraph.IsEdit

theorem Effect.ofKind_textContent {kind : Char → Bool} [Text.Admits kind] (text : List Char)
    (f : Forest) : (textContent text f).OfKind kind := by
  simp only [textContent]
  split
  · exact Forest.ofKind_append.2 ⟨(Forest.AllMarks.startMarks _).ofKind,
      Forest.ofKind_append.2 ⟨Forest.ofKind_runOf _, (Forest.AllMarks.endMarks _).ofKind⟩⟩
  · exact Forest.ofKind_runOf _

theorem Effect.isEdit_textContent (p : Paragraph) (text : List Char) :
    p.IsEdit { p with content := textContent text p.content } := by
  refine ⟨rfl, fun _ => ofKind_textContent _ _, ?_⟩
  · have hrun : (Forest.runOf text).handles = [] := by simp [Forest.runOf, Element.handle?]
    simp only [textContent]
    split <;> simp [(Forest.AllMarks.startMarks _).handles_eq,
      (Forest.AllMarks.endMarks _).handles_eq, hrun]

/-- A paragraph without its content. -/
def Paragraph.emptied (p : Paragraph) : Paragraph := { p with content := .nil }

@[simp] theorem Paragraph.handle_emptied (p : Paragraph) : p.emptied.handle = p.handle := rfl

/-- A paragraph with others on one side of it. -/
def Paragraph.beside (side : Side) (news : List Paragraph) (p : Paragraph) : Forest :=
  match side with
  | .before => Forest.join (news.map Paragraph.tree) ++ p.tree
  | .after => p.tree ++ Forest.join (news.map Paragraph.tree)

@[simp] theorem Paragraph.beside_nil (side : Side) (p : Paragraph) : p.beside side [] = p.tree := by
  cases side <;> simp [beside, Forest.join]

theorem Forest.ofKind_tree {kind : Char → Bool} {p : Paragraph} :
    p.tree.OfKind kind ↔ p.content.OfKind kind := by
  simp [Paragraph.tree, Forest.ofKind_single, Paragraph.element, Element.characters]

namespace Forest

variable {f : Forest} {h k : Handle} {r s : Paragraph → Forest}

theorem paragraphs_rewriteAt (f : Forest) (h : Handle) (r : Paragraph → Forest) :
    (f.rewriteAt h r).paragraphs =
      f.paragraphs.flatMap fun p => if p.handle = h then (r p).paragraphs else [p] := by
  rw [rewriteAt, paragraphs_rewrite]
  congr 1
  funext p
  split <;> simp

theorem rewriteAt_congr (hr : ∀ p ∈ f.paragraphs, p.handle = h → r p = s p) :
    f.rewriteAt h r = f.rewriteAt h s := by
  refine rewrite_congr fun p hp => ?_
  by_cases hk : p.handle = h
  · simp [hk, hr p hp hk]
  · simp [hk]

theorem rewriteAt_append (f g : Forest) :
    (f ++ g).rewriteAt h r = f.rewriteAt h r ++ g.rewriteAt h r :=
  rewrite_append f g

theorem rewriteAt_tree (p : Paragraph) :
    p.tree.rewriteAt h r = if p.handle = h then r p else p.tree := by
  rw [rewriteAt, rewrite_tree]

/-- What was put in the place of a paragraph is rewritten on its own. -/
theorem rewriteAt_rewriteAt (hk : k = h ∨ k ∉ f.listed) :
    (f.rewriteAt h r).rewriteAt k s = f.rewriteAt h fun p => (r p).rewriteAt k s := by
  rw [rewriteAt, rewriteAt, rewrite_rewrite, rewriteAt]
  refine rewrite_congr fun p hp => ?_
  by_cases hh : p.handle = h
  · simp [hh, rewriteAt]
  · have : p.handle ≠ k := by
      rcases hk with rfl | hk
      · exact hh
      · exact fun he => hk (he ▸ List.mem_map_of_mem hp)
    simp [hh, this]

end Forest

/-- What is put behind the first of new paragraphs stands behind it. -/
theorem Paragraph.rewriteAt_beside {side : Side} {p q : Paragraph} (news : List Paragraph)
    (hne : p.handle ≠ q.handle) :
    (p.beside side [q]).rewriteAt q.handle (·.beside .after news) = p.beside side (q :: news) := by
  cases side <;>
    simp [beside, Forest.join, Forest.rewriteAt, hne, Forest.append_assoc]

namespace Document

/-- Rewrites the paragraphs of the body. -/
def rewrite (r : Paragraph → Forest) (d : Document) : Document :=
  { d with body := d.body.rewrite r }

/-- Rewrites the paragraph of the body that has the given handle. -/
def rewriteAt (h : Handle) (r : Paragraph → Forest) (d : Document) : Document :=
  { d with body := d.body.rewriteAt h r }

section
variable (d : Document) (h : Handle) (r : Paragraph → Forest)

@[simp] theorem body_rewriteAt : (d.rewriteAt h r).body = d.body.rewriteAt h r := rfl

@[simp] theorem loose_rewriteAt : (d.rewriteAt h r).loose = d.loose := rfl

@[simp] theorem nextHandle_rewriteAt : (d.rewriteAt h r).nextHandle = d.nextHandle := rfl

@[simp] theorem styles_rewriteAt : (d.rewriteAt h r).styles = d.styles := rfl

end

variable {d : Document} {h x : Handle} {p : Paragraph} {r s : Paragraph → Forest}

theorem mem_listed_iff : h ∈ d.body.listed ↔ ∃ p ∈ d.paragraphs, p.handle = h := by
  simp [Forest.listed, paragraphs]

/-- In a well-formed document a handle tells a paragraph from all others. -/
theorem WellFormed.eq_of_handle_eq (hd : d.WellFormed) {q : Paragraph} (hp : p ∈ d.paragraphs)
    (hq : q ∈ d.paragraphs) (he : p.handle = q.handle) : p = q := by
  have hn : d.body.listed.Nodup := hd.nodup_body.sublist (Forest.listed_sublist_handles _)
  exact List.inj_on_of_nodup_map hn hp hq he

theorem rewriteAt_rewriteAt {k : Handle} (hk : k = h ∨ k ∉ d.body.listed) :
    (d.rewriteAt h r).rewriteAt k s = d.rewriteAt h fun p => (r p).rewriteAt k s := by
  simp [rewriteAt, Forest.rewriteAt_rewriteAt hk]

/-! ## Well-formedness -/

theorem count_handles_rewrite_le (f : Forest)
    (hr : ∀ p ∈ f.paragraphs, (r p).handles.count x ≤ p.tree.handles.count x) :
    (f.rewrite r).handles.count x ≤ f.handles.count x := by
  induction f using Forest.paragraphInduction with
  | nil => simp
  | paragraph p rest _ ih =>
    have hp := hr p (by simp)
    have := ih fun q hq => hr q (by simp [hq])
    simp only [Forest.rewrite_cons_paragraph, Forest.handles_append, Forest.handles_cons,
      Paragraph.handles_tree, Paragraph.handle?_element, Option.toList_some, List.count_append,
      List.count_cons, List.count_nil] at *
    omega
  | other e inside rest he ihi ihr =>
    rw [Forest.paragraphs_cons_other _ _ he] at hr
    have := ihi fun p hp => hr p (List.mem_append_left _ hp)
    have := ihr fun p hp => hr p (List.mem_append_right _ hp)
    simp only [Forest.rewrite_cons_other _ _ he, Forest.handles_cons, List.count_append]
    omega

theorem ofKind_rewrite (f : Forest) (hf : f.OfKind Text.isAllowed)
    (hr : ∀ p ∈ f.paragraphs, p.content.OfKind Text.isAllowed → (r p).OfKind Text.isAllowed) :
    (f.rewrite r).OfKind Text.isAllowed := by
  induction f using Forest.paragraphInduction with
  | nil => exact hf
  | paragraph p rest _ ih =>
    rw [Forest.ofKind_cons] at hf
    rw [Forest.rewrite_cons_paragraph, Forest.ofKind_append]
    exact ⟨hr p (by simp) hf.2.1, ih hf.2.2 fun q hq => hr q (by simp [hq])⟩
  | other e inside rest he ihi ihr =>
    rw [Forest.ofKind_cons] at hf
    rw [Forest.paragraphs_cons_other _ _ he] at hr
    rw [Forest.rewrite_cons_other _ _ he, Forest.ofKind_cons]
    exact ⟨hf.1, ihi hf.2.1 fun p hp => hr p (List.mem_append_left _ hp),
      ihr hf.2.2 fun p hp => hr p (List.mem_append_right _ hp)⟩

/-- Paragraphs may give way to forests that hold none but their handles. -/
theorem WellFormed.rewrite (hd : d.WellFormed)
    (hc : ∀ p ∈ d.paragraphs, ∀ x, (r p).handles.count x ≤ p.tree.handles.count x)
    (hr : ∀ p ∈ d.paragraphs, p.content.OfKind Text.isAllowed → (r p).OfKind Text.isAllowed) :
    (d.rewrite r).WellFormed := by
  refine hd.of_count_le (fun x => ?_) le_rfl ?_
  · have := count_handles_rewrite_le d.body fun p hp => hc p hp x
    simp only [handles, trees, Document.rewrite, List.flatMap_cons, List.count_append]
    omega
  · intro tree ht
    rcases List.mem_cons.1 ht with rfl | ht
    · exact ofKind_rewrite _ (hd.writable _ List.mem_cons_self) hr
    · exact hd.writable _ (List.mem_cons_of_mem _ ht)

/-! ## Paragraphs that are replaced by edits of their own -/

theorem WellFormed.edited (hd : d.WellFormed) {r : Paragraph → Paragraph}
    (hr : ∀ p ∈ d.paragraphs, p.IsEdit (r p)) : (d.rewrite fun p => (r p).tree).WellFormed :=
  hd.rewrite (fun p hp => (hr p hp).count_handles_le) fun p hp hc =>
    Forest.ofKind_tree.2 ((hr p hp).writable hc)

theorem paragraphs_rewrite_tree (d : Document) (r : Paragraph → Paragraph) :
    (d.rewrite fun p => (r p).tree).paragraphs = d.paragraphs.map r := by
  simp [paragraphs, rewrite, Forest.paragraphs_rewrite, List.map_eq_flatMap]

/-- The paragraph with the handle of the given one gives way to it. -/
def put (q : Paragraph) (d : Document) : Document := d.rewriteAt q.handle fun _ => q.tree

theorem put_eq_rewrite (q : Paragraph) (d : Document) :
    d.put q = d.rewrite fun p => (if p.handle = q.handle then q else p).tree := by
  rw [put, rewriteAt, rewrite, Forest.rewriteAt]
  congr 2
  funext p
  split <;> rfl

theorem put_self (hd : d.WellFormed) (hp : p ∈ d.paragraphs) : d.put p = d := by
  have : d.body.rewriteAt p.handle (fun _ => p.tree) = d.body := by
    rw [Forest.rewriteAt, Forest.rewrite_congr (s := Paragraph.tree), Forest.rewrite_self]
    intro q hq
    split
    · next he => rw [hd.eq_of_handle_eq hq hp he]
    · rfl
  rw [put, rewriteAt, this]

theorem put_put {q q' : Paragraph} (he : q'.handle = q.handle) : (d.put q).put q' = d.put q' := by
  rw [put, put, rewriteAt_rewriteAt (Or.inl he), put, ← he]
  congr 1
  funext p
  rw [Forest.rewriteAt_tree, if_pos he.symm]

theorem mem_put (hp : p ∈ d.paragraphs) {q : Paragraph} (he : q.handle = p.handle) :
    q ∈ (d.put q).paragraphs := by
  rw [put_eq_rewrite, paragraphs_rewrite_tree]
  exact List.mem_map.2 ⟨p, hp, by simp [he]⟩

theorem WellFormed.put (hd : d.WellFormed) (hp : p ∈ d.paragraphs) {q : Paragraph}
    (hq : p.IsEdit q) : (d.put q).WellFormed := by
  rw [put_eq_rewrite]
  refine hd.edited fun x hx => ?_
  by_cases he : x.handle = q.handle
  · rw [if_pos he, hd.eq_of_handle_eq hx hp (he.trans hq.handle)]
    exact hq
  · rw [if_neg he]
    exact .refl x

/-- An edit that depends on the paragraph alone puts one paragraph in its place. -/
theorem rewriteAt_eq_put (hd : d.WellFormed) (hp : p ∈ d.paragraphs) {r : Paragraph → Paragraph}
    (he : (r p).handle = p.handle) :
    (d.rewriteAt p.handle fun q => (r q).tree) = d.put (r p) := by
  rw [put, he, rewriteAt, rewriteAt]
  congr 1
  refine Forest.rewriteAt_congr fun q hq hh => ?_
  rw [hd.eq_of_handle_eq hq hp hh]

/-! ## Changes at a paragraph -/

section
variable (hd : d.WellFormed) (hl : h ∈ d.body.listed)
include hd hl

theorem mapTrees_replaceAt (change : Element → Forest → Forest) :
    d.mapTrees (·.replaceAt h change) = d.rewriteAt h fun p => change p.element p.content := by
  have hb : h ∈ d.body.handles := (Forest.listed_sublist_handles _).subset hl
  have hloose : (d.loose.map fun part => { part with tree := part.tree.replaceAt h change }) =
      d.loose.map id :=
    List.map_congr_left fun part hp => by
      simp [Forest.replaceAt_of_notMem (hd.notMem_loose hb hp)]
  simp [mapTrees, rewriteAt, Forest.replaceAt_eq_rewriteAt (hd.plain hl), hloose]

theorem modifyInside_of_listed (change : Forest → Forest) :
    d.modifyInside h change =
      d.rewriteAt h fun p => { p with content := change p.content : Paragraph }.tree := by
  simp only [modifyInside, Forest.modifyInside_eq_replaceAt]
  exact mapTrees_replaceAt hd hl _

theorem restyle_of_listed (change : String → Option Alignment → String × Option Alignment) :
    d.modify h (Effect.restyle change) =
      d.rewriteAt h fun p =>
        { p with
          style := (change p.style p.alignment).1
          alignment := (change p.style p.alignment).2 : Paragraph }.tree := by
  simp only [modify, Forest.modify_eq_replaceAt]
  exact mapTrees_replaceAt hd hl _

theorem erase_of_listed : d.mapTrees (·.erase h) = d.rewriteAt h fun _ => .nil := by
  simp only [Forest.erase_eq_replaceAt]
  exact mapTrees_replaceAt hd hl _

theorem place_before_of_listed (new : Forest) :
    d.place h new .nil = d.rewriteAt h fun p => new ++ p.tree := by
  rw [place_nil_after]
  exact mapTrees_replaceAt hd hl _

theorem place_after_of_listed (new : Forest) :
    d.place h .nil new = d.rewriteAt h fun p => p.tree ++ new := by
  rw [place_nil_before]
  exact mapTrees_replaceAt hd hl _

end

/-- A match whose text still stands in its paragraph is replaced there, as far as the new text can be
written. -/
theorem apply_replace_of_fresh (hd : d.WellFormed) (hp : p ∈ d.paragraphs) {found : Match}
    (hh : p.handle = found.paragraph)
    (hfresh : (p.content.runText.drop found.start).take (found.stop - found.start) = found.text)
    (text : String) :
    (Effect.replace found text).apply d =
      (d.put { p with content := (p.content.spliceRuns found.start found.stop text.toList).1 },
        if (p.content.spliceRuns found.start found.stop text.toList).2 then none
        else some .forbiddenCharacter) := by
  have hinside : d.inside found.paragraph = p.content := hh ▸ hd.inside_eq_content hp
  simp only [Effect.apply, Effect.applyReplace, hinside, hfresh, ne_eq, not_true_eq_false, if_false]
  congr 1
  rw [← hh, modifyInside_of_listed hd (mem_listed_iff.2 ⟨p, hp, rfl⟩)]
  exact rewriteAt_eq_put hd hp (r := fun x => { x with
    content := (p.content.spliceRuns found.start found.stop text.toList).1 }) rfl

/-- What a paragraph without handles of its own gives way to keeps its place in the document. -/
theorem mem_listed_rewriteAt (hl : x ∈ d.body.listed)
    (hr : ∀ p ∈ d.paragraphs, p.handle = h → x = h → x ∈ (r p).listed) :
    x ∈ (d.rewriteAt h r).body.listed := by
  obtain ⟨p, hp, rfl⟩ := mem_listed_iff.1 hl
  rw [body_rewriteAt, Forest.rewriteAt, Forest.listed_rewrite]
  refine List.mem_flatMap.2 ⟨p, hp, ?_⟩
  by_cases hh : p.handle = h
  · simpa [hh] using hr p hp hh hh
  · simp [hh]

theorem place_marks_of_listed (hd : d.WellFormed) (hl : h ∈ d.body.listed) (starts : Forest)
    {ends : Forest} (he : ends.handles = []) (hr : ends.OfKind Text.isAllowed) :
    d.place h starts ends = d.rewriteAt h fun p => starts ++ (p.tree ++ ends) := by
  have hmid : (d.place h .nil ends).WellFormed := hd.place_marks rfl he Forest.ofKind_nil hr
  have hlist : h ∈ (d.place h .nil ends).body.listed := by
    rw [place_after_of_listed hd hl]
    exact mem_listed_rewriteAt hl fun p _ hp _ => by simp [hp]
  have hends : ends.listed = [] := List.sublist_nil.1 (he ▸ Forest.listed_sublist_handles ends)
  have hsplit : d.place h starts ends = (d.place h .nil ends).place h starts .nil := by
    rw [place_eq_replaceAt, place_nil_before, place_nil_after]
  rw [hsplit, place_before_of_listed hmid hlist, place_after_of_listed hd hl,
    rewriteAt_rewriteAt (Or.inl rfl), rewriteAt, rewriteAt]
  congr 1
  refine Forest.rewriteAt_congr fun p _ hp => ?_
  rw [Forest.rewriteAt, Forest.rewrite_append, Forest.rewrite_tree, if_pos hp]
  have := Forest.rewriteAt_of_notMem (h := h) (f := ends) (r := fun p => starts ++ p.tree)
    (by simp [hends])
  rw [Forest.rewriteAt] at this
  rw [this, Forest.append_assoc]

/-! ## Taking paragraphs out -/

theorem aloneInCell_of_listed (hd : d.WellFormed) (hl : h ∈ d.body.listed) :
    d.aloneInCell h = d.body.aloneInCell h := by
  have hb : h ∈ d.body.handles := (Forest.listed_sublist_handles _).subset hl
  have : (d.loose.any fun part => part.tree.aloneInCell h) = false := by
    rw [List.any_eq_false]
    exact fun part hp ha => hd.notMem_loose hb hp (Forest.mem_handles_of_aloneInCell ha)
  simp [aloneInCell, this]

/-- The paragraph goes out of the body and lives on as a loose part. -/
theorem takeOut_of_listed (hd : d.WellFormed) (hp : p ∈ d.paragraphs) :
    d.takeOut p.handle =
      { d.rewriteAt p.handle fun _ => .nil with loose := d.loose ++ [⟨false, p.tree⟩] } := by
  have htree : d.tree? p.handle = some p.tree := by
    simp [tree?, Forest.tree?_of_mem_paragraphs hd.nodup_body hp]
  rw [takeOut, htree]
  simp [erase_of_listed hd (mem_listed_iff.2 ⟨p, hp, rfl⟩)]

/-- A paragraph is taken out, or emptied where it is the only one of a cell. -/
theorem body_removeParagraph (hd : d.WellFormed) (hl : h ∈ d.body.listed) :
    (d.removeParagraph h).body =
      d.body.rewriteAt h fun p => if d.body.aloneInCell h then p.emptied.tree else .nil := by
  have hb : h ∈ d.body.handles := (Forest.listed_sublist_handles _).subset hl
  rw [removeParagraph, hd.standing_eq_placed hb, aloneInCell_of_listed hd hl]
  simp only [ne_eq, not_true_eq_false, if_false]
  split
  · rw [modifyInside_of_listed hd hl, body_rewriteAt]
    rfl
  · obtain ⟨p, hp, rfl⟩ := mem_listed_iff.1 hl
    rw [takeOut_of_listed hd hp]
    rfl

theorem loose_subset_removeParagraph (hd : d.WellFormed) (hl : h ∈ d.body.listed) :
    d.loose ⊆ (d.removeParagraph h).loose := by
  have hb : h ∈ d.body.handles := (Forest.listed_sublist_handles _).subset hl
  rw [removeParagraph, hd.standing_eq_placed hb]
  simp only [ne_eq, not_true_eq_false, if_false]
  split
  · rw [modifyInside_of_listed hd hl]
    exact fun part hp => hp
  · obtain ⟨p, hp, rfl⟩ := mem_listed_iff.1 hl
    rw [takeOut_of_listed hd hp]
    exact List.subset_append_left _ _

@[simp] theorem nextHandle_removeParagraph (d : Document) (h : Handle) :
    (d.removeParagraph h).nextHandle = d.nextHandle := by
  unfold removeParagraph
  split
  · rfl
  · split
    · rfl
    · unfold takeOut
      split <;> rfl

/-! ## Putting new paragraphs in -/

/-- The paragraph has been made for the document and not been put in yet. -/
def IsWaiting (d : Document) (p : Paragraph) : Prop := ⟨true, p.tree⟩ ∈ d.loose

theorem IsWaiting.newTree_eq (hd : d.WellFormed) (hp : d.IsWaiting p) :
    Effect.newTree d p.handle = p.tree :=
  hd.newTree_eq hp (by simp [LoosePart.isRoot, Paragraph.tree, Forest.single, Element.has])

theorem IsWaiting.notMem_body (hd : d.WellFormed) (hp : d.IsWaiting p) :
    p.handle ∉ d.body.handles :=
  fun hb => hd.notMem_loose hb hp (by simp)

theorem IsWaiting.notMem_listed (hd : d.WellFormed) (hp : d.IsWaiting p) :
    p.handle ∉ d.body.listed :=
  fun hl => hp.notMem_body hd ((Forest.listed_sublist_handles _).subset hl)

theorem IsWaiting.dropLoose {q : Paragraph} (hp : d.IsWaiting p) (hne : p.handle ≠ q.handle) :
    (d.dropLoose q.handle).IsWaiting p := by
  refine List.mem_filter.2 ⟨hp, ?_⟩
  simp [LoosePart.isRoot, Paragraph.tree, Forest.single, Element.has, hne]

/-- A waiting paragraph is put in beside a paragraph of the document. -/
theorem insertBeside_eq (hd : d.WellFormed) {anchor : Handle} (hl : anchor ∈ d.body.listed)
    (hp : d.IsWaiting p) (text : String) (side : Side) :
    (Effect.insertBeside p.handle text side anchor).apply d =
      ((d.dropLoose p.handle).rewriteAt anchor (·.beside side [p]), none) := by
  have hb : anchor ∈ d.body.handles := (Forest.listed_sublist_handles _).subset hl
  have hdrop : (d.dropLoose p.handle).WellFormed :=
    hd.of_count_le
      (fun x => (Nat.le_add_right _ _).trans (count_handles_dropLoose_add_le d p.handle x))
      le_rfl fun tree ht => hd.writable tree (trees_dropLoose_subset d _ ht)
  rw [Effect.apply, Effect.applyInsertBeside, hd.standing_eq_placed hb, hp.newTree_eq hd]
  cases side with
  | before => simp [Effect.done, place_before_of_listed hdrop hl, Paragraph.beside, Forest.join]
  | after => simp [Effect.done, place_after_of_listed hdrop hl, Paragraph.beside, Forest.join]

end Document

end Redline
