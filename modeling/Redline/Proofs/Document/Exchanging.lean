import Redline.Proofs.Document.Carrying
import Redline.Proofs.Document.Covering

/-!
# A paragraph that gives way to another one

When one paragraph of a forest gives way to another one with the same handle and the same text
boxes, the bookmarks that open in it are exchanged for those that open in the new one, and so are
the ends.  What opens or closes elsewhere is the same as before, in the same order.

## Main definitions

* `Forest.Exchanged` — one paragraph has given way to another one, at one place.

## Main results

* `Forest.Exchanged.exists_bookmarksIn`, `Forest.Exchanged.exists_bookmarkEndsIn` — what becomes of
  the bookmarks and of their ends.
* `Document.WellFormed.exchanged_put` — putting a paragraph in the place of another one is such an
  exchange.
-/

namespace Redline

namespace Forest

/-- The paragraph `q` stands in the second forest where `p` stands in the first; all else is the
same. -/
inductive Exchanged (p q : Paragraph) : Forest → Forest → Prop where
  | here (rest : Forest) :
    Exchanged p q (.cons p.element p.content rest) (.cons q.element q.content rest)
  | inside {e : Element} {f g : Forest} (he : e.isParagraph = false) (rest : Forest) :
    Exchanged p q f g → Exchanged p q (.cons e f rest) (.cons e g rest)
  | behind (e : Element) (inside : Forest) {f g : Forest} :
    Exchanged p q f g → Exchanged p q (.cons e inside f) (.cons e inside g)

variable {p q : Paragraph} {f g : Forest}

/-- Where handles tell paragraphs apart, putting one in the place of another exchanges the two. -/
theorem exchanged_rewriteAt (hn : f.listed.Nodup) (hp : p ∈ f.paragraphs) (q : Paragraph) :
    f.Exchanged p q (f.rewriteAt p.handle fun _ => q.tree) := by
  induction f using paragraphInduction with
  | nil => cases hp
  | paragraph other rest _ ih =>
    rw [listed_cons_paragraph, List.nodup_cons] at hn
    rw [← tree_append, rewriteAt_append, rewriteAt_tree]
    rcases List.mem_cons.1 hp with rfl | hp
    · rw [if_pos rfl, rewriteAt_of_notMem hn.1, tree_append, tree_append]
      exact .here rest
    · have hne : other.handle ≠ p.handle := fun he => hn.1 (he ▸ List.mem_map_of_mem hp)
      rw [if_neg hne, tree_append, tree_append]
      exact .behind _ _ (ih hn.2 hp)
  | other e inside rest he ihi ihr =>
    rw [listed_cons_other _ _ he, List.nodup_append] at hn
    obtain ⟨hinside, hrest, hapart⟩ := hn
    rw [rewriteAt, rewrite_cons_other _ _ he]
    rw [paragraphs_cons_other _ _ he, List.mem_append] at hp
    rcases hp with hp | hp
    · have hnot : p.handle ∉ rest.listed := fun h =>
        hapart _ (List.mem_map_of_mem hp) _ h rfl
      have hsame := rewriteAt_of_notMem (r := fun _ => q.tree) hnot
      rw [rewriteAt] at hsame
      rw [hsame]
      exact .inside he rest (ihi hinside hp)
    · have hnot : p.handle ∉ inside.listed := fun h =>
        hapart _ h _ (List.mem_map_of_mem hp) rfl
      have hsame := rewriteAt_of_notMem (r := fun _ => q.tree) hnot
      rw [rewriteAt] at hsame
      rw [hsame]
      exact .behind e inside (ihr hrest hp)

namespace Exchanged

variable (h : Exchanged p q f g) (hh : q.handle = p.handle)
  (hbox : q.content.everyParagraph = p.content.everyParagraph)
include h hh hbox

theorem everyParagraph_eq : g.everyParagraph = f.everyParagraph := by
  induction h with
  | here rest => rw [everyParagraph_cons_paragraph, everyParagraph_cons_paragraph, hh, hbox]
  | inside he rest _ ih => rw [everyParagraph_cons_other he, everyParagraph_cons_other he, ih]
  | behind e inside _ ih => cases e <;> simp [everyParagraph, ih]

/-- The bookmarks of the one paragraph give way to those of the other. -/
theorem exists_bookmarksIn (holder : Option Handle) :
    ∃ before after,
      f.bookmarksIn holder = before ++ (p.content.bookmarksIn (some p.handle) ++ after) ∧
      g.bookmarksIn holder = before ++ (q.content.bookmarksIn (some p.handle) ++ after) := by
  induction h generalizing holder with
  | here rest =>
    refine ⟨[], rest.bookmarksIn holder, ?_, ?_⟩
    · rw [bookmarksIn_cons]
      rfl
    · rw [bookmarksIn_cons, ← hh]
      rfl
  | @inside e f g he rest _ ih =>
    obtain ⟨before, after, hf, hg⟩ := ih holder
    refine ⟨e.opens.map (fun s => ⟨s.1, s.2, holder <|> rest.everyParagraph.head?⟩) ++ before,
      after ++ rest.bookmarksIn holder, ?_, ?_⟩
    · rw [bookmarksIn_cons, holderInside_other he, hf]
      simp only [List.append_assoc]
    · rw [bookmarksIn_cons, holderInside_other he, hg]
      simp only [List.append_assoc]
  | @behind e inside f g hfg ih =>
    obtain ⟨before, after, hf, hg⟩ := ih holder
    refine ⟨e.opens.map (fun s => ⟨s.1, s.2, holder <|> f.everyParagraph.head?⟩) ++
      (inside.bookmarksIn (holderInside e holder) ++ before), after, ?_, ?_⟩
    · rw [bookmarksIn_cons, hf]
      simp only [List.append_assoc]
    · rw [bookmarksIn_cons, hg, hfg.everyParagraph_eq hh hbox]
      simp only [List.append_assoc]

/-- The ends in the one paragraph give way to those in the other. -/
theorem exists_bookmarkEndsIn (holder last : Option Handle) :
    ∃ before after,
      f.bookmarkEndsIn holder last =
        before ++ (p.content.bookmarkEndsIn (some p.handle) none ++ after) ∧
      g.bookmarkEndsIn holder last =
        before ++ (q.content.bookmarkEndsIn (some p.handle) none ++ after) := by
  induction h generalizing holder last with
  | here rest =>
    refine ⟨[], rest.bookmarkEndsIn holder (some p.handle), ?_, ?_⟩
    · rw [bookmarkEndsIn_cons]
      rfl
    · rw [bookmarkEndsIn_cons, ← hh]
      rfl
  | @inside e f g he rest hfg ih =>
    obtain ⟨before, after, hf, hg⟩ := ih holder none
    refine ⟨e.closes.map (fun id => ⟨id, holder <|> last⟩) ++ before,
      after ++ rest.bookmarkEndsIn holder (lastParagraph e f <|> last), ?_, ?_⟩
    · rw [bookmarkEndsIn_cons, holderInside_other he, hf]
      simp only [List.append_assoc]
    · rw [bookmarkEndsIn_cons, holderInside_other he, hg, lastParagraph_other he,
        lastParagraph_other he, hfg.everyParagraph_eq hh hbox]
      simp only [List.append_assoc]
  | @behind e inside f g _ ih =>
    obtain ⟨before, after, hf, hg⟩ := ih holder (lastParagraph e inside <|> last)
    refine ⟨e.closes.map (fun id => ⟨id, holder <|> last⟩) ++
      (inside.bookmarkEndsIn (holderInside e holder) none ++ before), after, ?_, ?_⟩
    · rw [bookmarkEndsIn_cons, hf]
      simp only [List.append_assoc]
    · rw [bookmarkEndsIn_cons, hg]
      simp only [List.append_assoc]

/-- Paragraphs with the same bookmarks exchange for each other unnoticed. -/
theorem bookmarksIn_eq (hs : q.content.bookmarksIn (some p.handle) =
    p.content.bookmarksIn (some p.handle)) (holder : Option Handle) :
    g.bookmarksIn holder = f.bookmarksIn holder := by
  obtain ⟨before, after, hf, hg⟩ := h.exists_bookmarksIn hh hbox holder
  rw [hf, hg, hs]

theorem bookmarkEndsIn_eq (hs : q.content.bookmarkEndsIn (some p.handle) none =
    p.content.bookmarkEndsIn (some p.handle) none) (holder last : Option Handle) :
    g.bookmarkEndsIn holder last = f.bookmarkEndsIn holder last := by
  obtain ⟨before, after, hf, hg⟩ := h.exists_bookmarkEndsIn hh hbox holder last
  rw [hf, hg, hs]

end Exchanged

/-- The paragraphs of a bookmark are told by the list of paragraphs and by the end with its id. -/
theorem bookmarkRange_congr (hl : g.listed = f.listed) {b : Bookmark}
    (hc : g.closing b.id = f.closing b.id) : g.bookmarkRange b = f.bookmarkRange b := by
  rw [bookmarkRange_eq_through, bookmarkRange_eq_through, hl, hc]

end Forest

namespace Document

variable {d : Document} {p q : Paragraph}

theorem WellFormed.exchanged_put (hd : d.WellFormed) (hp : p ∈ d.paragraphs)
    (hh : q.handle = p.handle) : d.body.Exchanged p q (d.put q).body := by
  rw [Document.put, hh]
  exact Forest.exchanged_rewriteAt hd.nodup_listed hp q

theorem paragraphs_put (q : Paragraph) (d : Document) : (d.put q).paragraphs =
    d.paragraphs.map fun p => if p.handle = q.handle then q else p := by
  rw [put_eq_rewrite, paragraphs_rewrite_tree]

end Document

end Redline
