import Redline.Proofs.Document.Accepting

/-!
# A body that is built anew

The first paragraph of a chain at an end of the body goes there, and each other one behind the one
before it; in an emptied body they are all there is.

## Main definitions

* `Forest.atEdge` — a forest with another one at one of its ends.
-/

namespace Redline

/-- A forest with another one at one of its ends. -/
def Forest.atEdge (edge : Edge) (new f : Forest) : Forest :=
  match edge with
  | .start => new ++ f
  | .stop => f ++ new

theorem Forest.rewriteAt_atEdge {edge : Edge} {new f : Forest} {h : Handle}
    {r : Paragraph → Forest} (hf : h ∉ f.listed) :
    (atEdge edge new f).rewriteAt h r = atEdge edge (new.rewriteAt h r) f := by
  cases edge <;> simp [atEdge, rewriteAt_append, rewriteAt_of_notMem hf]

theorem Forest.mem_paragraphs_atEdge {edge : Edge} {new f : Forest} {p : Paragraph}
    (hp : p ∈ new.paragraphs) : p ∈ (atEdge edge new f).paragraphs := by
  cases edge <;> simp [atEdge, hp]

namespace Document

variable {d d' : Document} {p : Paragraph} {insertions : List Insertion} {edge : Edge}

theorem apply_insertInBody (hd : d.WellFormed) (hp : d.IsWaiting p) (text : String)
    (edge : Edge) : (Effect.insertInBody p.handle text edge).apply d =
      ({ d.dropLoose p.handle with body := Forest.atEdge edge p.tree d.body }, none) := by
  simp only [Effect.apply, Effect.applyInsertInBody, hp.newTree_eq hd]
  cases edge <;> rfl

/-- A chain at an end of the body puts its paragraphs there, all of them with their looks and in
order. -/
theorem becomes_bodyChain (hd : d.WellFormed) (ha : d.Awaits insertions)
    (h : d.Becomes (bodyChain edge insertions) d') :
    ∃ news, Dressed d.styles insertions news ∧
      d'.body = Forest.atEdge edge (Forest.join (news.map Paragraph.tree)) d.body := by
  cases insertions with
  | nil =>
    obtain rfl : d' = d := h
    exact ⟨[], .nil, by cases edge <;> simp [Forest.atEdge, Forest.join]⟩
  | cons i rest =>
    have hwait := ha.waiting i List.mem_cons_self
    have hfresh := hwait.notMem_listed hd
    obtain ⟨next, hnext, hwell, hbody, hloose, hstyles⟩ : ∃ next : Document,
        (Effect.insertInBody i.paragraph.handle i.text edge).apply d = (next, none) ∧
          next.WellFormed ∧ next.body = Forest.atEdge edge i.paragraph.tree d.body ∧
          next.loose = (d.dropLoose i.paragraph.handle).loose ∧ next.styles = d.styles := by
      have happly := apply_insertInBody hd hwait i.text edge
      have hwell := keeps_insertInBody i.paragraph.handle i.text edge d hd
      rw [happly] at hwell
      exact ⟨_, happly, hwell, rfl, rfl, rfl⟩
    have hmem : i.paragraph ∈ next.paragraphs := by
      rw [paragraphs, hbody]
      exact Forest.mem_paragraphs_atEdge (by simp)
    rw [bodyChain, becomes_cons, hnext] at h
    obtain ⟨_, heq, hrest⟩ := h
    obtain rfl := (Prod.mk.inj heq).1
    -- The first paragraph gets its looks, and the others go behind it.
    obtain ⟨mid, hlooks, hchain⟩ := becomes_append.1 hrest
    obtain ⟨q, hq, rfl⟩ := (becomes_looks hwell hmem i.looks).1 hlooks
    have hedit := Look.isEdit_giveAll hq
    have hput : (next.put q).body = Forest.atEdge edge q.tree d.body := by
      rw [put, body_rewriteAt, hbody, Forest.rewriteAt_atEdge (hedit.handle ▸ hfresh),
        Forest.rewriteAt_tree, if_pos hedit.handle.symm]
    have hlisted : i.paragraph.handle ∈ (next.put q).body.listed :=
      mem_listed_iff.2 ⟨q, mem_put hmem hedit.handle, hedit.handle⟩
    have hawaits : (next.put q).Awaits rest := by
      have hdropped : ((d.dropLoose i.paragraph.handle).rewriteAt i.paragraph.handle
          Paragraph.tree).Awaits rest := ha.tail
      refine ⟨fun j hj => ?_, hdropped.distinct⟩
      rw [IsWaiting, put, loose_rewriteAt, hloose]
      exact hdropped.waiting j hj
    obtain ⟨news, hnews, rfl⟩ := (becomes_chain (hwell.put hmem hedit) hlisted hawaits).1 hchain
    rw [hstyles] at hq
    have hnews : Dressed next.styles rest news := hnews
    rw [hstyles] at hnews
    refine ⟨q :: news, .cons hq hnews, ?_⟩
    rw [body_rewriteAt, body_dropAll, hput, Forest.rewriteAt_atEdge hfresh, Forest.rewriteAt_tree,
      if_pos hedit.handle]
    rfl

/-- What is put into an emptied body is all that it holds. -/
theorem body_clearBody (hd : d.WellFormed) (ha : d.Awaits insertions)
    (h : d.Becomes (.clearBody :: bodyChain edge insertions) d') :
    ∃ news, Dressed d.styles insertions news ∧ d'.body = Forest.join (news.map Paragraph.tree) := by
  obtain ⟨mid, hclear, hchain⟩ := becomes_cons.1 h
  obtain rfl : (Effect.clearBody.apply d).1 = mid := congrArg Prod.fst hclear
  have hawaits : (Effect.clearBody.apply d).1.Awaits insertions :=
    ⟨fun i hi => List.mem_append_left _ (ha.waiting i hi), ha.distinct⟩
  obtain ⟨news, hnews, hbody⟩ := becomes_bodyChain (keeps_clearBody d hd) hawaits hchain
  refine ⟨news, hnews, hbody.trans ?_⟩
  cases edge <;> simp [Forest.atEdge, Effect.apply, Effect.applyClearBody, Effect.done]

end Document

end Redline
