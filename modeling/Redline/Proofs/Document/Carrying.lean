import Redline.Proofs.Document.Bookmarks
import Redline.Proofs.Document.Rebuilding
import Redline.Proofs.Forest.Carrying

/-!
# Effects that spare marks

An effect may fail in the middle of a flush, and then the document stays as the effects before it
have left it.  So that no mark is ever lost, each effect has to hand the marks on by itself: those
of a range that is cleared stand beside the remnant before its paragraphs go, and the remnant has
none left when it goes.

## Main definitions

* `Document.Sealed` — a well-formed document without marks in text boxes.
* `Document.SparesMarks` — effects that lose nothing, however far they get.
* `Document.Retouches` — an effect that changes one paragraph at most.
-/

namespace Redline

open Forest

namespace Document

variable {d d' mid : Document} {e : Effect} {first second effects : List Effect}
  {r : Paragraph → Forest} {p q : Paragraph} {h anchor keep : Handle} {others : List Handle}
  {insertions : List Insertion} {news : List Paragraph}

/-- A well-formed document without marks in text boxes. -/
structure Sealed (d : Document) : Prop where
  wellFormed : d.WellFormed
  boxes : ∀ p ∈ d.paragraphs, p.content.BoxesUnmarked

/-- However far the effects get, what they lead to carries the marks and the content controls on. -/
structure SparesMarks (d : Document) (effects : List Effect) : Prop where
  carries : d.body.Carries (d.applyAll Effect.apply effects).document.body
  stays : (d.applyAll Effect.apply effects).document.Sealed

/-! ## One effect after the other -/

theorem sparesMarks_nil (hd : d.Sealed) : d.SparesMarks [] := ⟨.refl _, hd⟩

theorem sparesMarks_cons (hc : d.body.Carries (e.apply d).1.body) (hs : (e.apply d).1.Sealed)
    (hrest : (e.apply d).2 = none → (e.apply d).1.SparesMarks effects) :
    d.SparesMarks (e :: effects) := by
  rcases he : e.apply d with ⟨mid, _ | fault⟩
  · rw [he] at hc hrest
    obtain ⟨hcarries, hstays⟩ := hrest rfl
    have happly : d.applyAll Effect.apply (e :: effects) = _ := applyAll_cons_of_done he
    exact ⟨by rw [happly]; exact hc.trans hcarries, by rw [happly]; exact hstays⟩
  · rw [he] at hc hs
    have happly : d.applyAll Effect.apply (e :: effects) = _ := applyAll_cons_of_fault he
    exact ⟨by rw [happly]; exact hc, by rw [happly]; exact hs⟩

theorem document_applyAll_append (d : Document) (first second : List Effect) :
    (d.applyAll Effect.apply (first ++ second)).document =
      match (d.applyAll Effect.apply first).failed with
      | none => ((d.applyAll Effect.apply first).document.applyAll Effect.apply second).document
      | some _ => (d.applyAll Effect.apply first).document := by
  induction first generalizing d with
  | nil => rfl
  | cons e rest ih =>
    rcases he : e.apply d with ⟨mid, _ | fault⟩
    · rw [List.cons_append, applyAll_cons_of_done he, applyAll_cons_of_done he]
      exact ih mid
    · rw [List.cons_append, applyAll_cons_of_fault he, applyAll_cons_of_fault he]

theorem SparesMarks.append (hf : d.SparesMarks first)
    (hs : ∀ mid, d.Becomes first mid → mid.Sealed → mid.SparesMarks second) :
    d.SparesMarks (first ++ second) := by
  have hdocument := document_applyAll_append d first second
  rcases hp : d.applyAll Effect.apply first with ⟨mid, queue, applied, _ | failed⟩
  · have hall := applyAll_of_failed_eq_none (congrArg Progress.failed hp)
    rw [hp] at hdocument
    obtain ⟨hcarries, hstays⟩ := hf
    rw [hp] at hcarries hstays hall
    obtain ⟨hrest, hlast⟩ := hs mid (becomes_iff.2 (hp.trans hall)) hstays
    exact ⟨hdocument ▸ hcarries.trans hrest, hdocument ▸ hlast⟩
  · rw [hp] at hdocument
    obtain ⟨hcarries, hstays⟩ := hf
    rw [hp] at hcarries hstays
    exact ⟨hdocument ▸ hcarries, hdocument ▸ hstays⟩

theorem carries_of_rewrite (hw : d'.WellFormed) (hb : d'.body = d.body.rewrite r)
    (hr : ∀ p ∈ d.paragraphs, p.HandsOn (r p)) : d.body.Carries d'.body ∧ d'.Sealed := by
  obtain ⟨hcarries, hboxes⟩ := carries_rewrite hr
  exact ⟨hb ▸ hcarries, hw, fun q hq => hboxes q (by rwa [paragraphs, hb] at hq)⟩

theorem Sealed.carries_of_rewriteAt (hd : d.Sealed) (hw : d'.WellFormed)
    (hb : d'.body = d.body.rewriteAt h r)
    (hr : ∀ p ∈ d.paragraphs, p.handle = h → p.HandsOn (r p)) :
    d.body.Carries d'.body ∧ d'.Sealed := by
  refine carries_of_rewrite hw hb fun p hp => ?_
  split
  · next hh => exact hr p hp hh
  · exact Paragraph.handsOn_tree (hd.boxes p hp)

/-! ## Effects on one paragraph -/

/-- The effect changes one paragraph at most, and not the marks of that. -/
def Retouches (d : Document) (e : Effect) : Prop :=
  ∃ p ∈ d.paragraphs, ∃ q, p.IsEdit q ∧ p.HandsOn q.tree ∧ (e.apply d).1 = d.put q

theorem handsOn_of_content (hs : q.content.starts = p.content.starts)
    (ht : q.content.stops = p.content.stops) (hb : q.content.BoxesUnmarked) : p.HandsOn q.tree :=
  ⟨by simpa [Paragraph.tree, single] using hs, by simpa [Paragraph.tree, single] using ht, rfl,
    by simpa using hb⟩

/-- An effect that changes nothing. -/
theorem retouches_of_unchanged (hd : d.Sealed) (hp : p ∈ d.paragraphs) (he : (e.apply d).1 = d) :
    d.Retouches e :=
  ⟨p, hp, p, .refl p, Paragraph.handsOn_tree (hd.boxes p hp),
    he.trans (put_self hd.wellFormed hp).symm⟩

theorem listed_put (d : Document) (q : Paragraph) : (d.put q).body.listed = d.body.listed := by
  refine listed_rewrite_of_listed fun x => ?_
  split
  · next hx => simp [hx]
  · rfl

theorem sparesMarks_of_retouches (hd : d.Sealed)
    (he : ∀ d' : Document, d'.Sealed → d'.body.listed = d.body.listed → ∀ e ∈ effects,
      d'.Retouches e) : d.SparesMarks effects := by
  induction effects generalizing d with
  | nil => exact sparesMarks_nil hd
  | cons e rest ih =>
    obtain ⟨p, hp, q, hedit, hq, happly⟩ := he d hd rfl e List.mem_cons_self
    have hwell := hd.wellFormed.put hp hedit
    obtain ⟨hcarries, hstays⟩ := hd.carries_of_rewriteAt hwell rfl fun x hx hh => by
      rwa [hd.wellFormed.eq_of_handle_eq hx hp (hh.trans hedit.handle)]
    rw [← happly] at hcarries hstays
    refine sparesMarks_cons hcarries hstays fun _ => ih hstays fun d' hd' hlisted x hx => ?_
    refine he d' hd' (hlisted.trans ?_) x (List.mem_cons_of_mem _ hx)
    rw [happly, listed_put]

/-- A look that cannot be given changes nothing. -/
theorem apply_look_fault {look : Look} {fault : Fault}
    (he : (look.effect h).apply d = (d', some fault)) : d' = d := by
  cases look with
  | style name =>
    cases hs : d.styles.resolve name <;>
      simp_all [Look.effect, Effect.apply, Effect.applySetStyle, Effect.withValue, Effect.fails,
        Effect.done]
  | color digits =>
    cases hc : Effect.runColor digits.toList <;>
      simp_all [Look.effect, Effect.apply, Effect.applySetColor, Effect.withValue, Effect.fails,
        Effect.done]
  | bold value => simp [Look.effect, Effect.apply, Effect.applySetBold, Effect.done] at he
  | alignment name =>
    cases ha : Alignment.ofName? name <;>
      simp_all [Look.effect, Effect.apply, Effect.applySetAlignment, Effect.fails, Effect.done]

theorem handsOn_give {sheet : Stylesheet} {look : Look} (hp : p.content.BoxesUnmarked)
    (h : look.give sheet p = some q) : p.HandsOn q.tree := by
  have hformat : ∀ change, p.HandsOn
      { p with content := p.content.formatRuns change : Paragraph }.tree := fun change =>
    handsOn_of_content (by simp) (by simp) (by simpa [BoxesUnmarked] using hp)
  cases look with
  | style name =>
    obtain ⟨_, _, rfl⟩ := Option.map_eq_some_iff.1 h
    exact handsOn_of_content rfl rfl hp
  | color digits =>
    obtain ⟨_, _, rfl⟩ := Option.map_eq_some_iff.1 h
    exact hformat _
  | bold value =>
    obtain rfl := Option.some.inj h
    exact hformat _
  | alignment name =>
    obtain ⟨_, _, rfl⟩ := Option.map_eq_some_iff.1 h
    exact handsOn_of_content rfl rfl hp

theorem retouches_look (hd : d.Sealed) (hl : h ∈ d.body.listed) (look : Look) :
    d.Retouches (look.effect h) := by
  obtain ⟨p, hp, rfl⟩ := mem_listed_iff.1 hl
  rcases he : (look.effect p.handle).apply d with ⟨mid, _ | fault⟩
  · obtain ⟨q, hq, rfl⟩ := (apply_look hd.wellFormed hp look).1 he
    exact ⟨p, hp, q, Look.isEdit_give hq, handsOn_give (hd.boxes p hp) hq, by rw [he]⟩
  · exact retouches_of_unchanged hd hp (by rw [he]; exact apply_look_fault he)

theorem retouches_replace (hd : d.Sealed) {found : Match} (hl : found.paragraph ∈ d.body.listed)
    (text : String) : d.Retouches (.replace found text) := by
  obtain ⟨p, hp, hh⟩ := mem_listed_iff.1 hl
  by_cases hfresh :
      (p.content.runText.drop found.start).take (found.stop - found.start) = found.text
  · obtain ⟨hs, ht, hb⟩ := spliceFrom_carries found.start found.stop 0 text.toList (hd.boxes p hp)
    refine ⟨p, hp, { p with
        content := (p.content.spliceRuns found.start found.stop text.toList).1 },
      ⟨rfl, ofKind_spliceFrom, handles_spliceFrom_sublist _⟩, handsOn_of_content hs ht hb, ?_⟩
    rw [apply_replace_of_fresh hd.wellFormed hp hh hfresh]
  · have hinside : d.inside found.paragraph = p.content :=
      hh ▸ hd.wellFormed.inside_eq_content hp
    refine retouches_of_unchanged hd hp ?_
    simp only [Effect.apply, Effect.applyReplace, hinside, if_pos hfresh, Effect.fails]

theorem sparesMarks_looks (hd : d.Sealed)
    (he : ∀ e ∈ effects, ∃ look : Look, ∃ h ∈ d.body.listed, e = look.effect h) :
    d.SparesMarks effects :=
  sparesMarks_of_retouches hd fun d' hd' hlisted e hmem => by
    obtain ⟨look, h, hl, rfl⟩ := he e hmem
    exact retouches_look hd' (hlisted ▸ hl) look

/-! ## New paragraphs -/

theorem labels_join_tree (news : List Paragraph) :
    (Forest.join (news.map Paragraph.tree)).labels = [] :=
  labels_eq_nil_iff.2 (controls_join_tree news)

theorem handsOn_beside (hp : p.content.BoxesUnmarked) (hn : ∀ q ∈ news, q.content.Unmarked)
    (side : Side) : p.HandsOn (p.beside side news) := by
  have hstarts : (Forest.join (news.map Paragraph.tree)).starts = [] :=
    collect_join_tree _ (fun _ => rfl) fun q hq => (hn q hq).starts
  have hstops : (Forest.join (news.map Paragraph.tree)).stops = [] :=
    collect_join_tree _ (fun _ => rfl) fun q hq => (hn q hq).stops
  have hboxes : ∀ q ∈ news, q.content.BoxesUnmarked := fun q hq =>
    boxesUnmarked_of_unmarked (hn q hq).starts (hn q hq).stops
  obtain ⟨hs, ht, _, hb⟩ := Paragraph.handsOn_tree hp
  cases side with
  | before =>
    refine ⟨by simp [Paragraph.beside, hstarts, hs], by simp [Paragraph.beside, hstops, ht],
      by simp [Paragraph.beside, labels_join_tree], fun q hq => ?_⟩
    simp only [Paragraph.beside, paragraphs_append, paragraphs_join_tree, List.mem_append] at hq
    exact hq.elim (hboxes q) (hb q)
  | after =>
    refine ⟨by simp [Paragraph.beside, hstarts, hs], by simp [Paragraph.beside, hstops, ht],
      by simp [Paragraph.beside, labels_join_tree], fun q hq => ?_⟩
    simp only [Paragraph.beside, paragraphs_append, paragraphs_join_tree, List.mem_append] at hq
    exact hq.elim (hb q) (hboxes q)

/-- A chain of new paragraphs spares the marks, wherever it breaks off. -/
theorem sparesMarks_chain {side : Side} (hd : d.Sealed) (hl : anchor ∈ d.body.listed)
    (ha : d.Awaits insertions) (hi : ∀ i ∈ insertions, i.paragraph.content.Unmarked) :
    d.SparesMarks (chain side anchor insertions) := by
  induction insertions generalizing d anchor side with
  | nil => exact sparesMarks_nil hd
  | cons i rest ih =>
    obtain ⟨hfirst, hrest⟩ := List.forall_mem_cons.1 hi
    have hwait := ha.waiting i List.mem_cons_self
    have hwell := hd.wellFormed.inserted hl hwait side (.refl i.paragraph)
    have hmem := mem_inserted (q := i.paragraph) hl side i.paragraph.handle
    obtain ⟨hcarries, hstays⟩ := hd.carries_of_rewriteAt hwell rfl fun p hp _ =>
      handsOn_beside (hd.boxes p hp) (by simpa using hfirst) side
    have happly := insertBeside_eq hd.wellFormed hl hwait i.text side
    refine sparesMarks_cons (by rw [happly]; exact hcarries) (by rw [happly]; exact hstays)
      fun _ => ?_
    rw [happly]
    refine (sparesMarks_looks hstays fun e he => ?_).append fun mid hmid hsealed => ?_
    · obtain ⟨look, _, rfl⟩ := List.mem_map.1 he
      exact ⟨look, _, mem_listed_iff.2 ⟨_, hmem, rfl⟩, rfl⟩
    · -- The paragraph has got its looks, and the others go behind it.
      obtain ⟨q, hq, rfl⟩ := (becomes_looks hwell hmem i.looks).1 hmid
      have hedit := Look.isEdit_giveAll hq
      refine ih hsealed (mem_listed_iff.2 ⟨q, mem_put hmem hedit.handle, hedit.handle⟩) ?_ hrest
      rw [put_inserted hd.wellFormed hwait side hedit.handle]
      exact ha.tail

/-- What is put at an end of the body takes nothing away. -/
theorem carries_atEdge (edge : Edge) (hp : p.content.Unmarked) (f : Forest) :
    f.Carries (atEdge edge p.tree f) := by
  have hstarts : p.tree.starts = [] := by simpa [Paragraph.tree, single] using hp.starts
  have hstops : p.tree.stops = [] := by simpa [Paragraph.tree, single] using hp.stops
  cases edge with
  | start => exact ⟨by simp [atEdge, hstarts], by simp [atEdge, hstops], by simp [atEdge]⟩
  | stop => exact ⟨by simp [atEdge, hstarts], by simp [atEdge, hstops], by simp [atEdge]⟩

theorem eq_or_mem_of_mem_atEdge {edge : Edge} {f : Forest}
    (hq : q ∈ (atEdge edge p.tree f).paragraphs) : q = p ∨ q ∈ f.paragraphs := by
  cases edge <;> simp_all [atEdge, or_comm]

/-- So does a chain at an end of the body. -/
theorem sparesMarks_bodyChain (edge : Edge) (hd : d.Sealed) (ha : d.Awaits insertions)
    (hi : ∀ i ∈ insertions, i.paragraph.content.Unmarked) :
    d.SparesMarks (bodyChain edge insertions) := by
  cases insertions with
  | nil => exact sparesMarks_nil hd
  | cons i rest =>
    obtain ⟨hfirst, hrest⟩ := List.forall_mem_cons.1 hi
    have hwait := ha.waiting i List.mem_cons_self
    obtain ⟨next, hnext, hbody, hloose⟩ : ∃ next : Document,
        (Effect.insertInBody i.paragraph.handle i.text edge).apply d = (next, none) ∧
          next.body = atEdge edge i.paragraph.tree d.body ∧
          next.loose = (d.dropLoose i.paragraph.handle).loose :=
      ⟨_, apply_insertInBody hd.wellFormed hwait i.text edge, rfl, rfl⟩
    have hwell := keeps_insertInBody i.paragraph.handle i.text edge d hd.wellFormed
    rw [hnext] at hwell
    have hmem : i.paragraph ∈ next.paragraphs := by
      rw [paragraphs, hbody]
      exact mem_paragraphs_atEdge (by simp)
    have hstays : next.Sealed := by
      refine ⟨hwell, fun q hq => ?_⟩
      rw [paragraphs, hbody] at hq
      rcases eq_or_mem_of_mem_atEdge hq with rfl | hq
      · exact boxesUnmarked_of_unmarked hfirst.starts hfirst.stops
      · exact hd.boxes q hq
    have hcarries : d.body.Carries next.body := hbody ▸ carries_atEdge edge hfirst d.body
    refine sparesMarks_cons (by rw [hnext]; exact hcarries) (by rw [hnext]; exact hstays)
      fun _ => ?_
    rw [hnext]
    refine (sparesMarks_looks hstays fun e he => ?_).append fun mid hmid hsealed => ?_
    · obtain ⟨look, _, rfl⟩ := List.mem_map.1 he
      exact ⟨look, _, mem_listed_iff.2 ⟨_, hmem, rfl⟩, rfl⟩
    · obtain ⟨q, hq, rfl⟩ := (becomes_looks hwell hmem i.looks).1 hmid
      have hedit := Look.isEdit_giveAll hq
      have hdropped : ((d.dropLoose i.paragraph.handle).rewriteAt i.paragraph.handle
          Paragraph.tree).Awaits rest := ha.tail
      refine sparesMarks_chain hsealed
        (mem_listed_iff.2 ⟨q, mem_put hmem hedit.handle, hedit.handle⟩) ⟨fun j hj => ?_,
          hdropped.distinct⟩ hrest
      rw [IsWaiting, put, loose_rewriteAt, hloose]
      exact hdropped.waiting j hj

/-! ## Replacing a range -/

section
variable (hd : d.Sealed) (hs : (keep :: others).Sublist d.body.listed)
include hd hs

/-- When a range is cleared, its marks stand beside the remnant. -/
theorem carries_clear :
    d.body.Carries (d.clear keep others).body ∧ (d.clear keep others).Sealed ∧
      ∀ p ∈ (d.clear keep others).paragraphs, p.handle = keep → p.content = .nil := by
  have hn := hd.wellFormed.nodup_listed.sublist hs
  obtain ⟨hbody, _, _⟩ := clear_spec hd.wellFormed hn hs.subset
  have hwell := keeps_clearRange keep others d hd.wellFormed
  rw [apply_clearRange hd.wellFormed hn (hs.subset List.mem_cons_self)] at hwell
  -- Only paragraphs that are emptied and paragraphs that stay as they are are left.
  have hleft : ∀ q ∈ (d.clear keep others).paragraphs,
      q.content = .nil ∨ (q ∈ d.paragraphs ∧ q.handle ≠ keep) := by
    intro q hq
    rw [paragraphs, hbody, paragraphs_rewrite, List.mem_flatMap] at hq
    obtain ⟨p, hp, hq⟩ := hq
    unfold cleared at hq
    split at hq
    · obtain rfl : q = p.emptied := by
        simpa [(allMarks_startsOf _ d).paragraphs_eq, (allMarks_endsOf _ d).paragraphs_eq] using hq
      exact .inl rfl
    · next hne =>
      unfold leave at hq
      split at hq
      · split at hq
        · obtain rfl : q = p.emptied := by simpa using hq
          exact .inl rfl
        · simp at hq
      · obtain rfl : q = p := by simpa using hq
        exact .inr ⟨hp, hne⟩
  refine ⟨⟨?_, ?_, ?_⟩, ⟨hwell, fun q hq => ?_⟩, fun q hq hh => ?_⟩
  · exact hbody ▸ perm_starts_cleared hd.wellFormed hs fun p _ => rfl
  · exact hbody ▸ perm_stops_cleared hd.wellFormed hs fun p _ => rfl
  · exact hbody ▸ labels_rewrite fun p _ =>
      labels_eq_nil_iff.2 (controls_cleared (fun _ => rfl) d keep others p)
  · rcases hleft q hq with hnil | ⟨hq, _⟩
    · exact hnil ▸ boxesUnmarked_of_unmarked rfl rfl
    · exact hd.boxes q hq
  · exact (hleft q hq).resolve_right fun hstays => hstays.2 hh

end

/-- A paragraph without content has nothing to lose. -/
theorem sparesMarks_delete (hd : d.Sealed) (hl : keep ∈ d.body.listed)
    (hk : ∀ p ∈ d.paragraphs, p.handle = keep → p.content = .nil) :
    d.SparesMarks [.delete keep] := by
  have hplaced := hd.wellFormed.standing_eq_placed ((listed_sublist_handles _).subset hl)
  have happly : (Effect.delete keep).apply d = (d.removeParagraph keep, none) := by
    simp [Effect.apply, Effect.applyDelete, hplaced, Effect.done]
  obtain ⟨hcarries, hstays⟩ := hd.carries_of_rewriteAt (hd.wellFormed.removeParagraph keep)
    (body_removeParagraph hd.wellFormed hl) fun p hp hh => by
      have hnil := hk p hp hh
      split
      · exact handsOn_of_content (by simp [hnil, Paragraph.emptied])
          (by simp [hnil, Paragraph.emptied]) (boxesUnmarked_of_unmarked rfl rfl)
      · exact ⟨by simp [hnil], by simp [hnil], rfl, by simp⟩
  refine sparesMarks_cons (by rw [happly]; exact hcarries) (by rw [happly]; exact hstays)
    fun _ => ?_
  rw [happly]
  exact sparesMarks_nil hstays

/-- A range is replaced without a mark being lost on the way. -/
theorem sparesMarks_replacement (hd : d.Sealed) (hs : (keep :: others).Sublist d.body.listed)
    (ha : d.Awaits insertions) (hi : ∀ i ∈ insertions, i.paragraph.content.Unmarked) :
    d.SparesMarks (replacementEffects keep others insertions) := by
  have hn := hd.wellFormed.nodup_listed.sublist hs
  obtain ⟨hcarries, hstays, hempty⟩ := carries_clear hd hs
  obtain ⟨hwell, hkeep, hawaits⟩ := ready_clear hd.wellFormed hn hs.subset ha
  have happly := apply_clearRange hd.wellFormed hn (hs.subset List.mem_cons_self)
  refine sparesMarks_cons (by rw [happly]; exact hcarries) (by rw [happly]; exact hstays)
    fun _ => ?_
  rw [happly]
  refine (sparesMarks_chain hstays hkeep hawaits hi).append fun mid hmid hsealed => ?_
  obtain ⟨news, hnews, rfl⟩ := (becomes_chain hwell hkeep hawaits).1 hmid
  have hfresh : ∀ q ∈ news, q.handle ≠ keep := by
    intro q hq hk
    have hmem : q.handle ∈ insertions.map (·.paragraph.handle) :=
      hnews.map_handle ▸ List.mem_map_of_mem hq
    obtain ⟨i, hi, he⟩ := List.mem_map.1 hmem
    exact (hawaits.waiting i hi).notMem_listed hwell ((he.trans hk).symm ▸ hkeep)
  refine sparesMarks_delete hsealed ?_ fun p hp hh => ?_
  · exact mem_listed_rewriteAt (by simpa using hkeep) fun p _ hp _ => by
      simp [Paragraph.beside, hp]
  · rw [paragraphs, body_rewriteAt, body_dropAll, paragraphs_rewriteAt, List.mem_flatMap] at hp
    obtain ⟨x, hx, hp⟩ := hp
    split at hp
    · simp only [Paragraph.beside, paragraphs_append, paragraphs_join_tree, paragraphs_tree,
        List.mem_append, List.mem_singleton] at hp
      rcases hp with hp | rfl
      · exact absurd hh (hfresh p hp)
      · exact hempty p hx hh
    · next hne =>
      obtain rfl := List.mem_singleton.1 hp
      exact absurd hh hne

end Document

end Redline
