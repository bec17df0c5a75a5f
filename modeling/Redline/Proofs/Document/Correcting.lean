import Redline.Proofs.Document.Edits
import Redline.Proofs.Editing
import Redline.Proofs.Forest.Correcting

/-!
# Correcting the paragraphs of a document

The corrections of a document are queued from the last match to the first, so that each one still
finds the text it is to replace.  Together they make all matches of all paragraphs give way, each
where the search has found it.

## Main definitions

* `Paragraph.corrected` — a paragraph whose matches have given way to a new text.
* `Document.corrections` — the effects that correct a document.
-/

namespace Redline

open Redline.Text

variable {spans later : List Span} {s : Span} {new : List Char} {p : Paragraph}

/-- A paragraph whose matches have given way to a new text. -/
def Paragraph.corrected (spans : List Span) (new : List Char) (p : Paragraph) : Paragraph :=
  { p with content := p.content.corrected spans new 0 }

theorem Paragraph.isEdit_corrected {replacement : List Char} (hw : isWritable replacement = true) :
    p.IsEdit (p.corrected spans (replacement.map readBack)) :=
  ⟨rfl, fun hc => Forest.ofKind_corrected hc fun c h =>
    (isReadable_iff.1 (Forest.isReadable_map_readBack hw c h)).1, Forest.handles_corrected_sublist _⟩

theorem Paragraph.corrected_nil (p : Paragraph) : p.corrected [] new = p := by
  rw [corrected, Forest.corrected_nil]

namespace Document

variable {d : Document} {search : List Char} {matchCase : Bool} {replacement : String}

/-- The effect for a match of a paragraph. -/
def correction (p : Paragraph) (replacement : String) (s : Span) : Effect :=
  .replace ⟨p.handle, s.start, s.stop,
    (p.content.runText.drop s.start).take (s.stop - s.start)⟩ replacement

/-- The effects that correct a document, those for the last matches first. -/
def corrections (search : List Char) (matchCase : Bool) (replacement : String) (d : Document) :
    List Effect :=
  (d.search (.literal search matchCase false)).reverse.map (Effect.replace · replacement)

theorem map_search (d : Document) (pattern : Pattern) :
    (d.search pattern).map (Effect.replace · replacement) =
      d.paragraphs.flatMap fun p =>
        (pattern.spans p.content.runText).map (correction p replacement) := by
  simp only [search, List.map_flatMap, List.map_map]
  rfl

theorem corrections_eq (d : Document) :
    d.corrections search matchCase replacement =
      (d.paragraphs.flatMap fun p =>
        ((Pattern.literal search matchCase false).spans p.content.runText).map
          (correction p replacement)).reverse := by
  rw [corrections, List.map_reverse, map_search]

section
variable (hd : d.WellFormed) (hp : p ∈ d.paragraphs) (hw : isWritable replacement.toList = true)
include hd hp hw

/-- A match is replaced when those behind it have given way. -/
theorem apply_correction (h : InOrder (s :: later)) (hstop : s.stop ≤ p.content.runText.length)
    (hreturn : p.content.keepsReturn (s :: later) 0 = false) :
    (correction p replacement s).apply
        (d.put (p.corrected later (replacement.toList.map readBack))) =
      (d.put (p.corrected (s :: later) (replacement.toList.map readBack)), none) := by
  set q := p.corrected later (replacement.toList.map readBack) with hq
  have hedit : p.IsEdit q := Paragraph.isEdit_corrected hw
  have hmem : q ∈ (d.put q).paragraphs := mem_put hp hedit.handle
  have hfresh : (q.content.runText.drop s.start).take (s.stop - s.start) =
      (p.content.runText.drop s.start).take (s.stop - s.start) := by
    rw [hq, Paragraph.corrected, Forest.runText_corrected, stretch_corrected h hstop]
  have hallowed : p.content.OfKind isAllowed := (hd.writable _ List.mem_cons_self).content hp
  have hsplice : q.content.spliceRuns s.start s.stop replacement.toList =
      (p.content.corrected (s :: later) (replacement.toList.map readBack) 0, true) := by
    have := Forest.spliceFrom_corrected 0 h hallowed hw hreturn
    rwa [if_pos (Nat.zero_le _)] at this
  rw [correction, apply_replace_of_fresh (hd.put hp hedit) hmem rfl hfresh, hsplice]
  exact congrArg (·, none) (put_put rfl)

/-- The corrections of one paragraph make its matches give way. -/
theorem becomes_corrected (h : InOrder spans)
    (hstop : ∀ s ∈ spans, s.stop ≤ p.content.runText.length)
    (hreturn : p.content.keepsReturn spans 0 = false) :
    d.Becomes (spans.map (correction p replacement)).reverse
      (d.put (p.corrected spans (replacement.toList.map readBack))) := by
  induction spans with
  | nil => rw [Paragraph.corrected_nil, put_self hd hp]; rfl
  | cons s later ih =>
    rw [List.map_cons, List.reverse_cons, becomes_append]
    refine ⟨_, ih h.of_cons (fun t ht => hstop t (List.mem_cons_of_mem s ht))
      (Forest.keepsReturn_of_cons h hreturn), _, ?_, rfl⟩
    exact apply_correction hd hp hw h (hstop s List.mem_cons_self) hreturn

end

/-- Effects that change paragraphs each on its own, from the last one to the first, change these
and leave all others alone. -/
theorem becomes_flatMap_reverse (effects : Paragraph → List Effect)
    (change : Paragraph → Paragraph) (hedit : ∀ p : Paragraph, p.IsEdit (change p))
    (hd : d.WellFormed) {ps : List Paragraph} (hsub : ps ⊆ d.paragraphs) (hn : ps.Nodup)
    (hchange : ∀ p ∈ ps, ∀ {d : Document}, d.WellFormed → p ∈ d.paragraphs →
      d.Becomes (effects p).reverse (d.put (change p))) :
    d.Becomes (ps.flatMap effects).reverse
      (d.rewrite fun p => (if p ∈ ps then change p else p).tree) := by
  have hsome : ∀ (ps : List Paragraph) (p : Paragraph),
      p.IsEdit (if p ∈ ps then change p else p) := by
    intro ps p
    split
    · exact hedit p
    · exact .refl p
  induction ps with
  | nil => simp [rewrite, Forest.rewrite_self]
  | cons p ps ih =>
    rw [List.nodup_cons] at hn
    have hp : p ∈ d.paragraphs := hsub List.mem_cons_self
    have hmem : p ∈ (d.rewrite fun x => (if x ∈ ps then change x else x).tree).paragraphs := by
      rw [paragraphs_rewrite_tree]
      exact List.mem_map.2 ⟨p, hp, if_neg hn.1⟩
    have hput : (d.rewrite fun x => (if x ∈ p :: ps then change x else x).tree) =
        (d.rewrite fun x => (if x ∈ ps then change x else x).tree).put (change p) := by
      rw [put_eq_rewrite, rewrite, rewrite, rewrite, Forest.rewrite_rewrite]
      congr 1
      refine Forest.rewrite_congr fun x hx => ?_
      rw [Forest.rewrite_tree, (hsome ps x).handle, (hedit p).handle]
      congr 1
      by_cases he : x = p
      · simp [he]
      · rw [if_neg fun hh => he (hd.eq_of_handle_eq hx hp hh)]
        simp [he]
    obtain ⟨hfirst, hrest⟩ := List.forall_mem_cons.1 hchange
    rw [List.flatMap_cons, List.reverse_append, becomes_append, hput]
    exact ⟨_, ih (fun q hq => hsub (List.mem_cons_of_mem p hq)) hn.2 hrest,
      hfirst (hd.edited fun x _ => hsome ps x) hmem⟩

/-- No run keeps a return when a match gives way in it: it holds none, or those that it holds go with
this match or have gone with the ones behind it. -/
def SparesReturns (search : List Char) (matchCase : Bool) (d : Document) : Prop :=
  ∀ p ∈ d.paragraphs, p.content.keepsReturn
    ((Pattern.literal search matchCase false).spans p.content.runText) 0 = false

instance (search : List Char) (matchCase : Bool) (d : Document) :
    Decidable (d.SparesReturns search matchCase) :=
  inferInstanceAs (Decidable (∀ p ∈ d.paragraphs, _))

/-- A document without returns spares them. -/
theorem sparesReturns_of_readable (hd : d.OfKind isReadable) :
    d.SparesReturns search matchCase := fun _ hp =>
  Forest.keepsReturn_of_readable ((hd _ List.mem_cons_self).content hp)

/-- The corrections of a document make all matches give way. -/
theorem becomes_corrections (search : List Char) (matchCase : Bool) (hd : d.WellFormed)
    (hreturn : d.SparesReturns search matchCase) (hw : isWritable replacement.toList = true) :
    d.Becomes (d.corrections search matchCase replacement)
      (d.rewrite fun p => (p.corrected
        ((Pattern.literal search matchCase false).spans p.content.runText)
          (replacement.toList.map readBack)).tree) := by
  have hn : d.paragraphs.Nodup :=
    (hd.nodup_body.sublist (Forest.listed_sublist_handles _)).of_map _
  have hall := becomes_flatMap_reverse
    (fun p => ((Pattern.literal search matchCase false).spans p.content.runText).map
      (correction p replacement)) _
    (fun p => Paragraph.isEdit_corrected hw) hd (fun _ h => h) hn
    fun p hp _ hwell hmem => becomes_corrected hwell hmem hw
      (inOrder_spans search matchCase p.content.runText)
      (fun _ h => (agree_of_mem_spans h).2.1) (hreturn p hp)
  rw [corrections_eq]
  convert hall using 1
  rw [rewrite, rewrite]
  congr 1
  refine Forest.rewrite_congr fun p hp => ?_
  rw [if_pos (by exact hp)]

/-- A match gives way to a text that cannot be written only in part, and then that fails. -/
theorem apply_correction_unsound (hd : d.WellFormed) (hp : p ∈ d.paragraphs)
    (hw : isWritable replacement.toList = false) (hs : s.start < s.stop)
    (hstop : s.stop ≤ p.content.runText.length) :
    (correction p replacement s).apply d =
      (d.put { p with content := (p.content.spliceRuns s.start s.stop replacement.toList).1 },
        some .forbiddenCharacter) := by
  have hsplice : (p.content.spliceRuns s.start s.stop replacement.toList).2 = false :=
    Forest.spliceFrom_unsound hw (Nat.zero_le _) hs (by omega)
  rw [correction, apply_replace_of_fresh hd hp rfl rfl]
  simp [hsplice]

/-- Corrections that cannot be written fail at the first match, which is the last one of the
document. -/
theorem applyAll_corrections_unsound (hd : d.WellFormed)
    (hfound : d.corrections search matchCase replacement ≠ [])
    (hw : isWritable replacement.toList = false) :
    ∃ p ∈ d.paragraphs, (Pattern.literal search matchCase false).spans p.content.runText ≠ [] ∧
      ∃ content effect, d.applyAll Effect.apply (d.corrections search matchCase replacement) =
        
        ⟨d.put { p with content := content },
          (d.corrections search matchCase replacement).map .unmade, 0,
          some (effect, .forbiddenCharacter)⟩ := by
  obtain ⟨e, rest, hcons⟩ := List.exists_cons_of_ne_nil hfound
  have hmem : e ∈ d.corrections search matchCase replacement := hcons ▸ List.mem_cons_self
  rw [corrections_eq, List.mem_reverse, List.mem_flatMap] at hmem
  obtain ⟨p, hp, hmem⟩ := hmem
  obtain ⟨s, hs, rfl⟩ := List.mem_map.1 hmem
  obtain ⟨hfilled, hstop, -⟩ := agree_of_mem_spans hs
  refine ⟨p, hp, List.ne_nil_of_mem hs, (p.content.spliceRuns s.start s.stop replacement.toList).1,
    correction p replacement s, ?_⟩
  rw [hcons]
  exact applyAll_cons_of_fault (apply_correction_unsound hd hp hw hfilled hstop)

/-- Corrections that succeed have written their text. -/
theorem isWritable_of_becomes_corrections {d' : Document} (hd : d.WellFormed)
    (hfound : d.corrections search matchCase replacement ≠ [])
    (h : d.Becomes (d.corrections search matchCase replacement) d') :
    isWritable replacement.toList = true := by
  by_contra hw
  obtain ⟨p, -, -, content, effect, hfault⟩ :=
    applyAll_corrections_unsound hd hfound (Bool.eq_false_iff.2 hw)
  rw [becomes_iff, hfault] at h
  cases congrArg Progress.failed h

/-- A replacement changes what stands in its paragraph and nothing else, whether it succeeds or
not. -/
theorem apply_replace_edits (hd : d.WellFormed) (hp : p ∈ d.paragraphs) {found : Match}
    (hh : p.handle = found.paragraph) (text : String) :
    ∃ q, p.IsEdit q ∧ ((Effect.replace found text).apply d).1 = d.put q := by
  by_cases hfresh :
      (p.content.runText.drop found.start).take (found.stop - found.start) = found.text
  · refine ⟨{ p with content := (p.content.spliceRuns found.start found.stop text.toList).1 },
      ⟨rfl, fun hc => Forest.ofKind_spliceFrom hc, Forest.handles_spliceFrom_sublist _⟩, ?_⟩
    rw [apply_replace_of_fresh hd hp hh hfresh text]
  · refine ⟨p, .refl p, ?_⟩
    have hinside : d.inside found.paragraph = p.content := hh ▸ hd.inside_eq_content hp
    simp only [Effect.apply, Effect.applyReplace, hinside, ne_eq, hfresh, not_false_eq_true,
      if_true, Effect.fails, put_self hd hp]

/-- However far a row of replacements gets, it changes what stands in their paragraphs and nothing
else. -/
theorem applyAll_replace_edits {found : List Match} (hd : d.WellFormed)
    (hf : ∀ m ∈ found, m.paragraph ∈ d.body.listed) (text : String) :
    ∃ r : Paragraph → Paragraph,
      (d.applyAll Effect.apply (found.map (Effect.replace · text))).document =
        d.rewrite (fun p => (r p).tree) ∧
      ∀ p ∈ d.paragraphs, p.handle = (r p).handle ∧
        ((∀ m ∈ found, m.paragraph ≠ p.handle) → r p = p) := by
  induction found generalizing d with
  | nil =>
    refine ⟨id, ?_, fun p _ => ⟨rfl, fun _ => rfl⟩⟩
    simp [applyAll, rewrite, Forest.rewrite_self]
  | cons m rest ih =>
    obtain ⟨hm, hrest⟩ := List.forall_mem_cons.1 hf
    obtain ⟨p, hp, hh⟩ := mem_listed_iff.1 hm
    obtain ⟨q, hq, hfirst⟩ := apply_replace_edits hd hp hh text
    have hkeeps : ∀ x ∈ d.paragraphs,
        x.handle = (if x.handle = q.handle then q else x).handle ∧
          (m.paragraph ≠ x.handle → (if x.handle = q.handle then q else x) = x) := by
      intro x _
      split
      · next he => exact ⟨he, fun hne => absurd (he.trans (hq.handle.trans hh)).symm hne⟩
      · exact ⟨rfl, fun _ => rfl⟩
    rw [List.map_cons]
    rcases hrun : (Effect.replace m text).apply d with ⟨next, _ | cause⟩
    · obtain rfl : next = d.put q := (congrArg Prod.fst hrun).symm.trans hfirst
      have hsame : (d.put q).body.listed = d.body.listed := by
        rw [Forest.listed, Forest.listed]
        change (d.put q).paragraphs.map _ = d.paragraphs.map _
        rw [put_eq_rewrite, paragraphs_rewrite_tree, List.map_map]
        exact List.map_congr_left fun x hx => (hkeeps x hx).1.symm
      obtain ⟨r, hr, hothers⟩ := ih (hd.put hp hq) (hsame ▸ hrest)
      rw [put_eq_rewrite, paragraphs_rewrite_tree] at hothers
      refine ⟨fun x => r (if x.handle = q.handle then q else x), ?_, fun x hx => ?_⟩
      · rw [applyAll_cons_of_done hrun, hr, put_eq_rewrite, rewrite, rewrite, rewrite,
          Forest.rewrite_rewrite]
        simp only [Forest.rewrite_tree]
      · obtain ⟨hhandle, hkeep⟩ := hothers _ (List.mem_map_of_mem hx)
        refine ⟨(hkeeps x hx).1.trans hhandle, fun hnone => ?_⟩
        obtain ⟨hfirst, hnone⟩ := List.forall_mem_cons.1 hnone
        have hx := (hkeeps x hx).2 hfirst
        exact (hkeep (hx.symm ▸ hnone)).trans hx
    · obtain rfl : next = d.put q := (congrArg Prod.fst hrun).symm.trans hfirst
      refine ⟨_, ?_, fun x hx => ⟨(hkeeps x hx).1, fun hnone =>
        (hkeeps x hx).2 (hnone m List.mem_cons_self)⟩⟩
      rw [applyAll_cons_of_fault hrun, put_eq_rewrite]

/-- However far the corrections get, paragraphs without a match stay as they are. -/
theorem applyAll_corrections (search : List Char) (matchCase : Bool) (replacement : String)
    (hd : d.WellFormed) :
    ∃ r : Paragraph → Paragraph,
      (d.applyAll Effect.apply (d.corrections search matchCase replacement)).document =
        d.rewrite (fun p => (r p).tree) ∧
      ∀ p ∈ d.paragraphs, p.handle = (r p).handle ∧
        ((Pattern.literal search matchCase false).spans p.content.runText = [] → r p = p) := by
  have hmatch : ∀ m ∈ (d.search (.literal search matchCase false)).reverse,
      ∃ p ∈ d.paragraphs, p.handle = m.paragraph ∧
        (Pattern.literal search matchCase false).spans p.content.runText ≠ [] := by
    intro m hm
    rw [List.mem_reverse, Document.search, List.mem_flatMap] at hm
    obtain ⟨p, hp, hm⟩ := hm
    obtain ⟨s, hs, rfl⟩ := List.mem_map.1 hm
    exact ⟨p, hp, rfl, List.ne_nil_of_mem hs⟩
  obtain ⟨r, hr, hkeeps⟩ := applyAll_replace_edits hd
    (fun m hm => mem_listed_iff.2 ((hmatch m hm).imp fun _ h => ⟨h.1, h.2.1⟩)) replacement
  refine ⟨r, hr, fun p hp => ⟨(hkeeps p hp).1, fun hnone => (hkeeps p hp).2 fun m hm he => ?_⟩⟩
  obtain ⟨q, hq, hh, hsome⟩ := hmatch m hm
  rw [hd.eq_of_handle_eq hq hp (hh.trans he)] at hsome
  exact hsome hnone

end Document

end Redline
