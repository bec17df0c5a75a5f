import Redline.Proofs.Document.Sparing
import Redline.Proofs.Stopping

/-!
# Flushes that fail

An effect checks before it changes anything, so one that fails leaves the document as it was; only a
text that cannot be written as a whole would break this.  As every effect leaves a document behind
whose characters are allowed, this holds wherever in a queue an effect stands: a flush makes all
effects of the queue and flags them, or those in front of the one that fails and nothing else.

## Main definitions

* `Effect.AllOrNothing` — an outcome that is a success or no change.
* `Effect.newText` — the text that an effect writes into the runs of a paragraph.
-/

namespace Redline

open Editing Forest Text

/-! ## The characters of a document -/

namespace Document

variable {kind : Char → Bool} {d d' : Document} {h : Handle} {change : Forest → Forest}

theorem OfKind.of_subset (hd : d.OfKind kind) (ht : d'.trees ⊆ d.trees) : d'.OfKind kind :=
  fun tree hmem => hd tree (ht hmem)

theorem OfKind.withBody {body : Forest} (hd : d.OfKind kind) (hb : body.OfKind kind) :
    ({ d with body } : Document).OfKind kind :=
  List.forall_mem_cons.2 ⟨hb, (List.forall_mem_cons.1 hd).2⟩

theorem OfKind.withLoose (hd : d.OfKind kind) {parts : List LoosePart}
    (hp : ∀ part ∈ parts, part.tree.OfKind kind) :
    ({ d with loose := d.loose ++ parts } : Document).OfKind kind := by
  intro tree ht
  simp only [trees, List.map_append, List.mem_cons, List.mem_append] at ht
  rcases ht with rfl | ht | ht
  · exact hd _ List.mem_cons_self
  · exact hd _ (List.mem_cons_of_mem _ ht)
  · obtain ⟨part, hpart, rfl⟩ := List.mem_map.1 ht
    exact hp part hpart

theorem OfKind.mapTrees (hd : d.OfKind kind)
    (hc : ∀ f : Forest, f.OfKind kind → (change f).OfKind kind) :
    (d.mapTrees change).OfKind kind := by
  intro tree ht
  rw [trees_mapTrees] at ht
  obtain ⟨f, hf, rfl⟩ := List.mem_map.1 ht
  exact hc f (hd f hf)

theorem OfKind.modify (hd : d.OfKind kind) {change : Element → Forest → Element × Forest}
    (hc : ∀ e inside, (single e inside).OfKind kind →
      (single (change e inside).1 (change e inside).2).OfKind kind) :
    (d.modify h change).OfKind kind :=
  hd.mapTrees fun f hf => by
    rw [modify_eq_replaceAt]
    exact hf.replaceAt hc

theorem OfKind.modifyInside (hd : d.OfKind kind)
    (hc : ∀ f : Forest, f.OfKind kind → (change f).OfKind kind) :
    (d.modifyInside h change).OfKind kind :=
  hd.mapTrees fun f hf => by
    rw [modifyInside_eq_replaceAt]
    exact hf.replaceAt fun e inside hread =>
      ofKind_single.2 ⟨(ofKind_single.1 hread).1, hc inside (ofKind_single.1 hread).2⟩

theorem OfKind.erase (hd : d.OfKind kind) (h : Handle) : (d.mapTrees (·.erase h)).OfKind kind :=
  hd.mapTrees fun f hf => by
    rw [erase_eq_replaceAt]
    exact hf.replaceAt fun _ _ _ => ofKind_nil

theorem OfKind.place (hd : d.OfKind kind) {before after : Forest} (hb : before.OfKind kind)
    (ha : after.OfKind kind) : (d.place h before after).OfKind kind := by
  rw [place_eq_mapTrees]
  exact hd.mapTrees fun f hf => hf.replaceAt fun e inside hread =>
    ofKind_append.2 ⟨hb, ofKind_append.2 ⟨hread, ha⟩⟩

theorem OfKind.tree? (hd : d.OfKind kind) {tree : Forest} (ht : d.tree? h = some tree) :
    tree.OfKind kind := by
  rw [tree?_eq_findSome?] at ht
  obtain ⟨f, hf, hfound⟩ := List.exists_of_findSome?_eq_some ht
  exact (hd f hf).tree? hfound

theorem OfKind.inside (hd : d.OfKind kind) (h : Handle) : (d.inside h).OfKind kind := by
  rw [Document.inside]
  split
  · next heq => exact (ofKind_cons.1 (hd.tree? heq)).2.1
  · exact ofKind_nil

theorem OfKind.takeOut (hd : d.OfKind kind) (h : Handle) : (d.takeOut h).OfKind kind := by
  rw [Document.takeOut]
  split
  · exact hd
  · next tree ht =>
    exact (hd.erase h).withLoose fun part hp => List.mem_singleton.1 hp ▸ hd.tree? ht

theorem OfKind.removeParagraph (hd : d.OfKind kind) (h : Handle) :
    (d.removeParagraph h).OfKind kind := by
  rw [Document.removeParagraph]
  split
  · exact hd
  · split
    · exact hd.modifyInside fun _ _ => ofKind_nil
    · exact hd.takeOut h

theorem OfKind.newTree (hd : d.OfKind kind) (new : Handle) :
    (Effect.newTree d new).OfKind kind := by
  rw [Effect.newTree]
  split
  · next part hf =>
    exact hd _ (List.mem_cons_of_mem _ (List.mem_map_of_mem (List.mem_of_find?_eq_some hf)))
  · exact ofKind_nil

theorem OfKind.dropLoose (hd : d.OfKind kind) (new : Handle) : (d.dropLoose new).OfKind kind :=
  hd.of_subset (trees_dropLoose_subset d new)

/-- Changes one after the other, each of which brings no other characters. -/
theorem OfKind.foldl {ι : Type} {f : Document → ι → Document} (hd : d.OfKind kind)
    (hf : ∀ (d : Document) (i : ι), d.OfKind kind → (f d i).OfKind kind) (l : List ι) :
    (l.foldl f d).OfKind kind := by
  induction l generalizing d with
  | nil => exact hd
  | cons i rest ih => exact ih (hf d i hd)

/-! ### Effects -/

theorem OfKind.applyInsertBeside (hd : d.OfKind kind) (new anchor : Handle) (side : Side) :
    (Effect.applyInsertBeside new side anchor d).1.OfKind kind := by
  unfold Effect.applyInsertBeside
  have hnew := hd.newTree new
  cases d.standing anchor with
  | fresh => exact hd
  | removed =>
    intro tree ht
    exact hd tree (by simpa [Effect.done, trees_setAside] using ht)
  | placed =>
    cases side with
    | before => exact (hd.dropLoose new).place hnew ofKind_nil
    | after => exact (hd.dropLoose new).place ofKind_nil hnew

theorem OfKind.applyClearRange (hd : d.OfKind kind) (keep : Handle) (others : List Handle) :
    (Effect.applyClearRange keep others d).1.OfKind kind := by
  unfold Effect.applyClearRange
  have hstarts := allMarks_startsOf (Effect.lastPlaces (keep :: others)) d
  have hends := allMarks_endsOf (Effect.lastPlaces (keep :: others)) d
  have hbare : ((Effect.lastPlaces (keep :: others)).foldl
      (fun d h => d.modifyInside h (·.withoutMarks)) d).OfKind kind :=
    hd.foldl (fun _ _ hd => hd.modifyInside fun _ => Forest.OfKind.withoutMarks) _
  dsimp only
  split
  · exact hd
  · refine OfKind.foldl ?_ (fun _ h hd => hd.removeParagraph h) others
    refine OfKind.modifyInside ?_ fun _ _ => ofKind_nil
    split
    · exact hbare.place hstarts.ofKind hends.ofKind
    · exact hbare

theorem OfKind.applyWrap (hd : d.OfKind kind) (control first : Handle) (others : List Handle) :
    (Effect.applyWrap control first others d).1.OfKind kind := by
  unfold Effect.applyWrap
  dsimp only
  split
  · refine OfKind.modifyInside (OfKind.foldl ?_ (fun _ h hd => hd.erase h) _) fun _ _ => ?_
    · exact (hd.dropLoose control).place (hd.newTree control) ofKind_nil
    · refine ofKind_join fun tree ht => ?_
      obtain ⟨h, _, hfound⟩ := List.mem_filterMap.1 ht
      exact hd.tree? hfound
  · exact hd

theorem OfKind.restyle (hd : d.OfKind kind)
    (change : String → Option Alignment → String × Option Alignment) :
    (d.modify h (Effect.restyle change)).OfKind kind :=
  hd.modify fun e inside hread => by
    cases e <;> simpa [Effect.restyle, ofKind_single, Element.characters] using hread

theorem OfKind.applySetProperty (hd : d.OfKind kind) (control : Handle) (text : String)
    (change : ControlProperties → ControlProperties) :
    (Effect.applySetProperty control text change d).1.OfKind kind := by
  unfold Effect.applySetProperty
  split
  · exact hd
  · split
    · exact hd
    · refine hd.modify fun e inside hread => ?_
      cases e with
      | control h properties => cases properties <;> exact hread
      | _ => exact hread

/-- An effect brings no characters of another kind, whether it succeeds or not. -/
theorem OfKind.apply [Admits kind] (hd : d.OfKind kind) (e : Effect) : (e.apply d).1.OfKind kind := by
  cases e with
  | insertBeside new text side anchor => exact hd.applyInsertBeside new anchor side
  | insertInBody new text edge =>
    have hbody := hd d.body List.mem_cons_self
    cases edge with
    | start => exact (hd.dropLoose new).withBody (ofKind_append.2 ⟨hd.newTree new, hbody⟩)
    | stop => exact (hd.dropLoose new).withBody (ofKind_append.2 ⟨hbody, hd.newTree new⟩)
  | setText paragraph text => exact hd.modifyInside (tame_textContent text.toList).ofKind
  | setStyle paragraph style =>
    simp only [Effect.apply, Effect.applySetStyle, Effect.withValue]
    split
    · exact hd.restyle _
    · exact hd
  | setColor paragraph color =>
    simp only [Effect.apply, Effect.applySetColor, Effect.withValue]
    split
    · exact hd.modifyInside (tame_formatRuns _).ofKind
    · exact hd
  | setBold paragraph bold => exact hd.modifyInside (tame_formatRuns _).ofKind
  | setAlignment paragraph alignment =>
    simp only [Effect.apply, Effect.applySetAlignment]
    split
    · exact hd.restyle _
    · exact hd
  | replace found text =>
    simp only [Effect.apply, Effect.applyReplace]
    split
    · exact hd
    · exact hd.modifyInside fun _ _ => ofKind_spliceFrom (hd.inside found.paragraph)
  | clearRange keep others => exact hd.applyClearRange keep others
  | clearBody =>
    refine OfKind.withBody (hd.withLoose fun part hp => ?_) ofKind_nil
    obtain ⟨tree, ht, rfl⟩ := List.mem_map.1 hp
    exact ofKind_of_mem_trees (hd d.body List.mem_cons_self) ht
  | delete paragraph =>
    simp only [Effect.apply, Effect.applyDelete]
    split
    · exact hd
    · exact hd.removeParagraph paragraph
  | wrap control first others tag => exact hd.applyWrap control first others
  | setTag control tag => exact hd.applySetProperty control tag _
  | setAppearance control appearance => exact hd.applySetProperty control appearance _

end Document

/-! ## One effect -/

namespace Effect

variable {d : Document} {e : Effect}

/-- The text that an effect writes into the runs of a paragraph while it is made. -/
def newText : Effect → String
  | .setText _ text => text
  | .replace _ text => text
  | _ => ""

/-- An outcome with a fault has left the document as it was. -/
def AllOrNothing (d : Document) (outcome : Outcome) : Prop := outcome.2 ≠ none → outcome.1 = d

theorem allOrNothing_done (d d' : Document) : AllOrNothing d (done d') := fun h => absurd rfl h

theorem allOrNothing_fails (d : Document) (fault : Fault) : AllOrNothing d (fails d fault) :=
  fun _ => rfl

theorem allOrNothing_withValue {α : Type} (value : Except Fault α) {next : α → Outcome}
    (hn : ∀ a, AllOrNothing d (next a)) : AllOrNothing d (withValue d value next) := by
  cases value with
  | ok a => exact hn a
  | error fault => exact allOrNothing_fails d fault

theorem allOrNothing_applyInsertBeside (new anchor : Handle) (side : Side) (d : Document) :
    AllOrNothing d (applyInsertBeside new side anchor d) := by
  unfold applyInsertBeside
  cases d.standing anchor with
  | fresh => exact allOrNothing_fails d _
  | removed => exact allOrNothing_done d _
  | placed => cases side <;> exact allOrNothing_done d _

/-- The text of a match is compared before anything is written, and what is written then can be
written as a whole. -/
theorem allOrNothing_applyReplace (hd : d.OfKind isAllowed) {text : String}
    (hw : isWritable text.toList = true) (found : Match) :
    AllOrNothing d (applyReplace found text d) := by
  unfold applyReplace
  dsimp only
  split
  · exact allOrNothing_fails d _
  · have hsound : ((d.inside found.paragraph).spliceRuns found.start found.stop text.toList).2 =
        true := spliceFrom_sound (hd.inside _) hw
    intro hfault
    simp [hsound] at hfault

theorem allOrNothing_applySetProperty (control : Handle) (text : String)
    (change : ControlProperties → ControlProperties) (d : Document) :
    AllOrNothing d (applySetProperty control text change d) := by
  unfold applySetProperty
  split
  · exact allOrNothing_fails d _
  · split
    · exact allOrNothing_fails d _
    · exact allOrNothing_done d _

/-- An effect whose text can be written succeeds or changes nothing, on every document of
allowed characters and whatever its handles lead to. -/
theorem allOrNothing_apply (hd : d.OfKind isAllowed) (hw : isWritable e.newText.toList = true) :
    AllOrNothing d (e.apply d) := by
  cases e with
  | insertBeside new text side anchor => exact allOrNothing_applyInsertBeside new anchor side d
  | insertInBody new text edge => cases edge <;> exact allOrNothing_done d _
  | setText paragraph text =>
    have hw : isWritable text.toList = true := hw
    intro hfault
    simp [Effect.apply, applySetText, hw] at hfault
  | setStyle paragraph style => exact allOrNothing_withValue _ fun _ => allOrNothing_done d _
  | setColor paragraph color => exact allOrNothing_withValue _ fun _ => allOrNothing_done d _
  | setBold paragraph bold => exact allOrNothing_done d _
  | setAlignment paragraph alignment =>
    simp only [Effect.apply, applySetAlignment]
    split
    · exact allOrNothing_done d _
    · exact allOrNothing_fails d _
  | replace found text => exact allOrNothing_applyReplace hd hw found
  | clearRange keep others =>
    simp only [Effect.apply, applyClearRange]
    split
    · exact allOrNothing_fails d _
    · exact allOrNothing_done d _
  | clearBody => exact allOrNothing_done d _
  | delete paragraph =>
    simp only [Effect.apply, applyDelete]
    split
    · exact allOrNothing_fails d _
    · exact allOrNothing_done d _
  | wrap control first others tag =>
    simp only [Effect.apply, applyWrap]
    split
    · exact allOrNothing_done d _
    · exact allOrNothing_fails d _
  | setTag control tag => exact allOrNothing_applySetProperty control tag _ d
  | setAppearance control appearance => exact allOrNothing_applySetProperty control appearance _ d

end Effect

/-! ## A queue of effects -/

namespace Host

open Document

variable {d d' : Document} {e : Effect} {effects : List Effect} {queue : List PendingEffect} {k : Nat}

/-- The same holds on a closed host, which refuses an effect before it is tried. -/
theorem step_allOrNothing (hd : d.OfKind isAllowed) (hw : isWritable e.newText.toList = true)
    (isOpen : Bool) : Effect.AllOrNothing d (step isOpen e d) := by
  have happly := Effect.allOrNothing_apply hd hw
  unfold step
  split
  · exact happly
  · split
    · exact Effect.allOrNothing_fails d _
    · exact happly

theorem ofKind_step {kind : Char → Bool} [Admits kind] (hd : d.OfKind kind) (isOpen : Bool)
    (e : Effect) : (step isOpen e d).1.OfKind kind := by
  unfold step
  split
  · exact hd.apply e
  · split
    · exact hd
    · exact hd.apply e

/-- However far effects get, they bring no characters of another kind. -/
theorem ofKind_applyAll {kind : Char → Bool} [Admits kind] (hd : d.OfKind kind) (isOpen : Bool)
    (effects : List Effect) : (d.applyAll (step isOpen) effects).document.OfKind kind := by
  induction effects generalizing d with
  | nil => exact hd
  | cons e rest ih =>
    have hstep := ofKind_step hd isOpen e
    rcases hrun : step isOpen e d with ⟨next, _ | fault⟩
    · rw [hrun] at hstep
      rw [applyAll_cons_of_done hrun]
      exact ih hstep
    · rw [hrun] at hstep
      rw [applyAll_cons_of_fault hrun]
      exact hstep

/-- What stands behind an effect that fails is not applied and makes no difference. -/
theorem applyAll_append_of_failed {step : Effect → Document → Effect.Outcome}
    {failed : Effect × Fault} (h : d.applyAll step effects = ⟨d', queue, k, some failed⟩)
    (rest : List Effect) :
    d.applyAll step (effects.take (k + 1) ++ rest) =
      ⟨d', flagged k (effects.take (k + 1) ++ rest), k, some failed⟩ := by
  induction effects generalizing d k queue with
  | nil => simp [applyAll] at h
  | cons e others ih =>
    rcases hrun : step e d with ⟨next, _ | fault⟩
    · rw [applyAll_cons_of_done hrun] at h
      rcases hothers : next.applyAll step others with ⟨last, flags, j, stop⟩
      simp only [hothers, Progress.mk.injEq] at h
      obtain ⟨rfl, rfl, rfl, rfl⟩ := h
      rw [List.take_succ_cons, List.cons_append, applyAll_cons_of_done hrun, ih hothers]
      rfl
    · rw [applyAll_cons_of_fault hrun, Progress.mk.injEq] at h
      obtain ⟨rfl, -, rfl, hfailed⟩ := h
      rw [List.take_succ_cons, List.cons_append, applyAll_cons_of_fault hrun, hfailed]
      rfl

/-- What a flush comes to is what becomes of the queue. -/
theorem runOn_flush (host : Host) :
    flush.runOn host =
      (match (host.document.applyAll (step host.isOpen) host.pending).failed with
        | some (effect, cause) => .error (.fault (.effectFailed effect.description cause))
        | none => .ok (host.document.applyAll (step host.isOpen) host.pending).applied,
      { host with
        document := (host.document.applyAll (step host.isOpen) host.pending).document
        pending := []
        flushCount := host.flushCount + 1
        lastFlush := (host.document.applyAll (step host.isOpen) host.pending).queue }) := by
  simp only [flush, runOn_bind, runOn_get, runOn_set]
  rcases host.document.applyAll (step host.isOpen) host.pending with
    ⟨d, queue, k, _ | failed⟩ <;> rfl

/-- Two lines, the second of which is deleted twice before the first one becomes bold. -/
def deletingTwice : Host where
  document := {
    body := .cons (.paragraph ⟨0⟩ "Normal" none) (.runOf "a".toList)
      (.single (.paragraph ⟨1⟩ "Normal" none) (.runOf "b".toList))
    nextHandle := 2 }
  pending := [.setText ⟨0⟩ "c", .delete ⟨1⟩, .delete ⟨1⟩, .setBold ⟨0⟩ true]

end Host

end Redline
