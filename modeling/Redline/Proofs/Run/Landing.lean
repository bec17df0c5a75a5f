import Redline.Proofs.Execution.Accepting
import Redline.Proofs.Run.Reporting
import Redline.Proofs.Snapshot.Refinement

/-!
# Runs land

Under the standard rules a plan that has been read never makes a flush fail in a document that suits
it: every effect that it queues is made.  A document suits a plan if it knows the styles of the
paragraphs that the plan inserts and, in case the plan corrects texts, holds no returns.  An edit plan
fails only for what it asks for and the document does not have, or for an integer that has too many
digits to be read or written; a block plan fails only for a block that is unknown or has no paragraph.

## Main definitions

* `Document.SuitsPlan` — a document that suits a plan.
* `Snapshot.Misses` — why the paragraph of an operation is missed.
* `Snapshot.Between` — what holds of the hosts between the operations of a block plan.
-/

namespace Redline

open Editing Redline.Text

variable {host mid after left : Host} {mishap : Mishap}

/-- The blocks of an action. -/
def Action.blocks : Action → List Block
  | .replaceSection _ blocks | .insertText _ _ _ _ blocks => blocks
  | .updateHeadingStyle .. | .updateTextFormat .. | .correctText .. => []

/-- The document knows the styles that a plan gives to new paragraphs.  If the plan corrects texts, no
run of the document holds a return. -/
def Document.SuitsPlan (rules : Rules) (d : Document) : ResponsePlan → Prop
  | .edit plan => (∀ action ∈ plan.actions, d.styles.KnowsBlocks rules action.blocks) ∧
      ((∃ action ∈ plan.actions, action.kind = .correctText) → d.OfKind isReadable)
  | .block plan =>
    (∃ op ∈ plan.operations, op.kind ≠ .replace) → d.styles.Knows rules.normalStyle

/-! ## Edit plans -/

namespace Execution

variable {scorer : Heading.Scorer} {action : Action} {actions : List Action}

/-- The host between two actions of a plan: the document suits the plan as it did at the start. -/
structure Suited (actions : List Action) (host : Host) : Prop where
  ready : host.Ready
  suits : host.document.SuitsPlan .standard (.edit ⟨actions⟩)

theorem Suited.suitsAction (h : Suited actions host) (ha : action ∈ actions) :
    host.document.Suits .standard action := by
  have hblocks := h.suits.1 action ha
  cases action with
  | replaceSection | insertText => exact hblocks
  | correctText => exact Document.sparesReturns_of_readable (h.suits.2 ⟨_, ha, rfl⟩)
  | updateHeadingStyle | updateTextFormat => trivial

section
variable (hc : ∀ action ∈ actions, action.Checked .standard)
include hc

theorem Suited.queued (h : Suited actions host) (ha : action ∈ actions) :
    ∀ mid, (preparation ⟨.standard, scorer⟩ (own action)).runOn host = (.ok (), mid) →
      Queued host mid := by
  rw [preparation_own]
  exact (ends_perform scorer h.ready (hc action ha) (h.suitsAction ha)).queued

/-- An action keeps what the actions behind it rely on. -/
theorem Suited.flushed : ∀ typed ∈ actions.map own, ∀ host after, Suited actions host →
    Flushed (preparation ⟨.standard, scorer⟩ typed) host after → Suited actions after := by
  intro typed htyped host after h hflushed
  obtain ⟨action, ha, rfl⟩ := List.mem_map.1 htyped
  have hprepares := prepares_preparation ⟨.standard, scorer⟩ (own action)
  refine ⟨hflushed.ready_of_queued h.ready (h.queued hc ha), ?_, fun hcorrects => ?_⟩
  · rw [hflushed.styles hprepares]
    exact h.suits.1
  · exact hflushed.readable hprepares (h.suits.2 hcorrects)

/-- Every action of a checked plan lands. -/
theorem allLand (scorer : Heading.Scorer) (h : Suited actions host) :
    AllLand (preparation ⟨.standard, scorer⟩) (actions.map own) host := by
  refine allLand_of_keeps (Suited actions) (fun typed htyped host h => ?_) (Suited.flushed hc) h
  obtain ⟨action, ha, rfl⟩ := List.mem_map.1 htyped
  exact lands_of_queued h.ready (h.queued hc ha)

end

/-- A checked action that fails was excused. -/
theorem runAction_excused {f : Failure} (hh : host.Ready) (hc : action.Checked .standard)
    (hs : host.document.Suits .standard action)
    (h : (runAction ⟨.standard, scorer⟩ (own action)).runOn host = (.error (.failure f), left)) :
    Absent ⟨.standard, scorer⟩ host.document action f ∨
      ∃ fault, Overlong .standard host.document action fault ∧
        f = .actionFailed action.kind.name fault := by
  have hends := ends_perform scorer hh hc hs
  have hl := lands_of_queued hh hends.queued
  have hrun : runAction ⟨.standard, scorer⟩ (own action) =
      asAction action.kind.name (perform ⟨.standard, scorer⟩ action.kind action).thenFlush :=
    runAction_own _ _
  rw [hrun, asAction, runOn_tryCatch] at h
  rcases hran : (perform ⟨.standard, scorer⟩ action.kind action).thenFlush.runOn host with
    ⟨early | _, last⟩
  · -- The flush succeeds, so the handler gave up before it: with a failure, which is handed on,
    -- or with a fault, which is put into words.
    rcases hends.excused early last (hl.work_error hran) with ⟨habsent⟩ | ⟨hlong⟩
    · simp only [hran, runOn_throw, Prod.mk.injEq, Except.error.injEq, Mishap.failure.injEq] at h
      exact .inl (h.1 ▸ habsent)
    · simp only [hran, runOn_failure, Prod.mk.injEq, Except.error.injEq, Mishap.failure.injEq] at h
      exact .inr ⟨_, hlong, h.1.symm⟩
  · simp [hran] at h

/-- A run of checked actions that fails has been stopped by something that an action asks for and
the document does not have, or by a row of digits. -/
theorem run_excused {f : Failure} {added : Json.Fields} (hs : Suited actions host)
    (hc : ∀ action ∈ actions, action.Checked .standard)
    (h : (run ⟨.standard, scorer⟩ (actions.map own)).runOn host = (.ok (.failed f added), after)) :
    ∃ (k : Nat) (action : Action) (mid : Host), actions[k]? = some action ∧
      OneByOne (fun typed => Flushed (preparation ⟨.standard, scorer⟩ typed))
        ((actions.map own).take k) host mid ∧
      (Absent ⟨.standard, scorer⟩ mid.document action f ∨
        ∃ fault, Overlong .standard mid.document action fault ∧
          f = .actionFailed action.kind.name fault) := by
  rw [run_of_open hs.ready.isOpen] at h
  rcases hrun : (runActions ⟨.standard, scorer⟩ 0 (actions.map own)).runOn host with
    ⟨mishap | ⟨_ | outcome⟩, last⟩
  · simp [hrun] at h
  · simp [hrun] at h
  · obtain ⟨k, typed, g, mid, left, hat, hsteps, hfail, _, rfl⟩ := runActions_eq_some.1 hrun
    simp only [hrun, Prod.mk.injEq, Except.ok.injEq, RunOutcome.failed.injEq] at h
    obtain ⟨⟨rfl, _⟩, _⟩ := h
    rw [List.getElem?_map, Option.map_eq_some_iff] at hat
    obtain ⟨action, haction, rfl⟩ := hat
    have hmem := List.mem_of_getElem? haction
    have hmid : Suited actions mid := hsteps.keeps_take (Suited.flushed hc) hs
    exact ⟨k, action, mid, haction, hsteps,
      runAction_excused hmid.ready (hc action hmem) (hmid.suitsAction hmem) hfail⟩

end Execution

/-! ## Block plans -/

namespace Snapshot

variable {rules : Rules} {snapshot : Snapshot} {m : Mapping} {op : Operation}
  {sheet : Stylesheet} {known index : Nat}

/-- The snapshot does not have the block of an operation, or the document has no paragraph for
it. -/
inductive Misses (snapshot : Snapshot) (m : Mapping) (op : Operation) : Failure → Prop
  | unknown : snapshot.blocks.lookup op.target = none →
      Misses snapshot m op (.unknownBlock op.target snapshot.blockIds)
  | unmatched {block : Block} {beginning : String} :
      snapshot.blocks.lookup op.target = some block → m.matched.lookup op.target = none →
      Misses snapshot m op (.vanishedBlock op.target beginning snapshot.epoch)

/-- The host between two operations: the paragraphs that were found are still there. -/
structure Between (sheet : Stylesheet) (m : Mapping) (known : Nat) (host : Host) : Prop where
  ready : host.Ready
  styles : host.document.styles = sheet
  nextHandle : known ≤ host.document.nextHandle
  sound : m.Sound known host.document

theorem WellTyped.target_cases (hs : snapshot.WellTyped) (m : Mapping) (op : Operation)
    (host : Host) :
    (∃ p, (snapshot.target m op).runOn host = (.ok p, host) ∧ m.handle? op = some p.handle) ∨
      ∃ f, snapshot.Misses m op f ∧
        (snapshot.target m op).runOn host = (.error (.failure f), host) := by
  unfold target
  cases hblock : snapshot.blocks.lookup op.target with
  | none => exact .inr ⟨_, .unknown hblock, rfl⟩
  | some block =>
    cases hp : m.matched.lookup op.target with
    | some p => exact .inl ⟨p, rfl, by simp [Mapping.handle?, hp]⟩
    | none =>
      obtain ⟨text, htext⟩ := hs.texts _ _ (mem_of_lookup hblock)
      have hbeginning : excerpt block = .ok (String.ofList (text.toList.take 50)) := by
        rw [excerpt, htext]
      exact .inr ⟨.vanishedBlock op.target (String.ofList (text.toList.take 50)) snapshot.epoch,
        .unmatched hblock hp, by simp [hbeginning, runOn_bind]⟩

section
variable (hs : snapshot.WellTyped) (hb : Between sheet m known host) (hf : op.Fits sheet rules)
include hs hb hf

/-- An operation that fits is carried out, or its paragraph is missed. -/
theorem preparation_cases :
    (∃ ready n after, (preparation rules snapshot m op).runOn host = (.ok (), ready) ∧
      Host.flush.runOn ready = (.ok n, after)) ∨
    ∃ f, snapshot.Misses m op f ∧
      (preparation rules snapshot m op).runOn host = (.error (.failure f), host) := by
  rw [preparation, runOn_bind]
  rcases hs.target_cases m op host with ⟨p, hp, hfound⟩ | ⟨f, hmisses, hrun⟩
  · obtain ⟨ready, after, hwork, n, hflush⟩ :=
      performOperation_of_fits hb.ready (hb.sound op _ hfound).1 (hb.styles ▸ hf)
    exact .inl ⟨ready, n, after, by simpa only [hp] using hwork, hflush⟩
  · exact .inr ⟨f, hmisses, by simp only [hrun]⟩

theorem lands_of_fits : Lands (preparation rules snapshot m op) host := by
  intro ready hrun
  rcases preparation_cases hs hb hf with ⟨_, n, after, hrun', hflush⟩ | ⟨f, _, hfail⟩
  · obtain rfl := congrArg Prod.snd (hrun.symm.trans hrun')
    exact ⟨after, Host.flush_made hflush ▸ hflush⟩
  · simp [hfail] at hrun

/-- An operation that fits and fails has missed its paragraph. -/
theorem runOperation_misses
    (h : (runOperation rules snapshot m index op).runOn host = (.error mishap, after)) :
    ∃ f, snapshot.Misses m op f ∧ mishap = .failure (.atOperation index f) := by
  rw [runOperation_eq, asOperation, runOn_tryCatch] at h
  rcases hran : (preparation rules snapshot m op).thenFlush.runOn host with ⟨early | _, left⟩
  · have hrun := (lands_of_fits hs hb hf).work_error hran
    rcases preparation_cases hs hb hf with ⟨_, _, _, hok, _⟩ | ⟨f, hmisses, hfail⟩
    · simp [hok] at hrun
    · obtain rfl : .failure f = early := by simpa [hfail] using congrArg Prod.fst hrun
      refine ⟨f, hmisses, ?_⟩
      simpa [hran, runOn_bind, Host.discard, eq_comm] using congrArg Prod.fst h
  · simp [hran] at h

end

theorem Between.flushed (hb : Between sheet m known host)
    (h : Flushed (preparation rules snapshot m op) host after) : Between sheet m known after := by
  have hrun : (runOperation rules snapshot m 0 op).runOn host = (.ok (), after) :=
    runOperation_eq_ok_iff.2 h
  obtain ⟨handle, hfinds, _, hwork, hflush⟩ := runOperation_eq_ok.1 hrun
  obtain ⟨hl, hk⟩ := hb.sound op handle hfinds.2
  obtain ⟨_, hfollows⟩ := performOperation_follows hb.ready hl hb.nextHandle hk hwork hflush
  exact ⟨hfollows.ready, hfollows.styles.trans hb.styles, hb.nextHandle.trans hfollows.nextHandle,
    hfollows.sound hb.sound⟩

/-- The operations of a block plan land if they fit; one that fails has missed its paragraph. -/
theorem WellTyped.run_misses (hs : snapshot.WellTyped) (hh : host.Ready) {plan : BlockPlan}
    (hf : ∀ op ∈ plan.operations, op.Fits host.document.styles rules) :
    ∃ m, (snapshot.rematch rules).runOn host = (.ok m, host) ∧
      AllLand (preparation rules snapshot m) plan.operations host ∧
      ((∃ after, (run rules snapshot plan).runOn host = (.ok (), after)) ∨
        ∃ (k : Nat) (op : Operation) (f : Failure) (after : Host),
          plan.operations[k]? = some op ∧ snapshot.Misses m op f ∧
          (run rules snapshot plan).runOn host =
            (.error (.failure (.atOperation k f)), after)) := by
  obtain ⟨m, hmapping, hm⟩ := hs.rematch_eq_ok rules hh.toAnswers
  have hstart : Between host.document.styles m host.document.nextHandle host :=
    ⟨hh, rfl, le_rfl, sound_mapping hh.wellFormed hmapping⟩
  have hstep : ∀ op ∈ plan.operations, ∀ mid after,
      Between host.document.styles m host.document.nextHandle mid →
      Flushed (preparation rules snapshot m op) mid after →
        Between host.document.styles m host.document.nextHandle after :=
    fun _ _ _ _ hmid h => hmid.flushed h
  refine ⟨m, hm, allLand_of_keeps _ (fun op hop mid hmid => ?_) hstep hstart, ?_⟩
  · exact lands_of_fits hs hmid (hf op hop)
  · rw [run_of_rematch hh.isOpen hm]
    rcases hrun : (runOperations rules snapshot m 0 plan.operations).runOn host with
      ⟨mishap | _, after⟩
    · obtain ⟨k, op, mid, hat, hsteps, hfail⟩ := runOperations_eq_error.1 hrun
      obtain ⟨f, hmisses, rfl⟩ := runOperation_misses hs (hsteps.keeps_take hstep hstart)
        (hf op (List.mem_of_getElem? hat)) hfail
      rw [Nat.zero_add]
      exact .inr ⟨k, op, f, after, hat, hmisses, rfl⟩
    · exact .inl ⟨after, rfl⟩

end Snapshot

/-! ## Responses -/

variable {stamp : Stamp} {payload : Json} {snapshot : Option Snapshot} {response : Response}

/-- A block that is missed is not put down to a fault. -/
theorem Snapshot.Misses.cause {s : Snapshot} {m : Snapshot.Mapping} {op : Operation} {f : Failure}
    (h : s.Misses m op f) : f.refusal.cause = none := by
  cases h <;> rfl

/-- Under the standard rules a plan that has been read never makes a flush fail in a document that
suits it: every effect that its run queues is made.  The run of an edit plan fails only at an action
that asks for something the document does not have, or that meets an integer of too many digits; the
run of a block plan fails only at an operation whose block is unknown or has no paragraph.  No failure
is put down to the host. -/
theorem flushes_never_fail (stamp : Stamp) (hw : payload.Writable)
    (hread : readResponse .standard payload = .ok response) (hh : host.Ready)
    (hsuits : host.document.SuitsPlan .standard response.plan)
    (hs : ∀ s, snapshot = some s → s.WellTyped) :
    ∃ report after,
      (runResponse stamp .standard payload snapshot).runOn host = (.ok report, after) ∧
      (∀ f added, report.outcome = .failed f added →
        ∀ cause ∈ f.refusal.cause, cause.family ≠ .host) ∧
      (∀ plan, response.plan = .edit plan →
        AllLand (Execution.preparation ⟨.standard, Heading.overlapScore⟩) plan.typed host ∧
        ∀ f added, report.outcome = .failed f added →
          ∃ (k : Nat) (action : Action) (mid : Host), plan.actions[k]? = some action ∧
            OneByOne (fun typed =>
                Flushed (Execution.preparation ⟨.standard, Heading.overlapScore⟩ typed))
              (plan.typed.take k) host mid ∧
            (Execution.Absent ⟨.standard, Heading.overlapScore⟩ mid.document action f ∨
              ∃ fault, Execution.Overlong .standard mid.document action fault ∧
                f = .actionFailed action.kind.name fault)) ∧
      ∀ plan, response.plan = .block plan → ∃ s m,
        (snapshotOr stamp .standard snapshot).runOn host = (.ok s, host) ∧
        (s.rematch .standard).runOn host = (.ok m, host) ∧
        AllLand (Snapshot.preparation .standard s m) plan.operations host ∧
        ∀ f added, report.outcome = .failed f added →
          ∃ (k : Nat) (op : Operation) (missed : Failure), plan.operations[k]? = some op ∧
            s.Misses m op missed ∧ f = .atOperation k missed := by
  have hc := Check.checked_of_readResponse hw hread
  rw [runResponse_of_read hh.isOpen hread]
  cases hplan : response.plan with
  | edit plan =>
    rw [hplan] at hc hsuits
    have hsuited : Execution.Suited plan.actions host := ⟨hh, hsuits⟩
    obtain ⟨outcome, after, hrun, _⟩ :=
      Execution.run_typed ⟨.standard, Heading.overlapScore⟩ plan hh.pending
    obtain ⟨report, hreport, rfl⟩ := runPlan_edit hplan hrun
    have hfails : ∀ f added, report.outcome = .failed f added → _ := fun f added hf =>
      Execution.run_excused hsuited hc (hf ▸ hrun)
    refine ⟨report, after, hreport, fun f added hf => ?_, ?_, nofun⟩
    · obtain ⟨_, _, _, _, _, habsent | ⟨fault, hlong, rfl⟩⟩ := hfails f added hf
      · simp [habsent.cause]
      · rintro _ ⟨⟩
        exact hlong.family ▸ nofun
    · rintro _ ⟨⟩
      exact ⟨Execution.allLand hc _ hsuited, hfails⟩
  | block plan =>
    rw [hplan] at hc hsuits
    obtain ⟨s, hsnapshot, hwell⟩ := snapshotOr_wellTyped stamp .standard hh.toAnswers hs
    -- All operations go by the mapping of the start, so what it misses is all that stops them.
    obtain ⟨m, hm, hall, hrun⟩ :=
      hwell.run_misses hh fun op hop =>
        Operation.fits_of_knows (fun hkind => hsuits ⟨op, hop, hkind⟩) (hc op hop)
    rcases hrun with ⟨after, hrun⟩ | ⟨k, op, missed, after, hat, hmisses, hrun⟩
    · obtain ⟨report, hreport, houtcome⟩ := runPlan_block hplan hsnapshot (outcomeOf_of_ok hrun)
      have hnever : ∀ f added, report.outcome ≠ .failed f added := by simp [houtcome]
      refine ⟨report, after, hreport, fun f added hf => absurd hf (hnever f added), nofun, ?_⟩
      rintro _ ⟨⟩
      exact ⟨s, m, hsnapshot, hm, hall, fun f added hf => absurd hf (hnever f added)⟩
    · obtain ⟨report, hreport, houtcome⟩ :=
        runPlan_block hplan hsnapshot (outcomeOf_of_failure hrun)
      have hmissed : ∀ f added, report.outcome = .failed f added → f = .atOperation k missed := by
        intro f added hf
        exact (RunOutcome.failed.inj (hf.symm.trans houtcome)).1
      refine ⟨report, after, hreport, fun f added hf => ?_, nofun, ?_⟩
      · obtain rfl := hmissed f added hf
        simp [Failure.refusal, hmisses.cause]
      · rintro _ ⟨⟩
        exact ⟨s, m, hsnapshot, hm, hall,
          fun f added hf => ⟨k, op, missed, hat, hmisses, hmissed f added hf⟩⟩

/-- An action that gives every paragraph a color, as it is written. -/
def coloringAction (color : String) : Json :=
  .obj [("type", .str "update_text_format"), ("target", .str "all"),
    ("style", .obj [("color", .str color)])]

/-- A response with that action alone. -/
def coloring (color : String) : Json :=
  .obj [("edit_plan", .obj [("version", .str "1.0"), ("actions", .arr [coloringAction color])])]

/-- The action that is read from it. -/
def colorAll (color : String) : Action := .updateTextFormat .all ⟨some color, none, none⟩

theorem readAction_coloring {color : String} (h : Color.isValid standardColors color = true) :
    Check.readAction .standard 0 (coloringAction color) = .ok (colorAll color) := by
  have hcolor : ∀ path, Check.readColor .standard (.action .updateTextFormat) path (.str color) =
      .ok (some color) := fun _ => if_pos h
  have hstyle : ∀ path, Check.readStyle .standard .updateTextFormat path
      (.obj [("color", .str color)]) = .ok ⟨some color, none, none⟩ := by
    intro path
    rw [Check.readStyle, Check.readStyle?]
    change (Check.readColor .standard _ _ (.str color) >>= _) >>= _ = _
    rw [hcolor]
    rfl
  change (Check.readStyle .standard .updateTextFormat _ (.obj [("color", .str color)]) >>= _) = _
  rw [hstyle]
  rfl

theorem readResponse_coloring {color : String} (h : Color.isValid standardColors color = true) :
    readResponse .standard (coloring color) =
      .ok ⟨"Edit plan generated successfully", .edit ⟨[colorAll color]⟩⟩ := by
  change (((Check.readAction .standard 0 (coloringAction color) >>= _) >>= _) >>= _) = _
  rw [readAction_coloring h]
  rfl

theorem writable_coloring {color : String} (h : isWritable color.toList = true) :
    (coloring color).Writable := by
  simp [coloring, coloringAction, h]
  decide

theorem ready_greeting : Host.Ready { document := greeting } := ⟨⟨rfl, rfl⟩, rfl, by decide⟩

theorem flushes_never_fail_red :
    ∃ report after, (runResponse ⟨"now", "e"⟩ .standard (coloring "red") none).runOn
        { document := greeting } = (.ok report, after) ∧
      AllLand (Execution.preparation ⟨.standard, Heading.overlapScore⟩)
        [Execution.own (colorAll "red")] { document := greeting } := by
  have hread := readResponse_coloring (show Color.isValid standardColors "red" = true by decide)
  have hsuits : greeting.SuitsPlan .standard (.edit ⟨[colorAll "red"]⟩) := by
    refine ⟨fun action ha block hblock => ?_, fun _ => by decide⟩
    rw [List.mem_singleton.1 ha] at hblock
    cases hblock
  obtain ⟨report, after, hrun, _, hedit, _⟩ :=
    flushes_never_fail ⟨"now", "e"⟩ (writable_coloring (by decide)) hread ready_greeting hsuits
      (show ∀ s, (none : Option Snapshot) = some s → s.WellTyped from nofun)
  exact ⟨report, after, hrun, (hedit _ rfl).1⟩

/-- A color with too many digits stops the action at the first paragraph. -/
theorem Execution.perform_colorAll (scorer : Heading.Scorer) {row : List Char} (hh : host.Ready)
    (hne : host.document.passages ≠ []) (hrow : Numeral.IsRow row)
    (hlong : Numeral.maxDigits < row.length) :
    (perform ⟨.standard, scorer⟩ .updateTextFormat (colorAll (Color.ofRed row))).runOn host =
      (.error (.fault (.longInteger row.length)), host) := by
  have hcolor : colorDigits ⟨.standard, scorer⟩ ⟨some (Color.ofRed row), none, none⟩ =
      .error (.longInteger row.length) := by
    have hsome : (Color.ofRed row).isEmpty = false := by simp [Color.ofRed]
    simp only [colorDigits, hsome]
    exact Color.rgb?_ofRed hrow hlong
  have hall : host.document.passages.filter (isMeant .standard .all) = host.document.passages :=
    List.filter_eq_self.2 fun _ _ => rfl
  simp only [perform, colorAll, updateTextFormat, runOn_bind, hh.paragraphs, hall]
  exact queueStyles_error hne hcolor

/-- The color whose first channel is that many nines. -/
def nines (n : Nat) : String := Color.ofRed (List.replicate n '9')

/-- A color that is accepted can have too many digits.  Its action fails then, though no part of the
document is missing. -/
theorem run_stopped_by_digits {n : Nat} (hn : Numeral.maxDigits < n) :
    ∃ response report, readResponse .standard (coloring (nines n)) = .ok response ∧
      (coloring (nines n)).Writable ∧
      (runResponse ⟨"now", "e"⟩ .standard (coloring (nines n)) none).runOn
        { document := greeting } = (.ok report, { document := greeting }) ∧
      report.outcome = .failed (.actionFailed "update_text_format" (.longInteger n))
        [("action_index", .int 0), ("action_type", .str "update_text_format")] := by
  have hrow : Numeral.IsRow (List.replicate n '9') :=
    Numeral.isRow_replicate (by decide) (Nat.ne_of_gt (Nat.zero_lt_of_lt hn))
  have hread := readResponse_coloring (Color.isValid_ofRed hrow)
  have hwritable : isWritable (nines n).toList = true := by
    have hnine : isForbidden '9' = false := by decide
    simp [nines, Color.ofRed, isWritable, hnine]
    decide
  have hlong : Numeral.maxDigits < (List.replicate n '9').length := by simpa using hn
  have hperform := Execution.perform_colorAll Heading.overlapScore ready_greeting (by decide) hrow
    hlong
  rw [List.length_replicate] at hperform
  have hfails : (Execution.runAction ⟨.standard, Heading.overlapScore⟩
      (Execution.own (colorAll (nines n)))).runOn { document := greeting } =
        (.error (.failure (.actionFailed "update_text_format" (.longInteger n))), _) :=
    Execution.runAction_fault hperform
  have hplan : ∃ report, (runPlan ⟨"now", "e"⟩ .standard none
      ⟨"Edit plan generated successfully", .edit ⟨[colorAll (nines n)]⟩⟩).runOn
        { document := greeting } = (.ok report, _) ∧ report.outcome = _ :=
    runPlan_edit rfl (Execution.run_single_failed rfl hfails)
  obtain ⟨report, hreport, houtcome⟩ := hplan
  refine ⟨_, report, hread, writable_coloring hwritable, ?_, houtcome⟩
  exact (runResponse_of_read rfl hread).trans hreport

/-- A validated plan fails at a color of 4301 digits. -/
theorem run_stopped_by_4301_digits :
    ∃ response report, readResponse .standard (coloring (nines 4301)) = .ok response ∧
      (coloring (nines 4301)).Writable ∧
      (runResponse ⟨"now", "e"⟩ .standard (coloring (nines 4301)) none).runOn
        { document := greeting } = (.ok report, { document := greeting }) ∧
      ∃ f added, report.outcome = .failed f added ∧
        ¬Execution.Absent ⟨.standard, Heading.overlapScore⟩ greeting (colorAll (nines 4301)) f := by
  obtain ⟨response, report, hread, hw, hrun, houtcome⟩ :=
    run_stopped_by_digits (show Numeral.maxDigits < 4301 by decide)
  exact ⟨response, report, hread, hw, hrun, _, _, houtcome, nofun⟩

end Redline
