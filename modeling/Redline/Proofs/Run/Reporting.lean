import Redline.Proofs.Execution.Run
import Redline.Proofs.Execution.Stopping
import Redline.Proofs.Plan.Wording
import Redline.Proofs.Snapshot.Numbering
import Redline.Proofs.Snapshot.Stopping
import Redline.Run

/-!
# Runs report

Whatever goes wrong with the actions of an edit plan is told in the report of the run, and so is what
goes wrong with the operations of a block plan, but for one thing: a line that is to be inserted and
cannot be written stops the whole run, and what has been queued by then stays queued.  A response that
breaks a rule is told as well, unless its message would quote an integer of too many digits; in either
case nothing has been done by then.

## Main definitions

* `Snapshot.WellTyped` — a snapshot whose texts are texts and whose listed ids are ids.
-/

namespace Redline

open Editing Redline.Text

variable {host mid after left : Host} {mishap : Mishap}

/-! ## Edit plans -/

namespace Execution

variable {setting : Setting}

/-- An action that is run as what it is fails with a failure of the plan. -/
theorem runAction_own_error {action : Action}
    (h : (runAction setting (own action)).runOn host = (.error mishap, left)) :
    ∃ f, mishap = .failure f := by
  rw [runAction_own, asAction, runOn_tryCatch] at h
  split at h
  · simp at h
  · next early last _ =>
    cases early with
    | failure f => exact ⟨f, (Except.error.inj (congrArg Prod.fst h)).symm⟩
    | fault f => exact ⟨_, (Except.error.inj (congrArg Prod.fst h)).symm⟩

/-- A row of actions, each run as what it is, comes to an end of its own. -/
theorem runActions_own (setting : Setting) (actions : List Action) (index : Nat) (host : Host) :
    ∃ ended after, (runActions setting index (actions.map own)).runOn host = (.ok ended, after) := by
  induction actions generalizing index host with
  | nil => exact ⟨none, host, rfl⟩
  | cons action rest ih =>
    rcases hran : (runAction setting (own action)).runOn host with ⟨early | _, mid⟩
    · obtain ⟨f, rfl⟩ := runAction_own_error hran
      exact ⟨_, _, runActions_cons_of_failure hran⟩
    · obtain ⟨ended, after, hrest⟩ := ih (index + 1) mid
      refine ⟨ended, after, ?_⟩
      rw [List.map_cons, runActions_cons_of_ok (runAction_eq_ok.1 hran)]
      exact hrest

/-- A run of an edit plan has an outcome and leaves nothing queued. -/
theorem run_typed (setting : Setting) (plan : EditPlan) (hp : host.pending = []) :
    ∃ outcome after, (run setting plan.typed).runOn host = (.ok outcome, after) ∧
      after.pending = [] := by
  by_cases hopen : host.isOpen = true
  · rw [run_of_open hopen]
    obtain ⟨_ | outcome, after, hrun⟩ := runActions_own setting plan.actions 0 host
    · change (runActions setting 0 plan.typed).runOn host = _ at hrun
      have hflushed := runActions_eq_none.1 hrun
      rw [hrun]
      exact ⟨_, after, rfl, (hflushed.flushes (prepares_preparation setting) hp).1⟩
    · change (runActions setting 0 plan.typed).runOn host = _ at hrun
      obtain ⟨_, _, _, _, _, _, _, _, rfl, _⟩ := runActions_eq_some.1 hrun
      rw [hrun]
      exact ⟨outcome, _, rfl, rfl⟩
  · exact ⟨_, host, run_of_closed (by simpa using hopen), hp⟩

end Execution

/-! ## Block plans -/

namespace Snapshot

variable {rules : Rules} {snapshot : Snapshot} {m : Mapping} {op : Operation} {index : Nat}

/-- The texts of the blocks are texts, and the sections list texts as ids. -/
structure WellTyped (s : Snapshot) : Prop where
  texts : ∀ (id : String) (block : Block), (id, block) ∈ s.blocks → ∃ text, block.text = .str text
  listed : ∀ id ∈ s.listedIds, ∃ key, id = .str key

theorem wellTyped_ofPassages (rules : Rules) (epoch : String) (passages : List Passage) :
    (ofPassages rules epoch passages).WellTyped where
  texts := by
    intro id block hb
    rw [blocks_ofPassages] at hb
    obtain ⟨⟨_, p⟩, _, hp⟩ := List.mem_map.1 hb
    obtain ⟨rfl, rfl⟩ := Prod.mk.inj hp
    refine ⟨trimmed p.text, ?_⟩
    rw [blockOf]
    cases rules.headingLevel? p.style <;> rfl
  listed := by
    intro id hid
    rw [listedIds_ofPassages] at hid
    obtain ⟨e, _, rfl⟩ := List.mem_map.1 hid
    exact ⟨e.1, rfl⟩

theorem mem_of_lookup {α : Type} {l : List (String × α)} {key : String} {a : α}
    (h : l.lookup key = some a) : (key, a) ∈ l := by
  obtain ⟨before, after, rfl, _⟩ := List.lookup_eq_some_iff.1 h
  simp

namespace WellTyped

variable (hs : snapshot.WellTyped)
include hs

theorem excerpt_ne_error {key : String} {block : Block} {f : Fault}
    (hb : snapshot.blocks.lookup key = some block) : excerpt block ≠ .error f := by
  obtain ⟨text, htext⟩ := hs.texts _ _ (mem_of_lookup hb)
  simp [excerpt, htext]

theorem step_eq_ok (rules : Rules) (candidates : List Passage) (m : Mapping) (key : String) :
    ∃ m', Mapping.step rules snapshot candidates m (.str key) = .ok m' := by
  cases hb : snapshot.block? (.str key) with
  | none => exact ⟨m, by simp [Mapping.step, checkId, hb, Json.str?, bind, Except.bind]⟩
  | some block =>
    have hlookup : snapshot.blocks.lookup key = some block := hb
    obtain ⟨text, htext⟩ := hs.texts _ _ (mem_of_lookup hlookup)
    exact ⟨m.add rules candidates key block text,
      by simp [Mapping.step, checkId, hb, htext, Json.str?, bind, Except.bind]⟩

/-- The blocks of a well-typed snapshot can be looked for. -/
theorem mapping_eq_ok (rules : Rules) (passages : List Passage) :
    ∃ m, snapshot.mapping rules passages = .ok m := by
  have hfold : ∀ (listed : List Json) (m : Mapping), (∀ id ∈ listed, ∃ key, id = .str key) →
      ∃ m', listed.foldlM (Mapping.step rules snapshot (candidates passages)) m = .ok m' := by
    intro listed
    induction listed with
    | nil => exact fun m _ => ⟨m, rfl⟩
    | cons id rest ih =>
      intro m hlisted
      obtain ⟨⟨key, rfl⟩, hrest⟩ := List.forall_mem_cons.1 hlisted
      obtain ⟨m', hm'⟩ := hs.step_eq_ok rules (candidates passages) m key
      obtain ⟨last, hlast⟩ := ih m' hrest
      exact ⟨last, by rw [List.foldlM_cons, hm']; exact hlast⟩
  exact hfold snapshot.listedIds {} hs.listed

theorem rematch_eq_ok (rules : Rules) (ha : host.Answers) :
    ∃ m, snapshot.mapping rules host.document.passages = .ok m ∧
      (snapshot.rematch rules).runOn host = (.ok m, host) := by
  obtain ⟨m, hmapping⟩ := hs.mapping_eq_ok rules host.document.passages
  refine ⟨m, hmapping, ?_⟩
  rw [rematch, runOn_bind, ha.paragraphs]
  simp [hmapping]

/-- An operation on an open host is stopped by a fault of its own only if it inserts a line that
cannot be written. -/
theorem runOperation_fault {f : Fault} (hopen : host.isOpen = true)
    (h : (runOperation rules snapshot m index op).runOn host = (.error (.fault f), after)) :
    f = .forbiddenCharacter ∧ ∃ line ∈ insertedLines op, isWritable line = false := by
  rw [runOperation_eq, asOperation, runOn_tryCatch] at h
  rcases hran : (preparation rules snapshot m op).thenFlush.runOn host with ⟨(g | g) | _, left⟩
  · simp [hran, runOn_bind, Host.discard] at h
  · by_cases hf : g.family = .host
    · simp [hran, hf, runOn_bind, Host.discard] at h
    · simp only [hran, hf, if_false, runOn_fault, Prod.mk.injEq, Except.error.injEq,
        Mishap.fault.injEq] at h
      obtain ⟨rfl, _⟩ := h
      rcases thenFlush_error hran with hrun | ⟨_, _, hflush⟩
      · rcases preparation_error hrun with hg | ⟨_, hg⟩ | ⟨g', hg, ⟨block, hb, he⟩ | hline⟩
        · cases hg
        · cases hg
        · exact absurd he (hs.excerpt_ne_error hb)
        · exact Mishap.fault.inj hg ▸ hline hopen
      · obtain ⟨_, _, _, _, _, _, _, _, hg, _⟩ := Host.flush_eq_error hflush
        cases hg
        exact absurd rfl hf
  · simp [hran] at h

/-- A run of a block plan on an open host succeeds, or fails with a failure of the plan, and leaves
nothing queued; anything else is due to a line that cannot be written. -/
theorem run_ends (rules : Rules) (plan : BlockPlan) (ha : host.Answers) (hp : host.pending = []) :
    (∃ after, (run rules snapshot plan).runOn host = (.ok (), after) ∧ after.pending = []) ∨
      (∃ f after, (run rules snapshot plan).runOn host = (.error (.failure f), after) ∧
        after.pending = []) ∨
      ∃ op ∈ plan.operations, (∃ line ∈ insertedLines op, isWritable line = false) ∧
        ∃ after, (run rules snapshot plan).runOn host =
          (.error (.fault .forbiddenCharacter), after) := by
  obtain ⟨m, _, hm⟩ := hs.rematch_eq_ok rules ha
  have hprepares := prepares_preparation rules snapshot m
  rw [run_of_rematch ha.isOpen hm]
  rcases hrun : (runOperations rules snapshot m 0 plan.operations).runOn host with
    ⟨mishap | _, after⟩
  · obtain ⟨k, op, mid, hat, hsteps, hfail⟩ := runOperations_eq_error.1 hrun
    cases mishap with
    | failure f => exact .inr (.inl ⟨f, after, rfl, (runOperation_failure hfail).1.pending⟩)
    | fault f =>
      have hopen : mid.isOpen = true := (hsteps.isOpen hprepares).trans ha.isOpen
      obtain ⟨rfl, hline⟩ := hs.runOperation_fault hopen hfail
      exact .inr (.inr ⟨op, List.mem_of_getElem? hat, hline, after, rfl⟩)
  · exact .inl ⟨after, rfl, ((runOperations_eq_ok_iff.1 hrun).flushes hprepares hp).1⟩

end WellTyped

end Snapshot

/-! ## Responses -/

variable {stamp : Stamp} {rules : Rules} {payload : Json} {snapshot : Option Snapshot}

/-- The snapshot that a block plan is run with is well typed if the one that is given is. -/
theorem snapshotOr_wellTyped (stamp : Stamp) (rules : Rules) (ha : host.Answers)
    (hs : ∀ s, snapshot = some s → s.WellTyped) :
    ∃ s : Snapshot, (snapshotOr stamp rules snapshot).runOn host = (.ok s, host) ∧
      s.WellTyped := by
  cases snapshot with
  | some s => exact ⟨s, rfl, hs s rfl⟩
  | none =>
    refine ⟨Snapshot.ofPassages rules stamp.epoch host.document.passages, ?_,
      Snapshot.wellTyped_ofPassages _ _ _⟩
    simp [snapshotOr, Snapshot.extract, Anchor.ensureHost, runOn_bind, runOn_map, ha.isOpen,
      ha.paragraphs]

/-- A piece of work of a block plan has an outcome unless a fault ends it. -/
theorem outcomeOf_of_ok {success : String} {work : Editing Unit}
    (h : work.runOn host = (.ok (), after)) :
    (outcomeOf success work).runOn host = (.ok (.success success), after) := by
  rw [outcomeOf, runOn_tryCatch, runOn_bind, h]
  rfl

theorem outcomeOf_of_failure {success : String} {work : Editing Unit} {f : Failure}
    (h : work.runOn host = (.error (.failure f), after)) :
    (outcomeOf success work).runOn host = (.ok (.failed f []), after) := by
  rw [outcomeOf, runOn_tryCatch, runOn_bind, h]
  rfl

theorem outcomeOf_of_fault {success : String} {work : Editing Unit} {f : Fault}
    (h : work.runOn host = (.error (.fault f), after)) :
    (outcomeOf success work).runOn host = (.error (.fault f), after) := by
  rw [outcomeOf, runOn_tryCatch, runOn_bind, h]
  rfl

section
variable {response : Response} {outcome : RunOutcome}

/-- The report on an edit plan tells the outcome of its run. -/
theorem runPlan_edit {plan : EditPlan} (hplan : response.plan = .edit plan)
    (hrun : (Execution.run ⟨rules, Heading.overlapScore⟩ plan.typed).runOn host =
      (.ok outcome, after)) :
    ∃ report, (runPlan stamp rules snapshot response).runOn host = (.ok report, after) ∧
      report.outcome = outcome := by
  rw [runPlan, runOn_bind, runOn_get]
  simp only [hplan, runOn_bind, hrun, runOn_pure]
  exact ⟨_, rfl, rfl⟩

/-- The report on a block plan tells the outcome of its run. -/
theorem runPlan_block {plan : BlockPlan} {s : Snapshot} (hplan : response.plan = .block plan)
    (hsnapshot : (snapshotOr stamp rules snapshot).runOn host = (.ok s, host))
    (hrun : (outcomeOf s!"Successfully executed {plan.operations.length} semantic operation(s)"
      (Snapshot.run rules s plan)).runOn host = (.ok outcome, after)) :
    ∃ report, (runPlan stamp rules snapshot response).runOn host = (.ok report, after) ∧
      report.outcome = outcome := by
  rw [runPlan, runOn_bind, runOn_get]
  simp only [hplan, runOn_bind, hsnapshot, hrun, runOn_pure]
  exact ⟨_, rfl, rfl⟩

/-- A response that has been read has its plan run. -/
theorem runResponse_of_read (hopen : host.isOpen = true)
    (hread : readResponse rules payload = .ok response) :
    (runResponse stamp rules payload snapshot).runOn host =
      (runPlan stamp rules snapshot response).runOn host := by
  simp [runResponse, hread, runOn_bind, hopen]

end

/-- A plan that has been read is reported on, and nothing stays queued, unless a line cannot be
written. -/
theorem runPlan_reports (stamp : Stamp) (rules : Rules) (response : Response)
    (ha : host.Answers) (hp : host.pending = []) (hs : ∀ s, snapshot = some s → s.WellTyped) :
    (∃ report after, (runPlan stamp rules snapshot response).runOn host = (.ok report, after) ∧
      after.pending = []) ∨
    ∃ plan, response.plan = .block plan ∧ ∃ op ∈ plan.operations,
      (∃ line ∈ Snapshot.insertedLines op, isWritable line = false) ∧
        ∃ after, (runPlan stamp rules snapshot response).runOn host =
          (.error (.fault .forbiddenCharacter), after) := by
  cases hplan : response.plan with
  | edit plan =>
    obtain ⟨outcome, after, hrun, hpending⟩ :=
      Execution.run_typed ⟨rules, Heading.overlapScore⟩ plan hp
    obtain ⟨report, hreport, _⟩ := runPlan_edit hplan hrun
    exact .inl ⟨report, after, hreport, hpending⟩
  | block plan =>
    obtain ⟨s, hsnapshot, hwell⟩ := snapshotOr_wellTyped stamp rules ha hs
    rcases hwell.run_ends rules plan ha hp with
      ⟨after, hrun, hpending⟩ | ⟨f, after, hrun, hpending⟩ | ⟨op, hop, hline, after, hrun⟩
    · obtain ⟨report, hreport, _⟩ := runPlan_block hplan hsnapshot (outcomeOf_of_ok hrun)
      exact .inl ⟨report, after, hreport, hpending⟩
    · obtain ⟨report, hreport, _⟩ := runPlan_block hplan hsnapshot (outcomeOf_of_failure hrun)
      exact .inl ⟨report, after, hreport, hpending⟩
    · refine .inr ⟨plan, rfl, op, hop, hline, after, ?_⟩
      rw [runPlan, runOn_bind, runOn_get]
      simp only [hplan, runOn_bind, hsnapshot, outcomeOf_of_fault hrun]

/-- A response that breaks a rule is reported without a look at the document, unless the value that
the message quotes cannot be shown. -/
theorem runResponse_of_rejected {rejection : Rejection} (stamp : Stamp) (host : Host)
    (hread : readResponse rules payload = .error rejection) :
    (∃ message, rejection.violation.message = .ok message ∧
        (runResponse stamp rules payload snapshot).runOn host =
          (.ok { time := stamp.time, outcome := .failed (.rejected rejection message) [] },
            host)) ∨
      (∃ value ∈ rejection.violation.quoted, value.HasLong) ∧
        (runResponse stamp rules payload snapshot).runOn host =
          (.error (.fault .unwrittenInteger), host) := by
  simp only [runResponse, hread]
  rcases rejection.violation.message_cases with ⟨hlong, hmessage⟩ | ⟨_, message, hmessage⟩
  · rw [hmessage]
    exact .inr ⟨hlong, rfl⟩
  · rw [hmessage]
    exact .inl ⟨message, rfl, rfl⟩

/-- A response that has been read is always reported on, and the host has nothing queued afterwards,
except when a block plan inserts a line that cannot be written: that fault is not caught.  A
response that breaks a rule is reported as well, and the host is left as it is; only a message that
would quote an integer of too many digits is not. -/
theorem runResponse_reports (stamp : Stamp) (rules : Rules) (payload : Json)
    (ha : host.Answers) (hp : host.pending = []) (hs : ∀ s, snapshot = some s → s.WellTyped) :
    (∀ response, readResponse rules payload = .ok response →
      (∃ report after,
        (runResponse stamp rules payload snapshot).runOn host = (.ok report, after) ∧
        after.pending = []) ∨
      ∃ plan, response.plan = .block plan ∧ ∃ op ∈ plan.operations,
        (∃ line ∈ Snapshot.insertedLines op, isWritable line = false) ∧
          ∃ after, (runResponse stamp rules payload snapshot).runOn host =
            (.error (.fault .forbiddenCharacter), after)) ∧
    ∀ rejection, readResponse rules payload = .error rejection →
      (∃ message, rejection.violation.message = .ok message ∧
        (runResponse stamp rules payload snapshot).runOn host =
          (.ok { time := stamp.time, outcome := .failed (.rejected rejection message) [] },
            host)) ∨
      (∃ value ∈ rejection.violation.quoted, value.HasLong) ∧
        (runResponse stamp rules payload snapshot).runOn host =
          (.error (.fault .unwrittenInteger), host) := by
  refine ⟨fun response hread => ?_, fun _ hread => runResponse_of_rejected stamp host hread⟩
  rw [runResponse_of_read ha.isOpen hread]
  exact runPlan_reports stamp rules response ha hp hs

/-- A document of one line. -/
def greeting : Document where
  body := .single (.paragraph ⟨0⟩ "Normal" none) (.runOf "Hello".toList)
  nextHandle := 1

/-- A response with a block plan that inserts lines behind the first block. -/
def insertionOf (content : String) : Json :=
  .obj [("ops", .arr [.obj [("action", .str "insert_after"), ("target_block_id", .str "b1"),
    ("content", .str content)]])]

theorem runResponse_reports_insertion :
    ∃ report after, (runResponse ⟨"now", "e"⟩ .standard (insertionOf "one\ntwo") none).runOn
        { document := greeting } = (.ok report, after) ∧ after.pending = [] := by
  obtain ⟨hread, _⟩ := @runResponse_reports { document := greeting } none ⟨"now", "e"⟩
    .standard (insertionOf "one\ntwo") ⟨rfl, rfl⟩ rfl nofun
  rcases hread _ rfl with hreport | ⟨plan, hplan, op, hop, ⟨line, hline, hw⟩, _⟩
  · exact hreport
  · obtain rfl := (ResponsePlan.block.inj hplan).symm
    obtain rfl := List.mem_singleton.1 hop
    have hall : ∀ line ∈ lines "one\ntwo".toList, isWritable line = true := by decide
    simp [hall line hline] at hw

/-- A line that cannot be written stops the run: there is no report, and the line in front of it
stays queued. -/
theorem runResponse_stopped_by_line :
    ∃ after, (runResponse ⟨"now", "e"⟩ .standard (insertionOf "one\n\x00") none).runOn
        { document := greeting } = (.error (.fault .forbiddenCharacter), after) ∧
      after.pending = [.insertBeside ⟨1⟩ "one" .after ⟨0⟩, .setStyle ⟨1⟩ "Normal"] := by
  exact ⟨_, rfl, rfl⟩

end Redline
