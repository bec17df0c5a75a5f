import Redline.Proofs.Execution.Refusals
import Redline.Proofs.Stopping

/-!
# Block plans that stop

The first operation that fails ends the run of a block plan.  The blocks are looked for once, at the
start, so the operations before it do what they do without it.

## Main definitions

* `Snapshot.preparation` — an operation before the flush.
-/

namespace Redline.Snapshot

open Editing Redline.Text

variable {rules : Rules} {snapshot : Snapshot} {m : Mapping} {op : Operation} {index : Nat}
  {ops : List Operation} {host mid after left : Host} {mishap : Mishap}

/-- An operation before the flush. -/
def preparation (rules : Rules) (snapshot : Snapshot) (m : Mapping) (op : Operation) :
    Editing Unit := do
  let p ← snapshot.target m op
  performOperation rules op p.handle

theorem prepares_preparation (rules : Rules) (snapshot : Snapshot) (m : Mapping)
    (op : Operation) : Prepares (preparation rules snapshot m op) :=
  (prepares_target snapshot m op).bind fun _ => prepares_performOperation rules op _

theorem runOperation_eq : runOperation rules snapshot m index op =
    asOperation index op (preparation rules snapshot m op).thenFlush := by
  simp [runOperation, preparation, thenFlush]

/-! ## Mishaps -/

/-- Lines are inserted unless one of them cannot be written. -/
theorem insertLines_error {insert : String → Editing Handle} {lines : List (List Char)}
    (hi : Host.Inserting insert)
    (h : (insertLines rules insert lines).runOn host = (.error mishap, left)) :
    ∃ f, mishap = .fault f ∧ (host.isOpen = true →
      f = .forbiddenCharacter ∧ ∃ line ∈ lines, isWritable line = false) := by
  rw [Execution.insertLines_eq_insertEach] at h
  rcases Execution.insertEach_error hi (fun _ _ => Host.prepares_queue _) h with
    hrefused | ⟨_, _, _, _, _, hqueue⟩
  · simpa using hrefused
  · simp at hqueue

/-- What an operation inserts, none for one that replaces. -/
def insertedLines (op : Operation) : List (List Char) :=
  match op.kind with
  | .replace => []
  | .insertAfter | .insertBefore => lines op.content.toList

/-- An operation on an open host queues its effects unless it inserts a line that cannot be
written. -/
theorem performOperation_error {p : Handle}
    (h : (performOperation rules op p).runOn host = (.error mishap, left)) :
    ∃ f, mishap = .fault f ∧ (host.isOpen = true →
      f = .forbiddenCharacter ∧ ∃ line ∈ insertedLines op, isWritable line = false) := by
  have hinsert : ∀ side, (insertLines rules (fun text => Host.insertParagraph text p side)
      (lines op.content.toList)).runOn host = (.error mishap, left) →
      ∃ f, mishap = .fault f ∧ (host.isOpen = true →
        f = .forbiddenCharacter ∧ ∃ line ∈ lines op.content.toList, isWritable line = false) :=
    fun side => insertLines_error (Host.inserting_insertParagraph p side)
  rw [performOperation] at h
  rw [insertedLines]
  cases hkind : op.kind with
  | replace => simp [hkind] at h
  | insertAfter => exact hinsert .after (by simpa [hkind] using h)
  | insertBefore => exact hinsert .before (by simpa [hkind] using h)

/-- The paragraph of an operation is missed for one of three reasons. -/
theorem target_error (h : (snapshot.target m op).runOn host = (.error mishap, left)) :
    mishap = .failure (.unknownBlock op.target snapshot.blockIds) ∨
      (∃ beginning, mishap = .failure (.vanishedBlock op.target beginning snapshot.epoch)) ∨
      ∃ f block, mishap = .fault f ∧ snapshot.blocks.lookup op.target = some block ∧
        excerpt block = .error f := by
  unfold target at h
  cases hblock : snapshot.blocks.lookup op.target with
  | none =>
    simp only [hblock, runOn_failure, Prod.mk.injEq, Except.error.injEq] at h
    exact .inl h.1.symm
  | some block =>
    cases hp : m.matched.lookup op.target with
    | some p => simp [hblock, hp] at h
    | none =>
      cases hb : excerpt block with
      | ok beginning =>
        simp only [hblock, hp, hb, runOn_bind, runOn_lift_ok, runOn_failure, Prod.mk.injEq,
          Except.error.injEq] at h
        exact .inr (.inl ⟨beginning, h.1.symm⟩)
      | error f =>
        simp only [hblock, hp, hb, runOn_bind, lift, runOn_fault, Prod.mk.injEq,
          Except.error.injEq] at h
        exact .inr (.inr ⟨f, block, h.1.symm, rfl, hb⟩)

/-- An operation that fails before the flush lacks its paragraph; its host refuses nothing but lines
that cannot be written. -/
theorem preparation_error
    (h : (preparation rules snapshot m op).runOn host = (.error mishap, left)) :
    mishap = .failure (.unknownBlock op.target snapshot.blockIds) ∨
      (∃ beginning, mishap = .failure (.vanishedBlock op.target beginning snapshot.epoch)) ∨
      (∃ f, mishap = .fault f ∧ (
        (∃ block, snapshot.blocks.lookup op.target = some block ∧ excerpt block = .error f) ∨
        (host.isOpen = true →
          f = .forbiddenCharacter ∧ ∃ line ∈ insertedLines op, isWritable line = false))) := by
  rw [preparation, runOn_bind] at h
  have hprepared := prepares_target snapshot m op host
  rcases hrun : (snapshot.target m op).runOn host with ⟨early | p, ready⟩
  · simp only [hrun, Prod.mk.injEq, Except.error.injEq] at h
    obtain ⟨rfl, _⟩ := h
    obtain hunknown | hvanished | ⟨f, block, hf, hblock, hb⟩ := target_error hrun
    · exact .inl hunknown
    · exact .inr (.inl hvanished)
    · exact .inr (.inr ⟨f, hf, .inl ⟨block, hblock, hb⟩⟩)
  · simp only [hrun] at h hprepared
    obtain ⟨f, hf, hopen⟩ := performOperation_error h
    exact .inr (.inr ⟨f, hf, .inr fun ho => hopen (hprepared.isOpen.trans ho)⟩)

/-! ## Runs -/

theorem runOperation_eq_ok_iff :
    (runOperation rules snapshot m index op).runOn host = (.ok (), after) ↔
      Flushed (preparation rules snapshot m op) host after := by
  rw [runOperation_eq, asOperation, tryCatch_eq_ok, Flushed]
  rintro (failure | fault) host
  · simp [runOn_bind, Host.discard]
  · by_cases hf : fault.family = .host <;> simp [hf, runOn_bind, Host.discard]

/-- An operation that fails has stopped, and its failure tells its position. -/
theorem runOperation_failure {f : Failure}
    (h : (runOperation rules snapshot m index op).runOn host = (.error (.failure f), after)) :
    Stops (preparation rules snapshot m op) host after ∧
      f.refusal.details.lookup "op_index" = some (.int index) := by
  rw [runOperation_eq, asOperation, runOn_tryCatch] at h
  rcases hran : (preparation rules snapshot m op).thenFlush.runOn host with ⟨(g | fault) | _, left⟩
  · simp only [hran, runOn_bind, Host.discard, runOn_get, runOn_set, runOn_pure, runOn_failure,
      Prod.mk.injEq, Except.error.injEq, Mishap.failure.injEq] at h
    obtain ⟨rfl, rfl⟩ := h
    refine ⟨stops_of_error (prepares_preparation rules snapshot m op) hran, ?_⟩
    rcases thenFlush_error hran with hrun | ⟨ready, _, hflush⟩
    · rcases preparation_error hrun with hg | ⟨beginning, hg⟩ | ⟨_, hg, _⟩
      · obtain rfl := Mishap.failure.inj hg
        rfl
      · obtain rfl := Mishap.failure.inj hg
        rfl
      · cases hg
    · obtain ⟨_, _, _, _, _, _, _, _, hg, _⟩ := Host.flush_eq_error hflush
      cases hg
  · by_cases hf : fault.family = .host
    · simp only [hran, hf, if_true, runOn_bind, Host.discard, runOn_get, runOn_set, runOn_pure,
        runOn_failure, Prod.mk.injEq, Except.error.injEq, Mishap.failure.injEq] at h
      obtain ⟨rfl, rfl⟩ := h
      exact ⟨stops_of_error (prepares_preparation rules snapshot m op) hran, rfl⟩
    · simp [hran, hf] at h
  · simp [hran] at h

/-- A row of operations goes through when each of them does. -/
theorem runOperations_eq_ok_iff :
    (runOperations rules snapshot m index ops).runOn host = (.ok (), after) ↔
      OneByOne (fun op => Flushed (preparation rules snapshot m op)) ops host after := by
  induction ops generalizing index host with
  | nil => simp [runOperations, OneByOne.nil_iff, eq_comm]
  | cons op rest ih =>
    rw [runOperations, bind_eq_ok, OneByOne.cons_iff]
    constructor
    · rintro ⟨_, mid, hop, hrest⟩
      exact ⟨mid, runOperation_eq_ok_iff.1 hop, ih.1 hrest⟩
    · rintro ⟨mid, hop, hrest⟩
      exact ⟨(), mid, runOperation_eq_ok_iff.2 hop, ih.2 hrest⟩

theorem runOperations_cons_of_ok {rest : List Operation}
    (h : Flushed (preparation rules snapshot m op) host mid) :
    (runOperations rules snapshot m index (op :: rest)).runOn host =
      (runOperations rules snapshot m (index + 1) rest).runOn mid := by
  rw [runOperations, runOn_bind, runOperation_eq_ok_iff.2 h]

theorem runOperations_cons_of_error {rest : List Operation}
    (h : (runOperation rules snapshot m index op).runOn host = (.error mishap, after)) :
    (runOperations rules snapshot m index (op :: rest)).runOn host = (.error mishap, after) := by
  rw [runOperations, runOn_bind, h]

/-- A row of operations ends early at the first that fails. -/
theorem runOperations_eq_error :
    (runOperations rules snapshot m index ops).runOn host = (.error mishap, after) ↔
      ∃ (k : Nat) (op : Operation) (mid : Host), ops[k]? = some op ∧
        OneByOne (fun op => Flushed (preparation rules snapshot m op)) (ops.take k) host mid ∧
        (runOperation rules snapshot m (index + k) op).runOn mid = (.error mishap, after) := by
  induction ops generalizing index host with
  | nil => simp [runOperations]
  | cons op rest ih =>
    constructor
    · intro h
      rcases hran : (runOperation rules snapshot m index op).runOn host with ⟨early | _, mid⟩
      · rw [runOperations_cons_of_error hran] at h
        exact ⟨0, op, host, rfl, .nil host, hran.trans h⟩
      · have hflushed := runOperation_eq_ok_iff.1 hran
        rw [runOperations_cons_of_ok hflushed, ih] at h
        obtain ⟨k, failing, mid', hat, hsteps, hfail⟩ := h
        refine ⟨k + 1, failing, mid', hat, .cons hflushed hsteps, ?_⟩
        rwa [Nat.add_assoc, Nat.add_comm 1 k] at hfail
    · rintro ⟨k, failing, mid, hat, hsteps, hfail⟩
      cases k with
      | zero =>
        obtain rfl : op = failing := by simpa using hat
        obtain rfl : mid = host := OneByOne.nil_iff.1 hsteps
        exact runOperations_cons_of_error hfail
      | succ k =>
        rw [List.take_succ_cons] at hsteps
        obtain ⟨next, hflushed, hrest⟩ := OneByOne.cons_iff.1 hsteps
        rw [runOperations_cons_of_ok hflushed, ih]
        refine ⟨k, failing, mid, hat, hrest, ?_⟩
        rwa [Nat.add_assoc, Nat.add_comm 1 k]

/-- Looking for blocks leaves the host as it was; what goes wrong with it is no failure of a
plan. -/
theorem rematch_cases (snapshot : Snapshot) (rules : Rules) (host : Host) :
    (∃ fault, (snapshot.rematch rules).runOn host = (.error (.fault fault), host)) ∨
      ∃ m, (snapshot.rematch rules).runOn host = (.ok m, host) := by
  cases hdown : host.outages.lookup .paragraphs with
  | some fault =>
    exact .inl ⟨fault, by
      simp [rematch, Host.paragraphs, Host.ask, Host.check, runOn_bind, hdown]⟩
  | none =>
    by_cases hopen : host.isOpen = true
    · cases hm : snapshot.mapping rules host.document.passages with
      | error fault =>
        exact .inl ⟨fault, by simp [rematch, Host.paragraphs, Host.ask, Host.check,
          Host.openDocument, runOn_bind, hdown, hopen, hm, lift]⟩
      | ok m =>
        exact .inr ⟨m, by simp [rematch, Host.paragraphs, Host.ask, Host.check,
          Host.openDocument, runOn_bind, hdown, hopen, hm]⟩
    · exact .inl ⟨_, by simp [rematch, Host.paragraphs, Host.ask, Host.check,
        Host.openDocument, runOn_bind, hdown, hopen]; rfl⟩

/-- A run on an open host looks for the blocks once. -/
theorem run_of_rematch {plan : BlockPlan} (hopen : host.isOpen = true)
    (hm : (snapshot.rematch rules).runOn host = (.ok m, host)) :
    (run rules snapshot plan).runOn host =
      (runOperations rules snapshot m 0 plan.operations).runOn host := by
  simp [run, Anchor.ensureHost, runOn_bind, hopen, hm]

/-- How a run can begin: on a closed host, with blocks that cannot be looked for, or with a
mapping. -/
theorem run_cases (rules : Rules) (snapshot : Snapshot) (plan : BlockPlan) (host : Host) :
    (run rules snapshot plan).runOn host = (.error (.failure .hostUnavailable), host) ∨
      (∃ fault, (run rules snapshot plan).runOn host = (.error (.fault fault), host)) ∨
      ∃ m, host.isOpen = true ∧ (snapshot.rematch rules).runOn host = (.ok m, host) := by
  by_cases hopen : host.isOpen = true
  · rcases rematch_cases snapshot rules host with ⟨fault, hfault⟩ | ⟨m, hm⟩
    · refine .inr (.inl ⟨fault, ?_⟩)
      simp [run, Anchor.ensureHost, runOn_bind, hopen, hfault]
    · exact .inr (.inr ⟨m, hopen, hm⟩)
  · refine .inl ?_
    simp [run, Anchor.ensureHost, runOn_bind, hopen]

/-- A run that succeeds has carried out its operations one by one. -/
theorem flushed_of_success {plan : BlockPlan}
    (h : (run rules snapshot plan).runOn host = (.ok (), after)) :
    ∃ m, (snapshot.rematch rules).runOn host = (.ok m, host) ∧
      OneByOne (fun op => Flushed (preparation rules snapshot m op)) plan.operations host after := by
  rcases run_cases rules snapshot plan host with hclosed | ⟨fault, hrun⟩ | ⟨m, hopen, hm⟩
  · simp [hclosed] at h
  · simp [hrun] at h
  · rw [run_of_rematch hopen hm] at h
    exact ⟨m, hm, runOperations_eq_ok_iff.1 h⟩

/-- A run that fails at an operation has carried out those before it, and those behind it are as if
they were not there. -/
theorem stops_of_failed {plan : BlockPlan} {f : Failure} {i : Int}
    (h : (run rules snapshot plan).runOn host = (.error (.failure f), after))
    (hi : f.refusal.details.lookup "op_index" = some (.int i)) :
    ∃ (m : Mapping) (k : Nat) (op : Operation) (mid : Host), i = k ∧ host.isOpen = true ∧
      (snapshot.rematch rules).runOn host = (.ok m, host) ∧ plan.operations[k]? = some op ∧
      OneByOne (fun op => Flushed (preparation rules snapshot m op)) (plan.operations.take k)
        host mid ∧
      Stops (preparation rules snapshot m op) mid after ∧
      ∀ rest, (run rules snapshot ⟨plan.operations.take (k + 1) ++ rest⟩).runOn host =
        (.error (.failure f), after) := by
  rcases run_cases rules snapshot plan host with hclosed | ⟨fault, hrun⟩ | ⟨m, hopen, hm⟩
  · simp only [hclosed, Prod.mk.injEq, Except.error.injEq, Mishap.failure.injEq] at h
    simp [← h.1, Failure.refusal, Refusal.hostUnavailable, List.lookup_cons] at hi
  · simp [hrun] at h
  · rw [run_of_rematch hopen hm] at h
    obtain ⟨k, op, mid, hat, hsteps, hfail⟩ := runOperations_eq_error.1 h
    obtain ⟨hstops, hindex⟩ := runOperation_failure hfail
    have hk : i = k := by simpa using (hi.symm.trans hindex)
    refine ⟨m, k, op, mid, hk, hopen, hm, hat, hsteps, hstops, fun rest => ?_⟩
    obtain ⟨hat', htake⟩ := take_succ_append hat rest
    rw [run_of_rematch hopen hm]
    exact runOperations_eq_error.2 ⟨k, op, mid, hat', htake ▸ hsteps, hfail⟩

end Redline.Snapshot
