import Redline.Proofs.Execution.Run
import Redline.Proofs.Stopping

/-!
# Edit plans that stop

The first action that fails ends the run of an edit plan.  What the actions before it have made stays
made, and those behind it are as if they were not there.

## Main definitions

* `Execution.preparation` — an action before the flush.
-/

namespace Redline

open Editing

variable {host mid after left : Host}

namespace Execution

variable {setting : Setting} {typed : TypedAction} {actions : List TypedAction} {index : Nat}

/-- An action before the flush. -/
def preparation (setting : Setting) (typed : TypedAction) : Editing Unit :=
  match typed.type with
  | .arr _ | .obj _ => Editing.fault (.wrongType "a name is expected")
  | _ =>
    match typed.type.str?.bind ActionKind.ofName? with
    | none => failUnknown typed.type
    | some kind => perform setting kind typed.action

theorem preparation_own (setting : Setting) (action : Action) :
    preparation setting (own action) = perform setting action.kind action := by
  simp [preparation, own, Json.str?]

theorem prepares_preparation (setting : Setting) (typed : TypedAction) :
    Prepares (preparation setting typed) := by
  rw [preparation]
  split
  · exact .fault _
  · exact .fault _
  · split
    · exact (Prepares.lift _).bind fun _ => .failure _
    · exact prepares_perform setting _ _

/-- What goes wrong with an action of a kind, as the action tells it. -/
def worded (kind : ActionKind) : Mishap → Mishap
  | .fault f => .failure (.actionFailed kind.name f)
  | mishap => mishap

theorem failUnknown_error (type : Json) (host : Host) :
    ∃ mishap, (failUnknown type : Editing Unit).runOn host = (.error mishap, host) := by
  rw [failUnknown]
  rcases type.display with fault | shown
  · exact ⟨.fault fault, rfl⟩
  · exact ⟨.failure (.unknownAction shown), rfl⟩

/-- An action is its preparation with a flush, but for the wording of what goes wrong. -/
theorem runOn_runAction (setting : Setting) (typed : TypedAction) :
    ∃ word : Mishap → Mishap, ∀ host, (runAction setting typed).runOn host =
      (((preparation setting typed).thenFlush.runOn host).1.mapError word,
        ((preparation setting typed).thenFlush.runOn host).2) := by
  obtain ⟨type, action⟩ := typed
  have hunknown (hrun : runAction setting ⟨type, action⟩ = failUnknown type)
      (hwork : preparation setting ⟨type, action⟩ = failUnknown type) :
      ∃ word : Mishap → Mishap, ∀ host, (runAction setting ⟨type, action⟩).runOn host =
        (((preparation setting ⟨type, action⟩).thenFlush.runOn host).1.mapError word,
          ((preparation setting ⟨type, action⟩).thenFlush.runOn host).2) := by
    refine ⟨id, fun host => ?_⟩
    obtain ⟨mishap, hfail⟩ := failUnknown_error type host
    simp [hrun, hwork, thenFlush, runOn_bind, hfail, Except.mapError]
  cases type with
  | str name =>
    cases hkind : ActionKind.ofName? name with
    | none =>
      exact hunknown (by simp [runAction, Json.str?, hkind]) (by simp [preparation, Json.str?, hkind])
    | some kind =>
      have hwork : preparation setting ⟨.str name, action⟩ = perform setting kind action := by
        simp [preparation, Json.str?, hkind]
      have hrun : runAction setting ⟨.str name, action⟩ =
          asAction kind.name (perform setting kind action).thenFlush := by
        simp [runAction, thenFlush, Json.str?, hkind]
      refine ⟨worded kind, fun host => ?_⟩
      rw [hrun, hwork, asAction, runOn_tryCatch]
      rcases (perform setting kind action).thenFlush.runOn host with ⟨(f | f) | _, last⟩ <;> rfl
  | arr _ | obj _ => exact ⟨id, fun host => rfl⟩
  | _ => exact hunknown rfl rfl

theorem runAction_eq_ok : (runAction setting typed).runOn host = (.ok (), after) ↔
    Flushed (preparation setting typed) host after := by
  obtain ⟨word, hword⟩ := runOn_runAction setting typed
  rw [hword, Flushed]
  rcases (preparation setting typed).thenFlush.runOn host with ⟨mishap | _, last⟩ <;>
    simp [Except.mapError]

theorem runAction_stops {mishap : Mishap}
    (h : (runAction setting typed).runOn host = (.error mishap, left)) :
    Stops (preparation setting typed) host { left with pending := [] } := by
  obtain ⟨word, hword⟩ := runOn_runAction setting typed
  rw [hword] at h
  rcases hran : (preparation setting typed).thenFlush.runOn host with ⟨early | _, last⟩
  · obtain rfl : last = left := by simpa [hran] using congrArg Prod.snd h
    exact stops_of_error (prepares_preparation setting typed) hran
  · simp [hran, Except.mapError] at h

theorem runActions_cons_of_ok {rest : List TypedAction}
    (h : Flushed (preparation setting typed) host mid) :
    (runActions setting index (typed :: rest)).runOn host =
      (runActions setting (index + 1) rest).runOn mid := by
  rw [runActions, runOn_bind, runOn_tryCatch, runOn_bind, runAction_eq_ok.2 h]
  rfl

theorem runActions_cons_of_failure {rest : List TypedAction} {f : Failure}
    (h : (runAction setting typed).runOn host = (.error (.failure f), left)) :
    (runActions setting index (typed :: rest)).runOn host =
      (.ok (some (.failed f [("action_index", .int index), ("action_type", typed.type)])),
        { left with pending := [] }) := by
  rw [runActions, runOn_bind, runOn_tryCatch, runOn_bind, h]
  rfl

/-- A row of actions goes through when each of them does. -/
theorem runActions_eq_none :
    (runActions setting index actions).runOn host = (.ok none, after) ↔
      OneByOne (fun typed => Flushed (preparation setting typed)) actions host after := by
  induction actions generalizing index host with
  | nil => simp [runActions, OneByOne.nil_iff, eq_comm]
  | cons typed rest ih =>
    rw [OneByOne.cons_iff]
    constructor
    · intro h
      rcases hran : (runAction setting typed).runOn host with ⟨(f | f) | _, mid⟩
      · rw [runActions_cons_of_failure hran] at h
        simp at h
      · rw [runActions, runOn_bind, runOn_tryCatch, runOn_bind, hran] at h
        simp at h
      · have hflushed := runAction_eq_ok.1 hran
        rw [runActions_cons_of_ok hflushed] at h
        exact ⟨mid, hflushed, ih.1 h⟩
    · rintro ⟨mid, hflushed, hrest⟩
      rw [runActions_cons_of_ok hflushed]
      exact ih.2 hrest

/-- A row of actions ends early at the first that fails. -/
theorem runActions_eq_some {outcome : RunOutcome} :
    (runActions setting index actions).runOn host = (.ok (some outcome), after) ↔
      ∃ (k : Nat) (typed : TypedAction) (f : Failure) (mid left : Host),
        actions[k]? = some typed ∧
        OneByOne (fun typed => Flushed (preparation setting typed)) (actions.take k) host mid ∧
        (runAction setting typed).runOn mid = (.error (.failure f), left) ∧
        after = { left with pending := [] } ∧
        outcome = .failed f
          [("action_index", .int ↑(index + k)), ("action_type", typed.type)] := by
  induction actions generalizing index host with
  | nil => simp [runActions]
  | cons typed rest ih =>
    constructor
    · intro h
      rcases hran : (runAction setting typed).runOn host with ⟨(f | f) | _, mid⟩
      · rw [runActions_cons_of_failure hran] at h
        simp only [Prod.mk.injEq, Except.ok.injEq, Option.some.injEq] at h
        exact ⟨0, typed, f, host, mid, rfl, .nil host, hran, h.2.symm, h.1.symm⟩
      · -- A fault is caught nowhere here, so the row would not have ended with an outcome.
        rw [runActions, runOn_bind, runOn_tryCatch, runOn_bind, hran] at h
        simp at h
      · have hflushed := runAction_eq_ok.1 hran
        rw [runActions_cons_of_ok hflushed, ih] at h
        obtain ⟨k, failing, f, mid', left, hat, hsteps, hfail, hafter, houtcome⟩ := h
        refine ⟨k + 1, failing, f, mid', left, hat, .cons hflushed hsteps, hfail, hafter, ?_⟩
        rw [houtcome, Nat.add_assoc, Nat.add_comm 1 k]
    · rintro ⟨k, failing, f, mid, left, hat, hsteps, hfail, rfl, rfl⟩
      cases k with
      | zero =>
        obtain rfl : typed = failing := by simpa using hat
        obtain rfl : mid = host := OneByOne.nil_iff.1 hsteps
        exact runActions_cons_of_failure hfail
      | succ k =>
        rw [List.take_succ_cons] at hsteps
        obtain ⟨next, hflushed, hrest⟩ := OneByOne.cons_iff.1 hsteps
        rw [runActions_cons_of_ok hflushed, ih]
        refine ⟨k, failing, f, mid, left, hat, hrest, hfail, rfl, ?_⟩
        rw [Nat.add_assoc, Nat.add_comm 1 k]

/-! ## Runs -/

/-- The message of a run of that many actions. -/
def successMessage (count : Nat) : String := s!"Successfully executed {count} action(s)"

theorem run_of_closed (hopen : host.isOpen = false) :
    (run setting actions).runOn host = (.ok (.failed .hostUnavailable []), host) := by
  simp [run, runOn_bind, hopen]

theorem run_of_open (hopen : host.isOpen = true) :
    (run setting actions).runOn host =
      match (runActions setting 0 actions).runOn host with
      | (.ok none, last) => (.ok (.success (successMessage actions.length)), last)
      | (.ok (some outcome), last) => (.ok outcome, last)
      | (.error mishap, last) => (.error mishap, last) := by
  rw [run, runOn_bind, runOn_get]
  simp only [hopen, Bool.not_true, Bool.false_eq_true, if_false, runOn_bind]
  rcases (runActions setting 0 actions).runOn host with ⟨mishap | ⟨_ | outcome⟩, last⟩ <;> rfl

theorem run_of_flushed (hopen : host.isOpen = true)
    (h : OneByOne (fun typed => Flushed (preparation setting typed)) actions host after) :
    (run setting actions).runOn host =
      (.ok (.success (successMessage actions.length)), after) := by
  rw [run_of_open hopen, runActions_eq_none.2 h]

/-- A run that succeeds has carried out its actions one by one. -/
theorem flushed_of_success {message : String}
    (h : (run setting actions).runOn host = (.ok (.success message), after)) :
    host.isOpen = true ∧
      OneByOne (fun typed => Flushed (preparation setting typed)) actions host after := by
  by_cases hopen : host.isOpen = true
  · refine ⟨hopen, ?_⟩
    rw [run_of_open hopen] at h
    rcases hrun : (runActions setting 0 actions).runOn host with ⟨mishap | ⟨_ | outcome⟩, last⟩
    · simp [hrun] at h
    · obtain rfl : last = after := by simpa [hrun] using congrArg Prod.snd h
      exact runActions_eq_none.1 hrun
    · simp only [hrun, Prod.mk.injEq, Except.ok.injEq] at h
      obtain ⟨_, _, f, _, _, _, _, _, _, rfl⟩ := runActions_eq_some.1 hrun
      simp at h
  · rw [run_of_closed (by simpa using hopen)] at h
    simp at h

/-- A run that succeeds does what runs of its actions, one by one, do. -/
theorem singly_of_success {message : String}
    (h : (run setting actions).runOn host = (.ok (.success message), after)) :
    OneByOne (fun typed before next =>
      (∃ message, (run setting [typed]).runOn before = (.ok (.success message), next)) ∧
        next.flushCount = before.flushCount + 1) actions host after := by
  obtain ⟨hopen, hflushed⟩ := flushed_of_success h
  refine hflushed.mono (fun host => host.isOpen = true) ?_ hopen
  intro typed before next hbefore hnext
  have hprepares := prepares_preparation setting typed
  refine ⟨(hnext.isOpen hprepares).trans hbefore, ⟨_, run_of_flushed hbefore ?_⟩,
    hnext.flushCount hprepares⟩
  exact .cons hnext (.nil next)

/-- A run that fails at an action has carried out those before it, and those behind it are as if
they were not there. -/
theorem stops_of_failed {cause : Failure} {added : Json.Fields} {i : Int}
    (h : (run setting actions).runOn host = (.ok (.failed cause added), after))
    (hi : added.lookup "action_index" = some (.int i)) :
    ∃ (k : Nat) (typed : TypedAction) (mid : Host), i = k ∧ actions[k]? = some typed ∧
      host.isOpen = true ∧
      OneByOne (fun typed => Flushed (preparation setting typed)) (actions.take k) host mid ∧
      Stops (preparation setting typed) mid after ∧
      ∀ rest, (run setting (actions.take (k + 1) ++ rest)).runOn host =
        (.ok (.failed cause added), after) := by
  by_cases hopen : host.isOpen = true
  · rw [run_of_open hopen] at h
    rcases hrun : (runActions setting 0 actions).runOn host with ⟨mishap | ⟨_ | outcome⟩, last⟩
    · simp [hrun] at h
    · simp [hrun] at h
    · simp only [hrun, Prod.mk.injEq, Except.ok.injEq] at h
      obtain ⟨rfl, rfl⟩ := h
      obtain ⟨k, typed, f, mid, left, hat, hsteps, hfail, hlast, houtcome⟩ :=
        runActions_eq_some.1 hrun
      obtain ⟨rfl, rfl⟩ := RunOutcome.failed.inj houtcome
      have hk : i = k := by simpa using hi.symm
      refine ⟨k, typed, mid, hk, hat, hopen, hsteps, hlast ▸ runAction_stops hfail, fun rest => ?_⟩
      obtain ⟨hat', htake⟩ := take_succ_append hat rest
      rw [run_of_open hopen, runActions_eq_some.2
        ⟨k, typed, cause, mid, left, hat', htake ▸ hsteps, hfail, hlast, rfl⟩]
  · rw [run_of_closed (by simpa using hopen)] at h
    simp only [Prod.mk.injEq, Except.ok.injEq, RunOutcome.failed.injEq] at h
    simp [← h.1.2] at hi

end Execution

end Redline
