import Redline.Proofs.Editing

/-!
# Runs of one action

An action that is run as what it is queues its effects and flushes them; a plan of this one action
ends as the action does.

## Main definitions

* `Execution.Does` — what it means that an action is carried out.
-/

namespace Redline.Execution

open Editing

variable {setting : Setting} {action : Action} {host mid after : Host}

@[simp] theorem ofName?_name (kind : ActionKind) : ActionKind.ofName? kind.name = some kind := by
  cases kind <;> decide

/-- An action run as what it is. -/
def own (action : Action) : TypedAction := ⟨.str action.kind.name, action⟩

theorem runAction_own (setting : Setting) (action : Action) :
    runAction setting (own action) = asAction action.kind.name (do
      perform setting action.kind action
      let _ ← Host.flush) := by
  simp [runAction, own, Json.str?]

/-- The action has been carried out. -/
def Does (setting : Setting) (action : Action) (host after : Host) : Prop :=
  (runAction setting (own action)).runOn host = (.ok (), after)

/-- An action is carried out by queueing its effects and making them all. -/
theorem does_iff : Does setting action host after ↔
    ∃ mid, (perform setting action.kind action).runOn host = (.ok (), mid) ∧
      ∃ n, Host.flush.runOn mid = (.ok n, after) := by
  rw [Does, runAction_own, asAction, tryCatch_eq_ok, Host.thenFlush_eq_ok]
  rintro (fault | failure) host <;> simp

theorem does_of_becomes {d : Document}
    (hp : (perform setting action.kind action).runOn host = (.ok (), mid))
    (hopen : mid.isOpen = true) (hd : mid.document.Becomes mid.pending d) :
    Does setting action host
      { mid with
        document := d
        pending := []
        flushCount := mid.flushCount + 1
        lastFlush := mid.pending.map .made } :=
  does_iff.2 ⟨mid, hp, _, (Host.flush_eq_ok hopen).2 ⟨d, hd, rfl, rfl⟩⟩

/-- A failure of the plan that an action runs into. -/
theorem runAction_failure {f : Failure}
    (hp : (perform setting action.kind action).runOn host = (.error (.failure f), mid)) :
    (runAction setting (own action)).runOn host = (.error (.failure f), mid) := by
  rw [runAction_own, asAction, runOn_tryCatch, runOn_bind, hp]
  simp

/-- A fault that an action runs into becomes a failure of the plan. -/
theorem runAction_fault {f : Fault}
    (hp : (perform setting action.kind action).runOn host = (.error (.fault f), mid)) :
    (runAction setting (own action)).runOn host =
      (.error (.failure (.actionFailed action.kind.name f)), mid) := by
  rw [runAction_own, asAction, runOn_tryCatch, runOn_bind, hp]
  simp

/-- A fault of the flush does so as well. -/
theorem runAction_flush_fault {f : Fault}
    (hp : (perform setting action.kind action).runOn host = (.ok (), mid))
    (hf : Host.flush.runOn mid = (.error (.fault f), after)) :
    (runAction setting (own action)).runOn host =
      (.error (.failure (.actionFailed action.kind.name f)), after) := by
  rw [runAction_own, asAction, runOn_tryCatch, runOn_bind, hp]
  dsimp only
  rw [runOn_bind, hf]
  simp

theorem run_single_ok (hopen : host.isOpen = true) (h : Does setting action host after) :
    ∃ message, (run setting [own action]).runOn host = (.ok (.success message), after) := by
  rw [Does] at h
  simp only [run, runActions, runOn_bind, runOn_get, hopen, runOn_tryCatch, h, runOn_pure,
    Bool.not_true, Bool.false_eq_true, if_false]
  exact ⟨_, rfl⟩

theorem run_single_failed {f : Failure} (hopen : host.isOpen = true)
    (h : (runAction setting (own action)).runOn host = (.error (.failure f), mid)) :
    (run setting [own action]).runOn host =
      (.ok (.failed f
        [("action_index", .int 0), ("action_type", .str action.kind.name)]),
        { mid with pending := [] }) := by
  simp only [run, runActions, runOn_bind, runOn_get, hopen, runOn_tryCatch, h, runOn_pure,
    Bool.not_true, Bool.false_eq_true, if_false, Host.discard, runOn_set]
  rfl

end Redline.Execution
