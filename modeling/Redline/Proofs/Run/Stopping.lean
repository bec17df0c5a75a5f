import Redline.Proofs.Execution.Stopping
import Redline.Proofs.Snapshot.Stopping

/-!
# Runs stop at a clean prefix

A run that fails leaves the document that the steps before the failing one have made.  What the
failing step has queued is dropped, and only a flush that breaks off leaves something of it: the
effects in front of the one that fails.

## Main definitions

* `StopsAt` — where a run has stopped, and how.
-/

namespace Redline

open Editing

/-- A run over items has carried out the first `k` of them, which led to `mid`, and has stopped at
the next one. -/
structure StopsAt {ι : Type} (work : ι → Editing Unit) (items : List ι) (k : Nat)
    (host mid after : Host) : Prop where
  stops : ∃ i, items[k]? = some i ∧ Stops (work i) mid after
  midPending : mid.pending = []
  midFlushes : mid.flushCount = host.flushCount + k
  pending : after.pending = []
  flushes : after.flushCount = host.flushCount + k ∨ after.flushCount = host.flushCount + (k + 1)

theorem stopsAt_of_flushed {ι : Type} {work : ι → Editing Unit} {items : List ι} {k : Nat} {i : ι}
    {host mid after : Host} (hw : ∀ i, Prepares (work i)) (hp : host.pending = [])
    (hi : items[k]? = some i)
    (hsteps : OneByOne (fun i => Flushed (work i)) (items.take k) host mid)
    (hstops : Stops (work i) mid after) : StopsAt work items k host mid after := by
  obtain ⟨hpending, hcount⟩ := hsteps.flushes hw hp
  have hk : k < items.length := (List.getElem?_eq_some_iff.1 hi).1
  have hlength : (items.take k).length = k := by
    rw [List.length_take]
    omega
  rw [hlength] at hcount
  refine ⟨⟨i, hi, hstops⟩, hpending, hcount, hstops.pending, ?_⟩
  rcases hstops.flushCount with h | h <;> omega

/-- A run that fails at a step leaves what the steps before it have made: a run of those alone
succeeds, the failing step has stopped there, and the steps behind it are as if they were not there.
A run that does not fail does what its steps do one by one, with one flush each. -/
theorem runs_stop_cleanly (rules : Rules) (scorer : Heading.Scorer)
    (actions : List TypedAction) (snapshot : Snapshot) (plan : BlockPlan) {host : Host}
    (hp : host.pending = []) :
    (∀ cause added (i : Int) after,
      (Execution.run ⟨rules, scorer⟩ actions).runOn host = (.ok (.failed cause added), after) →
      added.lookup "action_index" = some (.int i) →
      ∃ (k : Nat) (mid : Host), i = k ∧
        (∃ message, (Execution.run ⟨rules, scorer⟩ (actions.take k)).runOn host =
          (.ok (.success message), mid)) ∧
        StopsAt (Execution.preparation ⟨rules, scorer⟩) actions k host mid after ∧
        ∀ rest, (Execution.run ⟨rules, scorer⟩ (actions.take (k + 1) ++ rest)).runOn host =
          (.ok (.failed cause added), after)) ∧
    (∀ message after,
      (Execution.run ⟨rules, scorer⟩ actions).runOn host = (.ok (.success message), after) →
      after.pending = [] ∧ after.flushCount = host.flushCount + actions.length ∧
        OneByOne (fun typed before next =>
          (∃ message, (Execution.run ⟨rules, scorer⟩ [typed]).runOn before =
            (.ok (.success message), next)) ∧
          next.flushCount = before.flushCount + 1) actions host after) ∧
    (∀ f (i : Int) after,
      (Snapshot.run rules snapshot plan).runOn host = (.error (.failure f), after) →
      f.refusal.details.lookup "op_index" = some (.int i) →
      ∃ (k : Nat) (m : Snapshot.Mapping) (mid : Host), i = k ∧
        (snapshot.rematch rules).runOn host = (.ok m, host) ∧
        (Snapshot.run rules snapshot ⟨plan.operations.take k⟩).runOn host = (.ok (), mid) ∧
        StopsAt (Snapshot.preparation rules snapshot m) plan.operations k host mid after ∧
        ∀ rest, (Snapshot.run rules snapshot
          ⟨plan.operations.take (k + 1) ++ rest⟩).runOn host = (.error (.failure f), after)) ∧
    (∀ after, (Snapshot.run rules snapshot plan).runOn host = (.ok (), after) →
      after.pending = [] ∧ after.flushCount = host.flushCount + plan.operations.length ∧
        ∃ m, (snapshot.rematch rules).runOn host = (.ok m, host) ∧
          OneByOne (fun op before next =>
            (Snapshot.runOperations rules snapshot m 0 [op]).runOn before = (.ok (), next) ∧
            next.flushCount = before.flushCount + 1) plan.operations host after) := by
  refine ⟨?_, ?_, ?_, ?_⟩
  · intro cause added i after hrun hi
    obtain ⟨k, typed, mid, hk, hat, hopen, hsteps, hstops, hrest⟩ :=
      Execution.stops_of_failed hrun hi
    exact ⟨k, mid, hk, ⟨_, Execution.run_of_flushed hopen hsteps⟩,
      stopsAt_of_flushed (Execution.prepares_preparation _) hp hat hsteps hstops, hrest⟩
  · intro message after hrun
    obtain ⟨_, hflushed⟩ := Execution.flushed_of_success hrun
    obtain ⟨hpending, hcount⟩ := hflushed.flushes (Execution.prepares_preparation _) hp
    exact ⟨hpending, hcount, Execution.singly_of_success hrun⟩
  · intro f i after hrun hi
    obtain ⟨m, k, op, mid, hk, hopen, hm, hat, hsteps, hstops, hrest⟩ :=
      Snapshot.stops_of_failed hrun hi
    refine ⟨k, m, mid, hk, hm, ?_,
      stopsAt_of_flushed (Snapshot.prepares_preparation rules snapshot m) hp hat hsteps hstops,
      hrest⟩
    rw [Snapshot.run_of_rematch hopen hm]
    exact Snapshot.runOperations_eq_ok_iff.2 hsteps
  · intro after hrun
    obtain ⟨m, hm, hflushed⟩ := Snapshot.flushed_of_success hrun
    obtain ⟨hpending, hcount⟩ :=
      hflushed.flushes (Snapshot.prepares_preparation rules snapshot m) hp
    refine ⟨hpending, hcount, m, hm, hflushed.mono (fun _ => True) ?_ trivial⟩
    intro op before next _ hnext
    exact ⟨trivial, Snapshot.runOperations_eq_ok_iff.2 (.cons hnext (.nil next)),
      hnext.flushCount (Snapshot.prepares_preparation rules snapshot m op)⟩

/-- A document of two lines. -/
def oneTwo : Document where
  body := .cons (.paragraph ⟨0⟩ "Normal" none) (.runOf "one".toList)
    (.single (.paragraph ⟨1⟩ "Normal" none) (.runOf "two".toList))
  nextHandle := 2

/-- A correction that finds its text, one that does not, and one that is never reached. -/
def threeCorrections : List TypedAction :=
  [("one", "1"), ("four", "4"), ("two", "2")].map fun (search, replacement) =>
    ⟨.str "correct_text", .correctText search replacement (some true)⟩

theorem runs_stop_cleanly_missing_text :
    ∃ cause added mid after,
      (Execution.run ⟨.standard, Heading.overlapScore⟩ threeCorrections).runOn
        { document := oneTwo } = (.ok (.failed cause added), after) ∧
      mid.document.passages.map (·.text) = ["1", "two"] ∧
      StopsAt (Execution.preparation ⟨.standard, Heading.overlapScore⟩) threeCorrections 1
        { document := oneTwo } mid after := by
  obtain ⟨cause, added, after, hrun, hi⟩ : ∃ cause added after,
      (Execution.run ⟨.standard, Heading.overlapScore⟩ threeCorrections).runOn
        { document := oneTwo } = (.ok (.failed cause added), after) ∧
      added.lookup "action_index" = some (.int 1) := ⟨_, _, _, rfl, rfl⟩
  obtain ⟨k, mid, hk, ⟨message, hprefix⟩, hstops, _⟩ :=
    (runs_stop_cleanly .standard Heading.overlapScore threeCorrections ⟨[], [], "now"⟩ ⟨[]⟩
      (show Host.pending { document := oneTwo } = [] from rfl)).1 cause added 1 after hrun hi
  obtain rfl : k = 1 := by omega
  obtain rfl := congrArg Prod.snd hprefix
  exact ⟨cause, added, _, after, hrun, by decide, hstops⟩

end Redline
