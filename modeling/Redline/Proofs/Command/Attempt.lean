import Redline.Proofs.Command.Files
import Redline.Proofs.Run.Reporting

/-!
# Plans in memory

A command that applies a plan reads its files, marks the bookmark that it was given, and runs the
plan, all in memory.  It reports success exactly if the bookmark has been marked and the plan has
been run to its end.

## Main definitions

* `Response.RunsTo` — a plan that is run to its end, and the host that it leads to.
* `Command.Inputs` — what the files of a request hold.
* `Command.Produces` — what marking the bookmark and running the whole plan make of the document.
* `Command.attempt` — what a command does before it writes anything.

## Main results

* `Command.produces_iff` — when an attempt reports success.
-/

namespace Redline

open Editing

variable {stamp : Stamp} {rules : Rules} {payload : Json} {snapshot : Option Snapshot}
  {response : Response} {report : Report} {host mid last : Host}

/-! ## What a plan makes of a document -/

/-- The plan of a response is run to its end. -/
def Response.RunsTo (stamp : Stamp) (rules : Rules) (snapshot : Option Snapshot)
    (response : Response) (host after : Host) : Prop :=
  match response.plan with
  | .edit plan => ∃ message, (Execution.run ⟨rules, Heading.overlapScore⟩ plan.typed).runOn host =
      (.ok (.success message), after)
  | .block plan => ∃ s : Snapshot, (snapshotOr stamp rules snapshot).runOn host = (.ok s, host) ∧
      (Snapshot.run rules s plan).runOn host = (.ok (), after)

theorem success_of_ok {outcome : RunOutcome} (h : outcome.ok = true) :
    ∃ message, outcome = .success message := by
  cases outcome with
  | success message => exact ⟨message, rfl⟩
  | failed cause added => cases h

/-- Taking a snapshot leaves the host as it is. -/
theorem snapshotOr_leaves {s : Snapshot}
    (h : (snapshotOr stamp rules snapshot).runOn host = (.ok s, mid)) : mid = host := by
  cases snapshot with
  | some given => exact (Prod.mk.inj h).2.symm
  | none =>
    by_cases hopen : host.isOpen = true
    · cases hdown : host.outages.lookup .paragraphs with
      | none =>
        simp [snapshotOr, Snapshot.extract, Anchor.ensureHost, Host.paragraphs, Host.ask,
          Host.check, Host.openDocument, runOn_bind, hopen, hdown] at h
        exact h.2.symm
      | some fault =>
        simp [snapshotOr, Snapshot.extract, Anchor.ensureHost, Host.paragraphs, Host.ask,
          Host.check, runOn_bind, hopen, hdown] at h
    · simp [snapshotOr, Snapshot.extract, Anchor.ensureHost, runOn_bind, hopen] at h

/-- A plan that is reported to have succeeded has been run to its end. -/
theorem runsTo_of_runPlan
    (h : (runPlan stamp rules snapshot response).runOn host = (.ok report, last))
    (hok : report.outcome.ok = true) : response.RunsTo stamp rules snapshot host last := by
  obtain ⟨message, hsuccess⟩ := success_of_ok hok
  rw [Response.RunsTo]
  cases hplan : response.plan with
  | edit plan =>
    rcases hrun : (Execution.run ⟨rules, Heading.overlapScore⟩ plan.typed).runOn host with
      ⟨mishap | outcome, mid⟩
    · simp [runPlan, runOn_bind, hplan, hrun] at h
    · obtain ⟨_, hreport, rfl⟩ := @runPlan_edit _ _ stamp _ snapshot _ _ _ hplan hrun
      obtain ⟨hsame, rfl⟩ := Prod.mk.inj (hreport.symm.trans h)
      obtain rfl := Except.ok.inj hsame
      exact ⟨message, by rw [← hsuccess]; exact hrun⟩
  | block plan =>
    rcases htaken : (snapshotOr stamp rules snapshot).runOn host with ⟨mishap | s, mid⟩
    · simp [runPlan, runOn_bind, hplan, htaken] at h
    · obtain rfl := snapshotOr_leaves htaken
      rcases hrun : (Snapshot.run rules s plan).runOn mid with ⟨(failure | fault) | _, left⟩
      · obtain ⟨_, hreport, houtcome⟩ := runPlan_block hplan htaken (outcomeOf_of_failure hrun)
        obtain ⟨hsame, rfl⟩ := Prod.mk.inj (hreport.symm.trans h)
        obtain rfl := Except.ok.inj hsame
        rw [houtcome] at hok
        cases hok
      · simp [runPlan, runOn_bind, hplan, htaken, outcomeOf_of_fault hrun] at h
      · obtain ⟨_, hreport, _⟩ := runPlan_block hplan htaken (outcomeOf_of_ok hrun)
        obtain ⟨_, rfl⟩ := Prod.mk.inj (hreport.symm.trans h)
        exact ⟨s, rfl, hrun⟩

/-- A plan that runs to its end is reported to have succeeded. -/
theorem runResponse_of_runsTo
    (hread : readResponse rules payload = .ok response)
    (h : response.RunsTo stamp rules snapshot host last) :
    ∃ report, (runResponse stamp rules payload snapshot).runOn host = (.ok report, last) ∧
      report.outcome.ok = true := by
  rw [Response.RunsTo] at h
  cases hplan : response.plan with
  | edit plan =>
    rw [hplan] at h
    obtain ⟨message, hrun⟩ := h
    rw [runResponse_of_read (Execution.flushed_of_success hrun).1 hread]
    obtain ⟨report, hreport, houtcome⟩ := @runPlan_edit _ _ stamp _ snapshot _ _ _ hplan hrun
    exact ⟨report, hreport, houtcome ▸ rfl⟩
  | block plan =>
    rw [hplan] at h
    obtain ⟨s, htaken, hrun⟩ := h
    have hopen : host.isOpen = true := by
      by_contra hclosed
      simp [Snapshot.run, Anchor.ensureHost, runOn_bind, hclosed] at hrun
    rw [runResponse_of_read hopen hread]
    obtain ⟨report, hreport, houtcome⟩ := runPlan_block hplan htaken (outcomeOf_of_ok hrun)
    exact ⟨report, hreport, houtcome ▸ rfl⟩

theorem runsTo_of_runResponse
    (h : (runResponse stamp rules payload snapshot).runOn host = (.ok report, last))
    (hok : report.outcome.ok = true) :
    ∃ response, readResponse rules payload = .ok response ∧
      response.RunsTo stamp rules snapshot host last := by
  cases hread : readResponse rules payload with
  | error rejection =>
    rcases runResponse_of_rejected stamp host hread with ⟨message, _, hrun⟩ | ⟨_, hrun⟩
    · obtain ⟨hsame, _⟩ := Prod.mk.inj (hrun.symm.trans h)
      obtain rfl := Except.ok.inj hsame
      cases hok
    · simp [hrun] at h
  | ok response =>
    by_cases hopen : host.isOpen = true
    · rw [runResponse_of_read hopen hread] at h
      exact ⟨response, rfl, runsTo_of_runPlan h hok⟩
    · simp only [runResponse, hread, runOn_bind, runOn_get, hopen, Bool.not_false, if_true,
        runOn_pure, Prod.mk.injEq, Except.ok.injEq] at h
      obtain ⟨rfl, _⟩ := h
      cases hok

namespace Command

variable {reader : PackReader} {rules? : Option String} {request : ApplyRequest} {w : Workspace}
  {world after : World}
  {bookmark : Option String} {wasRun : Bool} {marked : Host}

/-- What the files that a request names hold. -/
structure Inputs (reader : PackReader) (stamp : Stamp) (w : Workspace) (rules? : Option String)
    (request : ApplyRequest) (rules : Rules) (d : Document) (payload : Json)
    (snapshot : Option Snapshot) : Prop where
  rules : GivesRules reader w rules? rules
  document : w.read? request.document = some (.document d)
  plan : HoldsValue w request.plan payload
  snapshot : GivesSnapshot stamp w request.snapshot snapshot

/-- The paragraphs of the bookmark are marked, if there is one to select. -/
def Marks (rules : Rules) (bookmark : Option String) (host after : Host) : Prop :=
  match bookmark with
  | some name => (markBookmark rules name).runOn host = (.ok (), after)
  | none => after = host

/-- What marking the bookmark and running the whole plan make, in memory, of the document of a
request. -/
def Produces (reader : PackReader) (stamp : Stamp) (w : Workspace) (rules? : Option String)
    (request : ApplyRequest) (after : Host) : Prop :=
  ∃ rules d payload snapshot response marked,
    Inputs reader stamp w rules? request rules d payload snapshot ∧
    readResponse rules payload = .ok response ∧
    Marks rules request.bookmark (Host.ofDocument d) marked ∧
    response.RunsTo stamp rules snapshot marked after

/-! ## In memory -/

/-- What applying a plan does before anything is written. -/
def attempt (reader : PackReader) (stamp : Stamp) (rules? : Option String)
    (request : ApplyRequest) :
    Work ((Report × Bool) × Host) := do
  let rules ← readRules reader rules?
  let d ← readDocument request.document
  let payload ← readValue request.plan
  let snapshot ← readSnapshot stamp request.snapshot
  onDocument d (runRequest stamp rules request.bookmark payload snapshot)

theorem spares_attempt {paths : List Path} (reader : PackReader) (stamp : Stamp)
    (rules? : Option String) (request : ApplyRequest) :
    Spares paths (attempt reader stamp rules? request) :=
  .bind (.readRules reader rules?) fun _ => .bind (.readDocument _) fun _ =>
    .bind (.readValue _) fun _ => .bind (.readSnapshot stamp _) fun _ => .onDocument _ _

theorem attempt_eq_ok :
    (attempt reader stamp rules? request).runOn world = (.ok ((report, wasRun), host), after) ↔
      (∃ rules d payload snapshot,
        Inputs reader stamp world.workspace rules? request rules d payload snapshot ∧
        (runRequest stamp rules request.bookmark payload snapshot).runOn (Host.ofDocument d) =
          (.ok (report, wasRun), host)) ∧ after = world := by
  simp only [attempt, Work.bind_eq_ok, readRules_eq_ok, readDocument_eq_ok, readValue_eq_ok,
    readSnapshot_eq_ok, onDocument_eq_ok]
  constructor
  · rintro ⟨rules, _, ⟨hrules, rfl⟩, d, _, ⟨hdocument, rfl⟩, payload, _, ⟨hplan, rfl⟩,
      snapshot, _, ⟨hsnapshot, rfl⟩, hrun, hsame⟩
    exact ⟨⟨rules, d, payload, snapshot, ⟨hrules, hdocument, hplan, hsnapshot⟩, hrun⟩, hsame⟩
  · rintro ⟨⟨rules, d, payload, snapshot, hi, hrun⟩, hsame⟩
    exact ⟨rules, world, ⟨hi.rules, rfl⟩, d, world, ⟨hi.document, rfl⟩, payload, world,
      ⟨hi.plan, rfl⟩, snapshot, world, ⟨hi.snapshot, rfl⟩, hrun, hsame⟩

/-- A request that is reported to have succeeded has had its bookmark marked and its plan run. -/
theorem runRequest_succeeds
    (h : (runRequest stamp rules bookmark payload snapshot).runOn host =
      (.ok (report, wasRun), last)) (hok : report.outcome.ok = true) :
    wasRun = true ∧ ∃ response marked, readResponse rules payload = .ok response ∧
      Marks rules bookmark host marked ∧ response.RunsTo stamp rules snapshot marked last := by
  obtain ⟨refused, marked, hmark, hrest⟩ := bind_eq_ok.1 h
  cases refused with
  | some failure =>
    simp only [runOn_pure, Prod.mk.injEq, Except.ok.injEq] at hrest
    obtain ⟨⟨rfl, _⟩, _⟩ := hrest
    cases hok
  | none =>
    obtain ⟨_, _, hrun, hpure⟩ := bind_eq_ok.1 hrest
    simp only [runOn_pure, Prod.mk.injEq, Except.ok.injEq] at hpure
    obtain ⟨⟨rfl, rfl⟩, rfl⟩ := hpure
    obtain ⟨response, hread, hplan⟩ := runsTo_of_runResponse hrun hok
    refine ⟨rfl, response, marked, hread, ?_, hplan⟩
    rw [runOn_tryCatch] at hmark
    cases bookmark with
    | none =>
      simp only [runOn_pure, Prod.mk.injEq] at hmark
      exact hmark.2.symm
    | some name =>
      rcases hone : (markBookmark rules name).runOn host with ⟨(failure | fault) | _, mid⟩
      · simp [runOn_map, hone] at hmark
      · simp [runOn_map, hone] at hmark
      · simp only [bind_pure_comp, runOn_map, hone, Prod.mk.injEq, true_and] at hmark
        exact hmark ▸ hone

theorem runRequest_of_marks
    (hread : readResponse rules payload = .ok response) (hmarks : Marks rules bookmark host marked)
    (h : response.RunsTo stamp rules snapshot marked last) :
    ∃ report, (runRequest stamp rules bookmark payload snapshot).runOn host =
      (.ok (report, true), last) ∧ report.outcome.ok = true := by
  obtain ⟨report, hrun, hok⟩ := runResponse_of_runsTo hread h
  refine ⟨report, bind_eq_ok.2 ⟨none, marked, ?_, ?_⟩, hok⟩
  · rw [runOn_tryCatch]
    cases bookmark with
    | none => simp only [runOn_pure, show marked = host from hmarks]
    | some name =>
      have hone : (markBookmark rules name).runOn host = (.ok (), marked) := hmarks
      simp only [bind_pure_comp, runOn_map, hone]
  · exact bind_eq_ok.2 ⟨report, last, hrun, rfl⟩

/-- An attempt that is reported to have succeeded has produced its host. -/
theorem produces_of_attempt
    (h : (attempt reader stamp rules? request).runOn { workspace := w } =
      (.ok ((report, wasRun), host), after)) (hok : report.outcome.ok = true) :
    wasRun = true ∧ Produces reader stamp w rules? request host := by
  obtain ⟨⟨rules, d, payload, snapshot, hinputs, hrun⟩, -⟩ := attempt_eq_ok.1 h
  obtain ⟨hwas, response, marked, hread, hmarks, hplan⟩ := runRequest_succeeds hrun hok
  exact ⟨hwas, rules, d, payload, snapshot, response, marked, hinputs, hread, hmarks, hplan⟩

/-- A host is produced if the attempt ends with it and reports success. -/
theorem produces_iff : Produces reader stamp w rules? request host ↔
    ∃ report, (attempt reader stamp rules? request).runOn { workspace := w } =
      (.ok ((report, true), host), { workspace := w }) ∧ report.outcome.ok = true := by
  constructor
  · rintro ⟨rules, d, payload, snapshot, response, marked, hinputs, hread, hmarks, hplan⟩
    obtain ⟨report, hrun, hok⟩ := runRequest_of_marks hread hmarks hplan
    exact ⟨report, attempt_eq_ok.2 ⟨⟨rules, d, payload, snapshot, hinputs, hrun⟩, rfl⟩, hok⟩
  · rintro ⟨report, hattempt, hok⟩
    exact (produces_of_attempt hattempt hok).2

end Command

end Redline
