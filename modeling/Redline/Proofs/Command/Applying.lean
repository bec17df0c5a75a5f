import Redline.Command.Pack
import Redline.Proofs.Command.Attempt

/-!
# Applying a plan is all or nothing

A plan is applied in memory, action by action, and what a failing run has changed there is not
undone.  The file of the changed document is written after the whole plan has been run, so a command
that fails before leaves every file alone but for its reports, and one that succeeds writes the
document that the whole plan has made.

## Main definitions

* `ApplyRequest.outPath`, `ApplyRequest.reportPaths` — the files that a command may write.
* `Command.settle` — what a command does after the attempt.

## Main results

* `Command.apply_all_or_nothing` — which files a command changes, and what they hold then.
-/

namespace Redline

/-! ## The files of a request -/

namespace ApplyRequest

/-- The path of the changed document. -/
def outPath (request : ApplyRequest) : Path := .ofText (Command.outputPath request)

/-- The paths of the two reports, if they are asked for. -/
def reportPaths (request : ApplyRequest) : List Path :=
  match request.reports with
  | some folder =>
    let stem := (Path.ofText request.document).stem
    let place name := Path.ofText ((Path.ofText folder).child name).text
    [place s!"{stem}.run.json", place s!"{stem}.run.txt"]
  | none => []

end ApplyRequest

namespace Command

variable {reader : PackReader} {stamp : Stamp} {rules? : Option String} {request : ApplyRequest}
  {w : Workspace} {world after : World} {host : Host} {d : Document} {report : Report} {wasRun : Bool}

/-! ## After the attempt -/

/-- Tells how a run went, and ends with the code for it. -/
def conclude (report : Report) : Work ExitCode := do
  putLine (report.toJson.print .pretty)
  pure (if report.outcome.ok then .done else .failed)

/-- What a command does after the attempt. -/
def settle (request : ApplyRequest) (report : Report) (wasRun : Bool) (host : Host) :
    Work ExitCode := do
  if wasRun then writeResults request report host
  conclude report

theorem perform_apply (reader : PackReader) (stamp : Stamp) (rules? : Option String)
    (request : ApplyRequest) :
    perform reader stamp ⟨rules?, .apply request⟩ =
      attempt reader stamp rules? request >>= fun r => settle request r.1.1 r.1.2 r.2 := by
  simp only [perform, apply, attempt, settle, conclude, bind_assoc]

/-- Only a document without waiting effects is saved. -/
theorem saved_eq_ok {last : Host} (h : Host.saved.runOn host = (.ok d, last)) :
    host.pending = [] ∧ d = host.document := by
  by_cases hp : host.pending = []
  · by_cases hopen : host.isOpen = true
    · simp [Host.saved, Editing.runOn_bind, hp, hopen] at h
      exact ⟨hp, h.1.symm⟩
    · simp [Host.saved, Editing.runOn_bind, hp, hopen] at h
  · simp [Host.saved, Editing.runOn_bind, hp] at h

/-- Writes the reports that are asked for. -/
def writeAsked (request : ApplyRequest) (report : Report) : Work Unit :=
  match request.reports with
  | some folder => writeReports request report folder
  | none => pure ()

theorem spares_writeAsked (request : ApplyRequest) (report : Report) :
    Spares request.reportPaths (writeAsked request report) := by
  rw [writeAsked, ApplyRequest.reportPaths]
  cases request.reports with
  | none => exact .pure ()
  | some folder =>
    exact .bind (.makeFolder folder) fun _ =>
      .bind ((Spares.writeFile _ _).mono (by simp)) fun _ => .bind (.lift _) fun _ =>
        (Spares.writeFile _ _).mono (by simp)

theorem writeResults_of_failed (hok : report.outcome.ok = false) :
    writeResults request report host = writeAsked request report := by
  simp only [writeResults, hok, Bool.false_eq_true, if_false]
  rfl

theorem writeResults_of_saved {last : Host} (hok : report.outcome.ok = true)
    (hsaved : Host.saved.runOn host = (.ok d, last)) :
    writeResults request report host =
      writeFile (outputPath request) (.document d) >>= fun _ => writeAsked request report := by
  simp only [writeResults, hok, if_true, hsaved]
  rfl

theorem writeResults_of_unsaved {mishap : Mishap} {last : Host} (hok : report.outcome.ok = true)
    (hsaved : Host.saved.runOn host = (.error mishap, last)) :
    writeResults request report host = throw (.mishap mishap) := by
  simp only [writeResults, hok, if_true, hsaved]
  rfl

theorem spares_writeResults (request : ApplyRequest) (report : Report) (host : Host) :
    Spares (request.outPath :: request.reportPaths) (writeResults request report host) := by
  have hasked : Spares (request.outPath :: request.reportPaths) (writeAsked request report) :=
    (spares_writeAsked request report).mono (List.subset_cons_self _ _)
  cases hok : report.outcome.ok with
  | false => exact writeResults_of_failed hok ▸ hasked
  | true =>
    rcases hsaved : Host.saved.runOn host with ⟨mishap | d, last⟩
    · exact writeResults_of_unsaved hok hsaved ▸ .throw _
    · have hwrite : Spares (request.outPath :: request.reportPaths)
          (writeFile (outputPath request) (.document d)) :=
        (Spares.writeFile _ _).mono (by simp [ApplyRequest.outPath])
      exact writeResults_of_saved hok hsaved ▸ .bind hwrite fun _ => hasked

theorem settle_of_run (request : ApplyRequest) (report : Report) (host : Host) :
    settle request report true host =
      writeResults request report host >>= fun _ => conclude report := rfl

theorem spares_conclude {paths : List Path} (report : Report) : Spares paths (conclude report) :=
  .bind (.putLine _) fun _ => .pure _

theorem conclude_eq_ok {code : ExitCode} (h : (conclude report).runOn world = (.ok code, after)) :
    code = (if report.outcome.ok then .done else .failed) ∧ after.workspace = world.workspace := by
  obtain ⟨_, _, hline, hcode⟩ := Work.bind_eq_ok.1 h
  simp only [Work.runOn_putLine, Work.runOn_pure, Prod.mk.injEq, Except.ok.injEq] at hline hcode
  obtain ⟨_, rfl⟩ := hline
  exact ⟨hcode.1.symm, hcode.2 ▸ rfl⟩

theorem spares_settle (request : ApplyRequest) (report : Report) (wasRun : Bool) (host : Host) :
    Spares (request.outPath :: request.reportPaths) (settle request report wasRun host) := by
  cases wasRun with
  | false => exact spares_conclude report
  | true => exact .bind (spares_writeResults request report host) fun _ => spares_conclude report

theorem spares_settle_of_failed (hok : report.outcome.ok = false) (wasRun : Bool) (host : Host) :
    Spares request.reportPaths (settle request report wasRun host) := by
  cases wasRun with
  | false => exact spares_conclude report
  | true =>
    rw [settle_of_run, writeResults_of_failed hok]
    exact .bind (spares_writeAsked request report) fun _ => spares_conclude report

/-- The code of the end tells how the run went. -/
theorem settle_code {code : ExitCode}
    (h : (settle request report wasRun host).runOn world = (.ok code, after)) :
    code = if report.outcome.ok then .done else .failed := by
  cases wasRun with
  | false => exact (conclude_eq_ok h).1
  | true =>
    obtain ⟨_, _, _, hconclude⟩ := Work.bind_eq_ok.1 h
    exact (conclude_eq_ok hconclude).1

/-- After a run that succeeded, the output holds the document, unless a report has its path. -/
theorem settle_done (hok : report.outcome.ok = true)
    (h : (settle request report true host).runOn world = (.ok .done, after)) :
    host.pending = [] ∧ (request.outPath ∉ request.reportPaths →
      after.workspace.content? request.outPath = some (.document host.document)) := by
  obtain ⟨_, mid, hresults, hconclude⟩ := Work.bind_eq_ok.1 h
  rw [(conclude_eq_ok hconclude).2]
  rcases hsaved : Host.saved.runOn host with ⟨mishap | d, last⟩
  · simp [writeResults_of_unsaved hok hsaved] at hresults
  · obtain ⟨hpending, rfl⟩ := saved_eq_ok hsaved
    rw [writeResults_of_saved hok hsaved] at hresults
    obtain ⟨_, written, hwrite, hasked⟩ := Work.bind_eq_ok.1 hresults
    obtain ⟨w', hw', rfl⟩ := Work.change_eq_ok.1 hwrite
    refine ⟨hpending, fun hout => ?_⟩
    have hspared := spares_writeAsked request report { world with workspace := w' } _ hout
    rw [hasked] at hspared
    exact hspared.trans (Workspace.content?_write hw')

/-! ## The command -/

theorem execute_eq_run {arguments : List String} {invocation : Invocation}
    (h : Invocation.ofArguments arguments = .ok invocation) :
    execute reader stamp arguments w = run reader stamp invocation w := by
  rw [execute, h]

theorem workspace_run (reader : PackReader) (stamp : Stamp) (invocation : Invocation)
    (w : Workspace) :
    (run reader stamp invocation w).workspace =
      ((perform reader stamp invocation).runOn { workspace := w }).2.workspace := rfl

theorem ending_run {invocation : Invocation} {code : ExitCode} (hcode : code ≠ .unusable)
    (h : (run reader stamp invocation w).ending = .ok code) :
    ∃ after, (perform reader stamp invocation).runOn { workspace := w } = (.ok code, after) := by
  rcases hrun : (perform reader stamp invocation).runOn { workspace := w } with ⟨stop | made, after⟩
  · have hperform : StateT.run (ExceptT.run (perform reader stamp invocation)) { workspace := w } =
        (.error stop, after) := hrun
    rw [run, hperform] at h
    cases stop with
    | unusable => exact absurd (Except.ok.inj h).symm hcode
    | mishap mishap => cases h
  · have hperform : StateT.run (ExceptT.run (perform reader stamp invocation)) { workspace := w } =
        (.ok made, after) := hrun
    rw [run, hperform] at h
    exact ⟨after, by rw [Except.ok.inj h]⟩

/-- Applying a plan changes no file but the output and the reports, and the output only if marking
the bookmark and running the whole plan succeed in memory.  If the command ends well, they have
succeeded with no effect left waiting, and the output holds the document that they have made, unless
a report has been written over it.  A command line that is refused, or asks for an explanation,
changes nothing.  All this is so whatever reads the rule packs. -/
theorem apply_all_or_nothing (reader : PackReader) (stamp : Stamp) (arguments : List String)
    (w : Workspace) :
    (∀ problem, Invocation.ofArguments arguments = .error problem →
      (execute reader stamp arguments w).workspace = w) ∧
    ∀ rules? request, Invocation.ofArguments arguments = .ok ⟨rules?, .apply request⟩ →
      ((execute reader stamp arguments w).ending = .ok .failed ∨
          (¬ ∃ host, Produces reader stamp w rules? request host) →
        ∀ p ∉ request.reportPaths,
          (execute reader stamp arguments w).workspace.content? p = w.content? p) ∧
      ((execute reader stamp arguments w).ending = .ok .done →
        ∃ host, Produces reader stamp w rules? request host ∧ host.pending = [] ∧
          (request.outPath ∉ request.reportPaths →
            (execute reader stamp arguments w).workspace.content? request.outPath =
              some (.document host.document)) ∧
          ∀ p ∉ request.outPath :: request.reportPaths,
            (execute reader stamp arguments w).workspace.content? p = w.content? p) := by
  refine ⟨fun problem h => by rw [execute, h]; rfl, fun rules? request hargs => ?_⟩
  rw [execute_eq_run hargs, workspace_run, perform_apply]
  have hattempt : ∀ {paths}, Spares paths (attempt reader stamp rules? request) :=
    spares_attempt _ _ _ _
  constructor
  · intro hcase p hp
    rw [Work.runOn_bind]
    have hspared := @hattempt request.reportPaths { workspace := w } p hp
    rcases hmemory : (attempt reader stamp rules? request).runOn { workspace := w } with
      ⟨stop | ⟨⟨report, wasRun⟩, host⟩, mid⟩
    · rwa [hmemory] at hspared
    · rw [hmemory] at hspared
      -- Neither a failing end nor a run that cannot succeed goes with a report of success.
      have hok : report.outcome.ok = false := by
        by_contra hok
        rw [Bool.not_eq_false] at hok
        rcases hcase with hfailed | hnone
        · obtain ⟨after, hrun⟩ := ending_run (by decide) hfailed
          rw [perform_apply, Work.runOn_bind, hmemory] at hrun
          have hcode := settle_code hrun
          simp [hok] at hcode
        · exact hnone ⟨host, (produces_of_attempt hmemory hok).2⟩
      exact (spares_settle_of_failed hok wasRun host mid p hp).trans hspared
  · intro hdone
    obtain ⟨after, hrun⟩ := ending_run (by decide) hdone
    rw [perform_apply] at hrun
    obtain ⟨⟨⟨report, wasRun⟩, host⟩, mid, hmemory, hsettle⟩ := Work.bind_eq_ok.1 hrun
    have hok : report.outcome.ok = true := by
      have hcode := settle_code hsettle
      by_contra hfailed
      simp [hfailed] at hcode
    obtain ⟨rfl, hproduces⟩ := produces_of_attempt hmemory hok
    obtain ⟨hpending, hout⟩ := settle_done hok hsettle
    refine ⟨host, hproduces, hpending, ?_, fun p hp => ?_⟩
    · rwa [hrun]
    · exact (hattempt.bind fun r => spares_settle request r.1.1 r.1.2 r.2) _ p hp

/-! ### One line -/

instance (o : Outcome) (code : ExitCode) : Decidable (o.ending = .ok code) :=
  match h : o.ending with
  | .ok made => decidable_of_iff (made = code) (by simp)
  | .error _ => isFalse (by simp)

instance (held : Option Content) : Decidable (∃ d, held = some (.document d)) :=
  match held with
  | some (.document d) => isTrue ⟨d, rfl⟩
  | some (.text _) => isFalse (by simp)
  | none => isFalse (by simp)

/-- A document of one line, a rule pack, a plan that changes the line, and one that fails after
that. -/
def greetings : Workspace where
  files := [
    (⟨false, ["in.docx"]⟩, .document {
      body := .single (.paragraph ⟨0⟩ "Normal" none) (.runOf "Hello".toList)
      nextHandle := 1 }),
    (⟨false, ["rules.yml"]⟩, .text "\x7b\"limits\": \x7b\"max_text_chars\": 3\x7d\x7d"),
    (⟨false, ["plan.json"]⟩, .text "\x7b\"ops\": [
      \x7b\"action\": \"replace\", \"target_block_id\": \"b1\", \"content\": \"Bye\"\x7d]\x7d"),
    (⟨false, ["late.json"]⟩, .text "\x7b\"ops\": [
      \x7b\"action\": \"replace\", \"target_block_id\": \"b1\", \"content\": \"Bye\"\x7d,
      \x7b\"action\": \"replace\", \"target_block_id\": \"b2\", \"content\": \"Bye\"\x7d]\x7d")]

/-- Applies the plan of a file to the line under the rules of the pack, with reports beside it and
some more arguments. -/
def greeted (plan : String) (more : List String) : Outcome :=
  execute readPack ⟨"noon", "now"⟩
    (["--rules", "rules.yml", "apply", "in.docx", plan, "--report", "."] ++ more) greetings

/-- The report of a run is written over the document when both have one path; and a command that
explains itself ends well without any document. -/
theorem report_over_output :
    ((greeted "plan.json" ["--out", "in.run.json"]).ending = .ok .done ∧
      ¬ ∃ d, (greeted "plan.json" ["--out", "in.run.json"]).workspace.content?
        (.ofText "in.run.json") = some (.document d)) ∧
    (greeted "plan.json" ["-h"]).ending = .ok .done ∧
      ¬ ∃ d, (greeted "plan.json" ["-h"]).workspace.content?
        (.ofText "in.edited.docx") = some (.document d) := by
  decide +kernel

theorem apply_all_or_nothing_greetings :
    ((greeted "plan.json" []).ending = .ok .done ∧
      ∃ host, Produces readPack ⟨"noon", "now"⟩ greetings (some "rules.yml")
          ⟨"in.docx", "plan.json", none, none, none, some "."⟩ host ∧
        host.pending = [] ∧
        (greeted "plan.json" []).workspace.content? (.ofText "in.edited.docx") =
          some (.document host.document)) ∧
    (greeted "late.json" []).ending = .ok .failed ∧
      ∀ p ∉ [Path.ofText "in.run.json", .ofText "in.run.txt"],
        (greeted "late.json" []).workspace.content? p = greetings.content? p := by
  have hplan : Invocation.ofArguments
      ["--rules", "rules.yml", "apply", "in.docx", "plan.json", "--report", "."] =
        .ok ⟨some "rules.yml", .apply ⟨"in.docx", "plan.json", none, none, none, some "."⟩⟩ := by
    decide +kernel
  have hlate : Invocation.ofArguments
      ["--rules", "rules.yml", "apply", "in.docx", "late.json", "--report", "."] =
        .ok ⟨some "rules.yml", .apply ⟨"in.docx", "late.json", none, none, none, some "."⟩⟩ := by
    decide +kernel
  have hdone : (greeted "plan.json" []).ending = .ok .done := by decide +kernel
  have hfailed : (greeted "late.json" []).ending = .ok .failed := by decide +kernel
  obtain ⟨host, hproduces, hpending, hout, -⟩ :=
    ((apply_all_or_nothing readPack ⟨"noon", "now"⟩ _ greetings).2 _ _ hplan).2 hdone
  have hfiles :=
    ((apply_all_or_nothing readPack ⟨"noon", "now"⟩ _ greetings).2 _ _ hlate).1 (.inl hfailed)
  exact ⟨⟨hdone, host, hproduces, hpending, hout (by decide +kernel)⟩, hfailed, hfiles⟩

end Command

end Redline
