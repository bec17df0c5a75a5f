import Redline.Proofs.Document.Accepting
import Redline.Proofs.Document.Styles
import Redline.Proofs.Flushing

/-!
# Work that lands

A flush makes what has been queued: all of it or, when an effect fails, what stands in front of that
effect.  Work lands when the flush behind it makes everything.  That each step of a run lands is
shown by what holds of the hosts between the steps.

## Main definitions

* `Lands` — one flush makes all that a piece of work has queued.
* `AllLand` — every piece of work lands, wherever those before it have led.
* `Queued` — the queue of a host has got effects that all succeed.
-/

namespace Redline

open Editing

variable {host mid after left ready : Host} {work : Editing Unit}

/-! ## One piece of work -/

/-- If the work succeeds, the flush behind it makes all that is queued then. -/
def Lands (work : Editing Unit) (host : Host) : Prop :=
  ∀ ready, work.runOn host = (.ok (), ready) →
    ∃ after, Host.flush.runOn ready = (.ok ready.pending.length, after)

/-- A mishap of work that lands comes before its flush. -/
theorem Lands.work_error {mishap : Mishap} (hl : Lands work host)
    (h : work.thenFlush.runOn host = (.error mishap, left)) :
    work.runOn host = (.error mishap, left) := by
  rcases thenFlush_error h with hrun | ⟨ready, hrun, hflush⟩
  · exact hrun
  · obtain ⟨after, hmade⟩ := hl ready hrun
    simp [hmade] at hflush

/-- A flush that succeeds has made all that was queued. -/
theorem Host.flush_made {n : Nat} (h : Host.flush.runOn host = (.ok n, after)) :
    n = host.pending.length := by
  simp only [Host.flush, runOn_bind, runOn_get, runOn_set] at h
  rcases hp : host.document.applyAll (Host.step host.isOpen) host.pending with
    ⟨d, queue, applied, _ | failed⟩
  · have hall := Document.applyAll_of_failed_eq_none (congrArg Progress.failed hp)
    simp only [hp, runOn_pure, Prod.mk.injEq, Except.ok.injEq] at h hall
    exact h.1.symm.trans (congrArg Progress.applied hall)
  · simp [hp] at h

/-! ## What stays -/

/-- The styles of a document are those that it has been opened with. -/
theorem Flushed.styles (hw : Prepares work) (h : Flushed work host after) :
    after.document.styles = host.document.styles := by
  obtain ⟨ready, hwork, rfl⟩ := h.leaves
  have hprepared := hw host
  rw [hwork] at hprepared
  rw [Host.flush_leaves, ← hprepared.styles]
  exact Document.styles_applyAll _

/-- No returns are brought into the runs of a document. -/
theorem Flushed.readable (hw : Prepares work) (h : Flushed work host after)
    (hd : host.document.OfKind Text.isReadable) : after.document.OfKind Text.isReadable := by
  obtain ⟨ready, hwork, rfl⟩ := h.leaves
  have hprepared := hw host
  rw [hwork] at hprepared
  rw [Host.flush_leaves]
  exact Host.ofKind_applyAll (hprepared.ofKind hd) _ _

/-! ## One piece of work after the other -/

/-- Every piece of work lands on the host that those before it lead to. -/
def AllLand {ι : Type} (work : ι → Editing Unit) (items : List ι) (host : Host) : Prop :=
  ∀ (k : Nat) (i : ι) (mid : Host), items[k]? = some i →
    OneByOne (fun i => Flushed (work i)) (items.take k) host mid → Lands (work i) mid

namespace OneByOne

variable {ι : Type} {does : ι → Host → Host → Prop} {items : List ι} {good : Host → Prop}

/-- What each step keeps is kept by all of them. -/
theorem keeps (hstep : ∀ i ∈ items, ∀ host after, good host → does i host after → good after)
    (h : OneByOne does items host after) (hh : good host) : good after := by
  induction h with
  | nil host => exact hh
  | cons hi _ ih =>
    obtain ⟨hfirst, hrest⟩ := List.forall_mem_cons.1 hstep
    exact ih hrest (hfirst _ _ hh hi)

/-- What each step keeps holds of the host in front of each. -/
theorem keeps_take (hstep : ∀ i ∈ items, ∀ host after, good host → does i host after → good after)
    {k : Nat} (h : OneByOne does (items.take k) host mid) (hh : good host) : good mid :=
  h.keeps (fun i hi => hstep i (List.mem_of_mem_take hi)) hh

end OneByOne

/-- Work that lands on the hosts of a kind, and leads to hosts of that kind, always lands. -/
theorem allLand_of_keeps {ι : Type} {work : ι → Editing Unit} {items : List ι}
    (good : Host → Prop) (hland : ∀ i ∈ items, ∀ host, good host → Lands (work i) host)
    (hstep : ∀ i ∈ items, ∀ host after, good host → Flushed (work i) host after → good after)
    (hh : good host) : AllLand work items host :=
  fun _ i mid hi hsteps => hland i (List.mem_of_getElem? hi) mid (hsteps.keeps_take hstep hh)

/-! ## Queues of effects that succeed -/

/-- The second host has come from the first one by queueing effects that all succeed. -/
def Queued (host mid : Host) : Prop :=
  ∃ d effects, mid = host.queueing d effects ∧ d.Accepts effects

theorem Queued.flush (hh : host.Ready) (h : Queued host mid) :
    ∃ n after, Host.flush.runOn mid = (.ok n, after) ∧ after.Ready := by
  obtain ⟨d, effects, rfl, d', hbecomes, hwell⟩ := h
  obtain ⟨n, hflush⟩ := hh.flush_queueing.2 ⟨d', hbecomes, rfl⟩
  exact ⟨n, _, hflush, hh.flushed hwell⟩

section
variable (hh : host.Ready) (hq : ∀ ready, work.runOn host = (.ok (), ready) → Queued host ready)
include hh hq

theorem lands_of_queued : Lands work host := by
  intro ready hrun
  obtain ⟨n, after, hflush, _⟩ := (hq ready hrun).flush hh
  exact ⟨after, Host.flush_made hflush ▸ hflush⟩

theorem Flushed.ready_of_queued (h : Flushed work host after) : after.Ready := by
  obtain ⟨ready, hrun, n, hflush⟩ := Host.thenFlush_eq_ok.1 h
  obtain ⟨_, last, hmade, hready⟩ := (hq ready hrun).flush hh
  obtain rfl : last = after := congrArg Prod.snd (hmade.symm.trans hflush)
  exact hready

end

end Redline
