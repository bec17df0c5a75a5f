import Redline.Proofs.Preparing

/-!
# Runs that stop

The actions of a plan, and the operations of a block plan, are carried out one by one, each with one
flush.  The first that fails ends the run, and the run leaves what those before it have made.

## Main definitions

* `Flushed` — a piece of work and its flush have succeeded.
* `Document.flagged` — effects the first of which have been applied.
* `OneByOne` — several pieces of work, one after the other.
* `Stops` — a piece of work has failed before its flush or in the middle of it.
-/

namespace Redline

open Editing

variable {host mid after left : Host}

/-! ## One piece of work -/

/-- The work with one flush behind it. -/
def Editing.thenFlush (work : Editing Unit) : Editing Unit := do
  work
  let _ ← Host.flush

/-- The work and one flush have succeeded. -/
def Flushed (work : Editing Unit) (host after : Host) : Prop :=
  work.thenFlush.runOn host = (.ok (), after)

/-- Effects the first `k` of which are flagged as applied. -/
def Document.flagged (k : Nat) (effects : List Effect) : List PendingEffect :=
  (effects.take k).map .made ++ (effects.drop k).map .unmade

/-- The work has failed, and what it left in the queue has been dropped. -/
inductive Stops (work : Editing Unit) (host after : Host) : Prop
  /-- A mishap comes before the flush, so the body is what it was. -/
  | preparing {mishap : Mishap} {left : Host} :
      work.runOn host = (.error mishap, left) → host.Prepared left →
        after = { left with pending := [] } → Stops work host after
  /-- The flush makes the first `k` effects, and the next one fails. -/
  | flushing {ready : Host} {k : Nat} {effect : Effect} {d last : Document} {cause : Fault} :
      work.runOn host = (.ok (), ready) → host.Prepared ready →
        ready.pending[k]? = some effect →
        ready.document.applyAll (Host.step ready.isOpen) (ready.pending.take k) =
          .complete d (ready.pending.take k) →
        Host.step ready.isOpen effect d = (last, some cause) →
        after = { ready with
          document := last
          pending := []
          flushCount := ready.flushCount + 1
          lastFlush := Document.flagged k ready.pending } →
        Stops work host after

namespace Document

variable {step : Effect → Document → Effect.Outcome} {d next last : Document} {e effect : Effect}
  {rest effects : List Effect} {queue : List PendingEffect} {k : Nat} {cause : Fault}

/-- Effects fail at one of them, and those in front of it succeed; these alone are flagged. -/
theorem applyAll_failed (h : d.applyAll step effects = ⟨last, queue, k, some (effect, cause)⟩) :
    effects[k]? = some effect ∧ queue = flagged k effects ∧
      ∃ d', d.applyAll step (effects.take k) = .complete d' (effects.take k) ∧
        step effect d' = (last, some cause) := by
  induction effects generalizing d k queue with
  | nil => simp [applyAll] at h
  | cons e rest ih =>
    rcases he : step e d with ⟨next, _ | fault⟩
    · rw [applyAll_cons_of_done he] at h
      rcases hrest : next.applyAll step rest with ⟨d', flags, j, failed⟩
      simp only [hrest, Progress.mk.injEq] at h
      obtain ⟨rfl, rfl, rfl, rfl⟩ := h
      obtain ⟨hat, hflags, d', htake, hfail⟩ := ih hrest
      refine ⟨hat, by rw [hflags]; rfl, d', ?_, hfail⟩
      rw [List.take_succ_cons, applyAll_cons_of_done he, htake]
      rfl
    · rw [applyAll_cons_of_fault he] at h
      simp only [Progress.mk.injEq, Option.some.injEq, Prod.mk.injEq] at h
      obtain ⟨rfl, rfl, rfl, rfl, rfl⟩ := h
      exact ⟨rfl, rfl, d, rfl, he⟩

end Document

/-- A flush that fails has made some of the effects. -/
theorem Host.flush_eq_error {mishap : Mishap} (h : Host.flush.runOn host = (.error mishap, left)) :
    ∃ (k : Nat) (effect : Effect) (d last : Document) (cause : Fault),
      host.pending[k]? = some effect ∧
      host.document.applyAll (Host.step host.isOpen) (host.pending.take k) =
        .complete d (host.pending.take k) ∧
      Host.step host.isOpen effect d = (last, some cause) ∧
      mishap = .fault (.effectFailed effect.description cause) ∧
      left = { host with
        document := last
        pending := []
        flushCount := host.flushCount + 1
        lastFlush := Document.flagged k host.pending } := by
  simp only [Host.flush, runOn_bind, runOn_get, runOn_set] at h
  rcases hp : host.document.applyAll (Host.step host.isOpen) host.pending with
    ⟨last, queue, k, _ | ⟨effect, cause⟩⟩
  · simp [hp] at h
  · simp only [hp, runOn_fault, Prod.mk.injEq, Except.error.injEq] at h
    obtain ⟨hat, rfl, d, htake, hfail⟩ := Document.applyAll_failed hp
    exact ⟨k, effect, d, last, cause, hat, htake, hfail, h.1.symm, h.2.symm⟩

/-- A mishap comes from the work or from the flush. -/
theorem Editing.thenFlush_error {work : Editing Unit} {mishap : Mishap}
    (h : work.thenFlush.runOn host = (.error mishap, left)) :
    work.runOn host = (.error mishap, left) ∨
      ∃ ready, work.runOn host = (.ok (), ready) ∧
        Host.flush.runOn ready = (.error mishap, left) := by
  rw [thenFlush, runOn_bind] at h
  rcases hrun : work.runOn host with ⟨early | _, ready⟩
  · simp only [hrun] at h
    exact .inl h
  · simp only [hrun, runOn_bind] at h
    rcases hflush : Host.flush.runOn ready with ⟨late | n, last⟩
    · simp only [hflush, Prod.mk.injEq, Except.error.injEq] at h
      exact .inr ⟨ready, rfl, by rw [hflush, h.1, h.2]⟩
    · simp [hflush] at h

theorem Editing.thenFlush_of_error {work : Editing Unit} {mishap : Mishap}
    (h : work.runOn host = (.error mishap, left)) :
    work.thenFlush.runOn host = (.error mishap, left) := by
  rw [thenFlush, runOn_bind, h]

/-- Work that succeeds leaves what its flush leaves, whether that succeeds or not. -/
theorem Editing.thenFlush_leaves {work : Editing Unit} {ready : Host}
    (h : work.runOn host = (.ok (), ready)) :
    (work.thenFlush.runOn host).2 = (Host.flush.runOn ready).2 := by
  rw [thenFlush, runOn_bind, h]
  simp only [runOn_bind]
  rcases Host.flush.runOn ready with ⟨mishap | n, last⟩ <;> rfl

theorem stops_of_error {work : Editing Unit} {mishap : Mishap} (hw : Prepares work)
    (h : work.thenFlush.runOn host = (.error mishap, left)) :
    Stops work host { left with pending := [] } := by
  have hprepared := hw host
  rcases thenFlush_error h with hrun | ⟨ready, hrun, hflush⟩
  · rw [hrun] at hprepared
    exact .preparing hrun hprepared rfl
  · rw [hrun] at hprepared
    obtain ⟨k, effect, d, last, cause, hat, htake, hfail, _, rfl⟩ := Host.flush_eq_error hflush
    exact .flushing hrun hprepared hat htake hfail rfl

/-- Work that has stopped leaves nothing queued. -/
theorem Stops.pending {work : Editing Unit} (h : Stops work host after) : after.pending = [] := by
  cases h with
  | preparing _ _ ha => rw [ha]
  | flushing _ _ _ _ _ ha => rw [ha]

/-- Work that has stopped has flushed once at most. -/
theorem Stops.flushCount {work : Editing Unit} (h : Stops work host after) :
    after.flushCount = host.flushCount ∨ after.flushCount = host.flushCount + 1 := by
  cases h with
  | preparing _ hp ha => exact .inl (by rw [ha, hp.flushCount])
  | flushing _ hp _ _ _ ha => exact .inr (by rw [ha, hp.flushCount])

/-- A flush empties the queue and counts, whether it succeeds or not. -/
theorem Host.flush_leaves (host : Host) :
    (Host.flush.runOn host).2 = { host with
      document := (host.document.applyAll (Host.step host.isOpen) host.pending).document
      pending := []
      flushCount := host.flushCount + 1
      lastFlush := (host.document.applyAll (Host.step host.isOpen) host.pending).queue } := by
  simp only [Host.flush, runOn_bind, runOn_get, runOn_set]
  rcases host.document.applyAll (Host.step host.isOpen) host.pending with
    ⟨d, queue, k, _ | failed⟩ <;> rfl

namespace Flushed

variable {work : Editing Unit}

theorem leaves (h : Flushed work host after) :
    ∃ ready, work.runOn host = (.ok (), ready) ∧ after = (Host.flush.runOn ready).2 := by
  obtain ⟨ready, hwork, n, hflush⟩ := Host.thenFlush_eq_ok.1 h
  exact ⟨ready, hwork, by rw [hflush]⟩

theorem pending (h : Flushed work host after) : after.pending = [] := by
  obtain ⟨ready, _, rfl⟩ := h.leaves
  rw [Host.flush_leaves]

theorem flushCount (hw : Prepares work) (h : Flushed work host after) :
    after.flushCount = host.flushCount + 1 := by
  obtain ⟨ready, hwork, rfl⟩ := h.leaves
  have hprepared := hw host
  rw [hwork] at hprepared
  rw [Host.flush_leaves, ← hprepared.flushCount]

theorem isOpen (hw : Prepares work) (h : Flushed work host after) :
    after.isOpen = host.isOpen := by
  obtain ⟨ready, hwork, rfl⟩ := h.leaves
  have hprepared := hw host
  rw [hwork] at hprepared
  rw [Host.flush_leaves, ← hprepared.isOpen]

end Flushed

/-! ## One piece of work after the other -/

/-- What follows an item of a list changes neither the item nor those in front of it. -/
theorem take_succ_append {ι : Type} {items : List ι} {i : ι} {k : Nat} (h : items[k]? = some i)
    (rest : List ι) :
    (items.take (k + 1) ++ rest)[k]? = some i ∧
      (items.take (k + 1) ++ rest).take k = items.take k := by
  have hk : k < items.length := (List.getElem?_eq_some_iff.1 h).1
  have hlong : k < (items.take (k + 1)).length := by
    rw [List.length_take]
    omega
  constructor
  · rw [List.getElem?_append_left hlong, List.getElem?_take_of_lt (Nat.lt_succ_self k), h]
  · rw [List.take_append_of_le_length hlong.le, List.take_take, min_eq_left (Nat.le_succ k)]

/-- Several steps, one after the other. -/
inductive OneByOne {ι : Type} (does : ι → Host → Host → Prop) : List ι → Host → Host → Prop
  | nil (host : Host) : OneByOne does [] host host
  | cons {i : ι} {rest : List ι} {host mid after : Host} :
      does i host mid → OneByOne does rest mid after → OneByOne does (i :: rest) host after

namespace OneByOne

variable {ι : Type} {does does' : ι → Host → Host → Prop} {i : ι} {items : List ι}

theorem nil_iff : OneByOne does [] host after ↔ after = host := by
  constructor
  · rintro ⟨⟩
    rfl
  · rintro rfl
    exact .nil _

theorem cons_iff : OneByOne does (i :: items) host after ↔
    ∃ mid, does i host mid ∧ OneByOne does items mid after := by
  constructor
  · rintro (_ | ⟨hi, hrest⟩)
    exact ⟨_, hi, hrest⟩
  · rintro ⟨mid, hi, hrest⟩
    exact .cons hi hrest

/-- Every flush empties the queue and counts. -/
theorem flushes {work : ι → Editing Unit} (hw : ∀ i, Prepares (work i))
    (h : OneByOne (fun i => Flushed (work i)) items host after) (hp : host.pending = []) :
    after.pending = [] ∧ after.flushCount = host.flushCount + items.length := by
  induction h with
  | nil host => exact ⟨hp, rfl⟩
  | @cons i rest host mid after hi _ ih =>
    obtain ⟨hpending, hcount⟩ := ih hi.pending
    refine ⟨hpending, ?_⟩
    rw [hcount, hi.flushCount (hw i), List.length_cons]
    omega

theorem isOpen {work : ι → Editing Unit} (hw : ∀ i, Prepares (work i))
    (h : OneByOne (fun i => Flushed (work i)) items host after) : after.isOpen = host.isOpen := by
  induction h with
  | nil host => rfl
  | cons hi _ ih => exact ih.trans (hi.isOpen (hw _))

/-- Steps of one kind are steps of another kind if that holds on the hosts that they lead to. -/
theorem mono (good : Host → Prop) (hgood : ∀ i host after, good host → does i host after →
      good after ∧ does' i host after) (h : OneByOne does items host after) (hh : good host) :
    OneByOne does' items host after := by
  induction h with
  | nil host => exact .nil host
  | cons hi _ ih =>
    obtain ⟨hmid, hstep⟩ := hgood _ _ _ hh hi
    exact .cons hstep (ih hmid)

end OneByOne

end Redline
