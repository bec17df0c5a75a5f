import Redline.Execution
import Redline.Proofs.Document.WellFormed

/-!
# Laws of work on a host

Work is looked at through `Editing.runOn`: what it returns and the host that it leaves.  A successful
piece of work succeeds step by step, so a run is taken apart by `bind_eq_ok`.

## Main definitions

* `Host.Ready` — an open host of a well-formed document that has nothing queued and answers every
  query.
* `Document.Becomes` — effects that all succeed, and the document they make.
* `Document.Keeps` — an effect that keeps documents well formed.
-/

namespace Redline

variable {α β : Type} {host after : Host}

namespace Editing

@[simp] theorem runOn_pure (a : α) : (pure a : Editing α).runOn host = (.ok a, host) := rfl

theorem runOn_bind (work : Editing α) (next : α → Editing β) :
    (work >>= next).runOn host =
      match work.runOn host with
      | (.ok a, mid) => (next a).runOn mid
      | (.error mishap, mid) => (.error mishap, mid) := by
  simp only [runOn, ExceptT.run_bind, StateT.run_bind]
  rcases StateT.run (ExceptT.run work) host with ⟨_ | a, mid⟩ <;> rfl

theorem runOn_map (f : α → β) (work : Editing α) :
    (f <$> work).runOn host =
      match work.runOn host with
      | (.ok a, mid) => (.ok (f a), mid)
      | (.error mishap, mid) => (.error mishap, mid) := by
  rw [map_eq_pure_bind, runOn_bind]
  rfl

@[simp] theorem runOn_get : (get : Editing Host).runOn host = (.ok host, host) := rfl

@[simp] theorem runOn_set (h : Host) : (set h : Editing PUnit).runOn host = (.ok ⟨⟩, h) := rfl

@[simp] theorem runOn_modify (f : Host → Host) :
    (modify f : Editing PUnit).runOn host = (.ok ⟨⟩, f host) := rfl

@[simp] theorem runOn_throw (m : Mishap) :
    (throw m : Editing α).runOn host = (.error m, host) := rfl

theorem runOn_tryCatch (work : Editing α) (handler : Mishap → Editing α) :
    (tryCatch work handler).runOn host =
      match work.runOn host with
      | (.ok a, mid) => (.ok a, mid)
      | (.error mishap, mid) => (handler mishap).runOn mid := by
  simp only [runOn, tryCatch, tryCatchThe, MonadExceptOf.tryCatch, ExceptT.tryCatch,
    ExceptT.run_mk, StateT.run_bind]
  change (StateT.run (ExceptT.run work) host >>= _) = _
  rcases StateT.run (ExceptT.run work) host with ⟨_ | a, mid⟩ <;> rfl

theorem bind_eq_ok {work : Editing α} {next : α → Editing β} {b : β} :
    (work >>= next).runOn host = (.ok b, after) ↔
      ∃ a mid, work.runOn host = (.ok a, mid) ∧ (next a).runOn mid = (.ok b, after) := by
  rw [runOn_bind]
  rcases work.runOn host with ⟨_ | a, mid⟩ <;> simp

@[simp] theorem runOn_fault (f : Fault) :
    (fault f : Editing α).runOn host = (.error (.fault f), host) := rfl

@[simp] theorem runOn_failure (f : Failure) :
    (failure f : Editing α).runOn host = (.error (.failure f), host) := rfl

@[simp] theorem runOn_lift_ok (a : α) : (lift (.ok a)).runOn host = (.ok a, host) := rfl

theorem lift_eq_ok {value : Except Fault α} {a : α} :
    (lift value).runOn host = (.ok a, after) ↔ value = .ok a ∧ after = host := by
  cases value <;> simp [lift, eq_comm]

theorem except_bind_eq_ok {ε : Type} {value : Except ε α} {next : α → Except ε β} {b : β} :
    (value >>= next) = .ok b ↔ ∃ a, value = .ok a ∧ next a = .ok b := by
  cases value <;> simp [bind, Except.bind]

/-- Work that succeeds is not touched by what catches its mishaps. -/
theorem tryCatch_eq_ok {work : Editing α} {handler : Mishap → Editing α} {a : α}
    (hh : ∀ mishap host, (handler mishap).runOn host ≠ (.ok a, after)) :
    (tryCatch work handler).runOn host = (.ok a, after) ↔ work.runOn host = (.ok a, after) := by
  rw [runOn_tryCatch]
  rcases work.runOn host with ⟨_ | b, mid⟩ <;> simp [hh]

/-- What is done about a refusal does not change what the work has left. -/
theorem catchRefusal_bind_leaves (work : Editing α)
    {next : Except Fault α → Editing β} (hn : ∀ r host, ((next r).runOn host).2 = host)
    (host : Host) : ((catchRefusal work >>= next).runOn host).2 = (work.runOn host).2 := by
  rw [runOn_bind, catchRefusal, runOn_tryCatch, ← map_eq_pure_bind, runOn_map]
  rcases work.runOn host with ⟨mishap | a, left⟩
  · cases mishap with
    | fault f =>
      by_cases hf : f.family = .host <;> simp [hf, hn]
    | failure f => rfl
  · exact hn _ _

/-! ### Work on each item of a list -/

section
variable {work : α → Editing β} {l : List α}

/-- Work that leaves the host alone and succeeds for each item succeeds for all of them. -/
theorem runOn_mapM_of_ok {value : α → β}
    (h : ∀ a ∈ l, (work a).runOn host = (.ok (value a), host)) :
    (l.mapM work).runOn host = (.ok (l.map value), host) := by
  induction l with
  | nil => rfl
  | cons a rest ih =>
    obtain ⟨hfirst, hrest⟩ := List.forall_mem_cons.1 h
    rw [List.mapM_cons, runOn_bind, hfirst]
    dsimp only
    rw [runOn_bind, ih hrest]
    rfl

/-- Work that leaves the host alone and fails for some item fails as it does for one of them. -/
theorem runOn_mapM_of_error (h : ∀ a ∈ l, ((work a).runOn host).2 = host) {a : α} (ha : a ∈ l)
    {m : Mishap} (hm : (work a).runOn host = (.error m, host)) :
    ∃ a ∈ l, ∃ m, (work a).runOn host = (.error m, host) ∧
      (l.mapM work).runOn host = (.error m, host) := by
  induction l with
  | nil => cases ha
  | cons first rest ih =>
    obtain ⟨hfirst, hrest⟩ := List.forall_mem_cons.1 h
    rcases hrun : (work first).runOn host with ⟨_ | b, after⟩
    · obtain rfl : after = host := by rw [← hfirst, hrun]
      refine ⟨first, List.mem_cons_self, _, hrun, ?_⟩
      rw [List.mapM_cons, runOn_bind, hrun]
    · obtain rfl : after = host := by rw [← hfirst, hrun]
      rcases List.mem_cons.1 ha with rfl | ha
      · rw [hm] at hrun
        cases hrun
      · obtain ⟨x, hx, m, hwork, hmap⟩ := ih hrest ha
        refine ⟨x, List.mem_cons_of_mem _ hx, m, hwork, ?_⟩
        rw [List.mapM_cons, runOn_bind, hrun]
        dsimp only
        rw [runOn_bind, hmap]

end

end Editing

/-! ## Queries -/

namespace Host

open Editing

theorem runOn_openDocument (hopen : host.isOpen = true) :
    openDocument.runOn host = (.ok host.document, host) := by
  simp [Host.openDocument, runOn_bind, hopen]

/-- An open host whose queries do not fail. -/
structure Answers (host : Host) : Prop where
  isOpen : host.isOpen = true
  outages : host.outages = []

/-- An open host of a well-formed document that has nothing queued and answers every query. -/
structure Ready (host : Host) : Prop extends host.Answers where
  pending : host.pending = []
  wellFormed : host.document.WellFormed

namespace Answers

variable (ha : host.Answers)
include ha

theorem check (query : Query) : (check query).runOn host = (.ok (), host) := by
  simp [Host.check, runOn_bind, ha.outages]

theorem openDocument : openDocument.runOn host = (.ok host.document, host) :=
  runOn_openDocument ha.isOpen

theorem ask (query : Query) (view : Document → α) :
    (ask query view).runOn host = (.ok (view host.document), host) := by
  simp [Host.ask, runOn_bind, runOn_map, ha.check, ha.openDocument]

theorem paragraphs : paragraphs.runOn host = (.ok host.document.passages, host) := ha.ask _ _

theorem markers : markers.runOn host = (.ok host.document.body.markers, host) := ha.ask _ _

theorem bookmarks : bookmarks.runOn host = (.ok host.document.body.bookmarks, host) := ha.ask _ _

theorem bookmarkRange (b : Bookmark) :
    (bookmarkRange b).runOn host = (.ok (host.document.body.bookmarkRange b), host) := ha.ask _ _

theorem search (p : Text.Pattern) :
    (search p).runOn host = (.ok (host.document.search p), host) := ha.ask _ _

theorem markerRange (h : Handle) :
    (markerRange h).runOn host = (.ok (host.document.inside h).ownParagraphs, host) := by
  simp [Host.markerRange, runOn_bind, runOn_map, ha.check]

end Answers

/-! ## Changes -/

@[simp] theorem runOn_queue (e : Effect) :
    (queue e).runOn host = (.ok (), { host with pending := host.pending ++ [e] }) := rfl

/-- The host with another document and more effects in its queue. -/
def queueing (host : Host) (d : Document) (effects : List Effect) : Host :=
  { host with document := d, pending := host.pending ++ effects }

@[simp] theorem isOpen_queueing (host : Host) (d : Document) (effects : List Effect) :
    (host.queueing d effects).isOpen = host.isOpen := rfl

@[simp] theorem queueing_queueing (host : Host) (d d' : Document) (first second : List Effect) :
    (host.queueing d first).queueing d' second = host.queueing d' (first ++ second) := by
  simp [queueing]

@[simp] theorem document_queueing (host : Host) (d : Document) (effects : List Effect) :
    (host.queueing d effects).document = d := rfl

theorem runOn_queue_queueing (host : Host) (d : Document) (effects : List Effect)
    (e : Effect) :
    (queue e).runOn (host.queueing d effects) = (.ok (), host.queueing d (effects ++ [e])) := by
  rw [runOn_queue, queueing, queueing, List.append_assoc]

theorem runOn_forM_queue {ι : Type} (e : ι → Effect) (l : List ι) :
    (l.forM fun i => queue (e i)).runOn host =
      (.ok (), { host with pending := host.pending ++ l.map e }) := by
  induction l generalizing host with
  | nil => simp
  | cons i rest ih =>
    change (queue (e i) >>= fun _ => rest.forM fun i => queue (e i)).runOn host = _
    simp only [runOn_bind, runOn_queue]
    rw [ih]
    simp

end Host

/-! ## Flushes -/

namespace Document

/-- All effects succeed, one after the other, and make the second document of the first. -/
def Becomes (d : Document) : List Effect → Document → Prop
  | [], d' => d' = d
  | e :: rest, d' => ∃ mid, e.apply d = (mid, none) ∧ mid.Becomes rest d'

@[simp] theorem becomes_nil {d d' : Document} : d.Becomes [] d' ↔ d' = d := Iff.rfl

@[simp] theorem becomes_cons {d d' : Document} {e : Effect} {rest : List Effect} :
    d.Becomes (e :: rest) d' ↔ ∃ mid, e.apply d = (mid, none) ∧ mid.Becomes rest d' := Iff.rfl

theorem becomes_append {d d' : Document} {first second : List Effect} :
    d.Becomes (first ++ second) d' ↔ ∃ mid, d.Becomes first mid ∧ mid.Becomes second d' := by
  induction first generalizing d with
  | nil => simp
  | cons e rest ih => simp only [List.cons_append, becomes_cons, ih]; grind

/-- The effect keeps documents well formed. -/
def Keeps (e : Effect) : Prop := ∀ d : Document, d.WellFormed → (e.apply d).1.WellFormed

theorem WellFormed.becomes {d d' : Document} {effects : List Effect} (hd : d.WellFormed)
    (h : d.Becomes effects d') (hk : ∀ e ∈ effects, Keeps e) : d'.WellFormed := by
  induction effects generalizing d with
  | nil => exact becomes_nil.1 h ▸ hd
  | cons e rest ih =>
    obtain ⟨mid, happly, hrest⟩ := becomes_cons.1 h
    have hmid := hk e List.mem_cons_self d hd
    rw [happly] at hmid
    exact ih hmid hrest fun e he => hk e (List.mem_cons_of_mem _ he)

theorem becomes_iff {d d' : Document} {effects : List Effect} :
    d.Becomes effects d' ↔ d.applyAll Effect.apply effects = .complete d' effects := by
  induction effects generalizing d with
  | nil => simp [applyAll, Progress.complete, eq_comm]
  | cons e rest ih =>
    rw [becomes_cons, applyAll]
    rcases e.apply d with ⟨mid, _ | fault⟩
    · simp only [Prod.mk.injEq, and_true, exists_eq_left', ih]
      cases mid.applyAll Effect.apply rest
      simp [Progress.complete]
    · simp [Progress.complete]

section
variable {step : Effect → Document → Effect.Outcome} {d next : Document} {e : Effect}
  {rest : List Effect} {cause : Fault}

theorem applyAll_cons_of_done (he : step e d = (next, none)) :
    d.applyAll step (e :: rest) =
      { next.applyAll step rest with
        queue := .made e :: (next.applyAll step rest).queue
        applied := (next.applyAll step rest).applied + 1 } := by
  rw [applyAll, he]

theorem applyAll_cons_of_fault (he : step e d = (next, some cause)) :
    d.applyAll step (e :: rest) =
      ⟨next, (e :: rest).map .unmade, 0, some (e, cause)⟩ := by
  rw [applyAll, he]

end

theorem document_applyAll_singleton (step : Effect → Document → Effect.Outcome)
    (e : Effect) (d : Document) : (d.applyAll step [e]).document = (step e d).1 := by
  rw [applyAll]
  rcases step e d with ⟨next, _ | cause⟩ <;> rfl

theorem applyAll_of_failed_eq_none {step : Effect → Document → Effect.Outcome} {d : Document}
    {effects : List Effect} (h : (d.applyAll step effects).failed = none) :
    d.applyAll step effects = .complete (d.applyAll step effects).document effects := by
  induction effects generalizing d with
  | nil => rfl
  | cons e rest ih =>
    rcases he : step e d with ⟨mid, _ | cause⟩
    · rw [applyAll_cons_of_done he] at h ⊢
      rw [ih h]
      rfl
    · rw [applyAll_cons_of_fault he] at h
      cases h

/-- Behind effects that succeed, one that fails is the last that is tried. -/
theorem applyAll_of_fault {d mid last : Document} {first rest : List Effect} {e : Effect}
    {cause : Fault} (hfirst : d.Becomes first mid) (he : e.apply mid = (last, some cause)) :
    d.applyAll Effect.apply (first ++ e :: rest) =
      ⟨last, first.map .made ++ (e :: rest).map .unmade, first.length, some (e, cause)⟩ := by
  induction first generalizing d with
  | nil =>
    obtain rfl := becomes_nil.1 hfirst
    exact applyAll_cons_of_fault he
  | cons e' others ih =>
    obtain ⟨next, hnext, hothers⟩ := becomes_cons.1 hfirst
    rw [List.cons_append, applyAll_cons_of_done hnext, ih hothers]
    rfl

end Document

namespace Host

open Editing

/-- An effect that fails behind effects that succeed is what a flush fails at. -/
theorem flush_of_fault (hopen : host.isOpen = true) {first rest : List Effect} {e : Effect}
    {mid last : Document} {cause : Fault} (hqueue : host.pending = first ++ e :: rest)
    (hfirst : host.document.Becomes first mid) (he : e.apply mid = (last, some cause)) :
    flush.runOn host = (.error (.fault (.effectFailed e.description cause)),
      { host with
        document := last
        pending := []
        flushCount := host.flushCount + 1
        lastFlush := first.map .made ++ (e :: rest).map .unmade }) := by
  have hstep : Host.step host.isOpen = Effect.apply := by rw [hopen]; rfl
  simp only [flush, runOn_bind, runOn_get, runOn_set, hstep, hqueue,
    Document.applyAll_of_fault hfirst he, runOn_fault]

theorem flush_eq_ok (hopen : host.isOpen = true) {n : Nat} :
    flush.runOn host = (.ok n, after) ↔
      ∃ d, host.document.Becomes host.pending d ∧ n = host.pending.length ∧
        after = { host with
          document := d
          pending := []
          flushCount := host.flushCount + 1
          lastFlush := host.pending.map .made } := by
  have hstep : (step host.isOpen) = Effect.apply := by rw [hopen]; rfl
  simp only [flush, runOn_bind, runOn_get, runOn_set, hstep, Document.becomes_iff]
  rcases hp : host.document.applyAll Effect.apply host.pending with
    ⟨d, queue, applied, _ | ⟨effect, cause⟩⟩
  · have hall := Document.applyAll_of_failed_eq_none (congrArg Progress.failed hp)
    rw [hp, Progress.complete, Progress.mk.injEq] at hall
    obtain ⟨-, rfl, rfl, -⟩ := hall
    simp [Progress.complete, eq_comm]
  · simp [Progress.complete]

theorem thenFlush_eq_ok {work : Editing Unit} :
    (do work; let _ ← flush).runOn host = (.ok (), after) ↔
      ∃ mid, work.runOn host = (.ok (), mid) ∧ ∃ n, flush.runOn mid = (.ok n, after) := by
  simp only [bind_eq_ok]
  constructor
  · rintro ⟨_, mid, hwork, n, last, hflush, hlast⟩
    obtain rfl : last = after := (Prod.mk.inj hlast).2
    exact ⟨mid, hwork, n, hflush⟩
  · rintro ⟨mid, hwork, n, hflush⟩
    exact ⟨(), mid, hwork, n, after, hflush, rfl⟩

/-- Flushing what has been queued on a host that had nothing queued. -/
theorem Ready.flush_queueing (hh : host.Ready) {d : Document} {effects : List Effect} :
    (∃ n, flush.runOn (host.queueing d effects) = (.ok n, after)) ↔
      ∃ d', d.Becomes effects d' ∧
        after = { host with
          document := d'
          flushCount := host.flushCount + 1
          lastFlush := effects.map .made } := by
  have hopen : (host.queueing d effects).isOpen = true := hh.isOpen
  simp only [flush_eq_ok hopen]
  simp only [queueing, hh.pending, List.nil_append]
  constructor
  · rintro ⟨n, d', hbecomes, _, rfl⟩
    exact ⟨d', hbecomes, rfl⟩
  · rintro ⟨d', hbecomes, rfl⟩
    exact ⟨_, d', hbecomes, rfl, rfl⟩

/-- A flush whose first effect fails. -/
theorem Ready.flush_refused (hh : host.Ready) {d left : Document} {e : Effect} {cause : Fault}
    (he : e.apply d = (left, some cause)) (rest : List Effect) :
    flush.runOn (host.queueing d (e :: rest)) =
      (.error (.fault (.effectFailed e.description cause)),
        { host with
          document := left
          flushCount := host.flushCount + 1
          lastFlush := (e :: rest).map .unmade }) := by
  have hstep : step host.isOpen = Effect.apply := by rw [hh.isOpen]; rfl
  simp only [flush, runOn_bind, runOn_get, runOn_set, queueing, hh.pending, List.nil_append, hstep,
    Document.applyAll_cons_of_fault he]
  rfl

theorem Ready.flushed (hh : host.Ready) {d : Document} (hd : d.WellFormed)
    {effects : List PendingEffect} :
    Ready { host with
      document := d, flushCount := host.flushCount + 1, lastFlush := effects } :=
  ⟨⟨hh.isOpen, hh.outages⟩, hh.pending, hd⟩

end Host

end Redline
