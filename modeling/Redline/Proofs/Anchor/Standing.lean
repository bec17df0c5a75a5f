import Redline.Proofs.Document.Standing
import Redline.Proofs.Run.Carrying
import Redline.Proofs.Session

/-!
# Resolved ranges are in their place

However a range is found, by a content control, a bookmark, a heading or as the whole body, it
consists of paragraphs that are all in their place.  Only the selection is another matter: it is
whatever was selected.  So the work that clears a range, puts paragraphs beside it or takes its
remnant out finds the paragraph that it works at in its place, from the first effect of its queue
through the last.

## Main definitions

* `Resolution.FoundIn` — where the range of a resolution stands.

## Main results

* `Anchor.reads_resolve` — what resolving an anchor returns.
* `Execution.findsPlaces_replaceSection`, `Execution.findsPlaces_insertText` — the actions.
* `Anchor.resolved_ranges_live` — resolved ranges, and the work on them.
-/

namespace Redline

open Editing Document

variable {host mid after : Host} {rules : Rules} {anchor : String} {setting : Execution.Setting}

/-! ## Reading -/

namespace Editing.Reads

variable {α : Type} {post : α → Prop} {work : Editing α}

theorem failure (f : Failure) : Reads host post (Editing.failure f) :=
  ⟨rfl, fun _ ha => by cases ha⟩

/-- What work returns is what it returns. -/
theorem returned (hw : Reads host post work) :
    Reads host (fun a => work.runOn host = (.ok a, host)) work :=
  ⟨hw.1, fun _ ha => Prod.ext ha hw.1⟩

theorem catchRefusal (hw : Reads host post work) :
    Reads host (fun r => ∀ a, r = .ok a → post a) (catchRefusal work) := by
  obtain ⟨hhost, hpost⟩ := hw
  rw [Reads, Editing.catchRefusal, runOn_tryCatch, runOn_bind]
  rcases hrun : work.runOn host with ⟨mishap | a, left⟩
  · rw [hrun] at hhost
    obtain rfl : left = host := hhost
    cases mishap with
    | failure f => exact ⟨rfl, fun _ hr => by cases hr⟩
    | fault f => by_cases hf : f.family = .host <;> simp [hf]
  · rw [hrun] at hhost hpost
    refine ⟨hhost, fun r hr b hb => hpost b ?_⟩
    exact congrArg Except.ok (Except.ok.inj ((Except.ok.inj hr).trans hb))

theorem of_run {a : α} (hw : Reads host post work) (h : work.runOn host = (.ok a, after)) :
    after = host ∧ post a := by
  obtain ⟨hhost, hpost⟩ := hw
  rw [h] at hhost hpost
  exact ⟨hhost, hpost a rfl⟩

end Editing.Reads

/-! ## What strategies find -/

/-- The range of a resolution consists of paragraphs of the document, in its order, and but for
content controls of consecutive ones.  Of a selection nothing is said. -/
def Resolution.FoundIn (host : Host) (found : Resolution) : Prop :=
  (found.strategy = .default → Host.selection.runOn host = (.ok none, host)) →
    found.range.Sublist host.document.body.listed ∧
      (found.strategy ≠ .marker → found.range <:+: host.document.body.listed)

theorem Resolution.foundIn_of_isInfix {found : Resolution}
    (h : found.range <:+: host.document.body.listed) : found.FoundIn host :=
  fun _ => ⟨h.sublist, fun _ => h⟩

namespace Anchor

theorem reads_ensureHost : Reads host (fun _ => True) ensureHost := by
  refine .bind .get fun _ _ => ?_
  split
  · exact .pure trivial
  · exact .failure _

section
variable (hd : host.document.WellFormed)
include hd

theorem reads_attempt (strategy : Strategy) :
    Reads host (fun r => ∀ found, r = some found → found.FoundIn host)
      (attempt rules anchor strategy) := by
  have hnothing : ∀ found, (none : Option Resolution) = some found → found.FoundIn host := nofun
  have hsomething : ∀ r : Resolution, r.FoundIn host → ∀ found, some r = some found →
      found.FoundIn host := fun r hr found h => Option.some.inj h ▸ hr
  cases strategy with
  | marker =>
    refine (Host.reads_ask _ _).bind fun markers hmarkers => ?_
    split
    · next m hm =>
      subst hmarkers
      refine (Host.reads_markerRange _).bind fun range hrange => .pure (hsomething _ fun _ => ?_)
      refine ⟨?_, fun hne => absurd rfl hne⟩
      exact hrange ▸ ownParagraphs_inside_sublist hd (List.mem_of_find?_eq_some hm)
    · exact .pure hnothing
  | bookmark =>
    refine (Host.reads_ask _ _).bind fun bookmarks _ => ?_
    split
    · next b _ =>
      refine (Host.reads_ask _ _).bind fun range hrange => .pure (hsomething _ ?_)
      exact Resolution.foundIn_of_isInfix (hrange ▸ Forest.bookmarkRange_isInfix _ b)
    · exact .pure hnothing
  | heading =>
    refine (Host.reads_ask _ _).bind fun passages hpassages => ?_
    dsimp only
    split
    · next p hp =>
      subst hpassages
      have hmem := List.mem_of_mem_filter (List.mem_of_find?_eq_some hp)
      exact .pure (hsomething _ (Resolution.foundIn_of_isInfix
        ((List.singleton_infix_iff _ _).2 (Execution.mem_listed_of_mem_passages hmem))))
    · exact .pure hnothing
  | default =>
    simp only [attempt, byDefault]
    split
    · exact .pure hnothing
    · refine Host.reads_selection.returned.bind fun selected hselected => ?_
      split
      · refine .pure (hsomething _ fun hnone => ?_)
        -- Something is selected, so nothing is said of it.
        rw [hnone rfl] at hselected
        cases hselected
      · refine Host.reads_bodyRange.bind fun range hrange => .pure (hsomething _ ?_)
        exact Resolution.foundIn_of_isInfix (hrange ▸ List.infix_rfl)

theorem reads_resolveFrom (refusals : List (String × String)) (strategies : List Strategy) :
    Reads host (·.FoundIn host) (resolveFrom rules anchor refusals strategies) := by
  induction strategies generalizing refusals with
  | nil => exact .failure _
  | cons strategy rest ih =>
    refine (reads_attempt hd strategy).catchRefusal.bind fun r hr => ?_
    split
    · next found => exact .pure (hr _ rfl found rfl)
    · exact ih _
    · exact ih _

/-- What resolving an anchor returns, on any host of a well-formed document. -/
theorem reads_resolve : Reads host (·.FoundIn host) (resolve rules anchor) :=
  reads_ensureHost.bind fun _ _ => reads_resolveFrom hd _ _

end

end Anchor

/-! ## Work on resolved ranges -/

namespace Execution

variable {insert : String → Editing Handle} {blocks : List Block} (hh : host.Ready)
include hh

/-- The effects of work that starts on an empty queue find their places if those it queues do. -/
theorem findsPlaces_queueing {d : Document} {effects : List Effect}
    (h : d.FindsPlaces effects) :
    (host.queueing d effects).document.FindsPlaces (host.queueing d effects).pending := by
  simpa [Host.queueing, hh.pending] using h

theorem findsPlaces_insertBlocks (hp : Places host.document insert)
    (h : (insertBlocks setting insert blocks).runOn host = (.ok (), mid)) :
    mid.document.FindsPlaces mid.pending := by
  rw [insertBlocks_eq_insertEach] at h
  cases hp with
  | beside side hl =>
    obtain ⟨items, _, rfl⟩ := (insertEach_eq_ok queueBlockStyle_eq_ok hh.isOpen).1 h
    exact findsPlaces_queueing hh (findsPlaces_chain (hh.wellFormed.makeAll _) (by simpa using hl)
      (awaits_makeAll _ items))
  | inBody edge =>
    obtain ⟨items, _, rfl⟩ := insertEach_inBody_eq_ok queueBlockStyle_eq_ok hh.isOpen h
    exact findsPlaces_queueing hh (findsPlaces_bodyChain (hh.wellFormed.makeAll _)
      (awaits_makeAll _ items))

/-- What an insertion queues finds every place that it works at. -/
theorem findsPlaces_insertText {location : InsertLocation} {heading position : Json}
    (h : (insertText setting anchor location heading position blocks).runOn host =
      (.ok (), mid)) : mid.document.FindsPlaces mid.pending := by
  obtain ⟨insert, left, hfound, hblocks⟩ := bind_eq_ok.1 h
  obtain ⟨rfl, hplaces⟩ := places_of_insertionPoint hh hfound
  exact findsPlaces_insertBlocks hh hplaces hblocks

/-- What a replacement queues finds every place that it works at. -/
theorem findsPlaces_replaceSection
    (h : (replaceSection setting anchor blocks).runOn host = (.ok (), mid)) :
    mid.document.FindsPlaces mid.pending := by
  by_cases hdefault : anchor = setting.rules.defaultAnchor
  · rw [replaceSection, if_pos hdefault, runOn_bind, Host.runOn_queue,
      insertBlocks_eq_insertEach] at h
    obtain ⟨items, _, rfl⟩ :=
      insertEach_inBody_eq_ok queueBlockStyle_eq_ok (by exact hh.isOpen) h
    have hpending : host.pending ++ [Effect.clearBody] = [.clearBody] := by simp [hh.pending]
    have hfinds : (host.document.makeAll (items.map Prod.fst)).FindsPlaces
        (.clearBody :: bodyChain .start
          (insertions host.document.styles host.document.nextHandle items)) :=
      findsPlaces_clearBody (hh.wellFormed.makeAll _) (awaits_makeAll _ items)
    simpa [Host.queueing, hpending] using hfinds
  · obtain ⟨first, others, hrange, items, _, rfl⟩ := (replaceSection_eq_ok hh hdefault).1 h
    have hsub := range?_sublist hh.wellFormed hrange
    exact findsPlaces_queueing hh (findsPlaces_replacement (hh.wellFormed.makeAll _)
      (hh.wellFormed.nodup_listed.sublist hsub) (by simpa using hsub.subset)
      (awaits_makeAll _ items))

end Execution

/-! ## Resolved ranges -/

namespace Anchor

/-- Whatever an anchor resolves to, unless it is a selection, and whatever the section of a
paragraph is, it is a range of paragraphs that are all in their place: paragraphs of the document,
in its order and each of them once, in the body and not inside another paragraph.  But for content
controls the paragraphs are consecutive.  So the effects that a replacement or an insertion queues
at such a range find the paragraph that they clear down to, insert beside or delete in its place,
each of them when its turn comes. -/
theorem resolved_ranges_live (hd : host.document.WellFormed) :
    (∀ rules anchor found after, (resolve rules anchor).runOn host = (.ok found, after) →
      (found.strategy = .default → Host.selection.runOn host = (.ok none, host)) →
      host.document.Live found.range ∧
        (found.strategy ≠ .marker → found.range <:+: host.document.body.listed)) ∧
    (host.Answers → ∀ rules, ∀ p ∈ host.document.passages, ∃ range,
      (sectionRange rules p.handle).runOn host = (.ok range, host) ∧
        host.document.Live range ∧ range <:+: host.document.body.listed) ∧
    (host.Ready → ∀ setting anchor blocks mid,
      ((Execution.replaceSection setting anchor blocks).runOn host = (.ok (), mid) ∨
        ∃ location heading position,
          (Execution.insertText setting anchor location heading position blocks).runOn host =
            (.ok (), mid)) →
      mid.document.FindsPlaces mid.pending) := by
  refine ⟨?_, ?_, ?_⟩
  · intro rules anchor found after hrun hdefault
    obtain ⟨rfl, hfound⟩ := (reads_resolve hd).of_run hrun
    obtain ⟨hordered, hconsecutive⟩ := hfound hdefault
    exact ⟨hd.live hordered, hconsecutive⟩
  · intro ha rules p hp
    have hinfix : headingSection rules host.document.passages p <:+: host.document.body.listed :=
      headingSection_isInfix hp
    exact ⟨_, ha.sectionRange hd.nodup_listed hp, hd.live hinfix.sublist, hinfix⟩
  · rintro hh setting anchor blocks mid (hreplace | ⟨location, heading, position, hinsert⟩)
    · exact Execution.findsPlaces_replaceSection hh hreplace
    · exact Execution.findsPlaces_insertText hh hinsert

/-- A heading with a text box, in which a bookmark opens; a content control that holds two
paragraphs and between them a table; a bookmark that ends in the first of the two and opens in the
other one; and a bookmark without an end in the cell of the table. -/
def tangled : Document where
  body := .cons (.paragraph ⟨0⟩ "Heading 1" none)
      (.single (.run "Aims" {}) (.single .box (.single (.paragraph ⟨1⟩ "Normal" none)
        (.single (.bookmarkStart "boxed" "3") .nil))))
    (.cons (.control ⟨2⟩ (some { tag := some "part" }))
      (.cons (.paragraph ⟨3⟩ "Normal" none)
          (.cons (.bookmarkEnd "1") .nil (.single (.run "first" {}) .nil))
        (.cons .table (.single .row (.single .cell (.single (.paragraph ⟨4⟩ "Normal" none)
            (.single (.bookmarkStart "open" "2") .nil))))
          (.single (.paragraph ⟨5⟩ "Normal" none)
            (.cons (.bookmarkStart "back" "1") .nil (.single (.run "last" {}) .nil)))))
      (.single (.paragraph ⟨6⟩ "Heading 1" none) (.single (.run "Omega" {}) .nil)))
  nextHandle := 7

/-- A host of this document. -/
def tangledHost : Host := .ofDocument tangled

theorem resolved_ranges_live_tangled :
    tangled.WellFormed ∧
    (∃ found, (resolve .standard "part").runOn tangledHost = (.ok found, tangledHost) ∧
      found.range = [⟨3⟩, ⟨5⟩] ∧ tangled.Live found.range) ∧
    (∃ found, (resolve .standard "back").runOn tangledHost = (.ok found, tangledHost) ∧
      found.range = [⟨5⟩] ∧ tangled.Live found.range) ∧
    (∃ found, (resolve .standard "boxed").runOn tangledHost = (.ok found, tangledHost) ∧
      found.range = [] ∧ tangled.Live found.range) ∧
    (∃ found, (resolve .standard Rules.standard.defaultAnchor).runOn tangledHost =
        (.ok found, tangledHost) ∧
      Host.selection.runOn tangledHost = (.ok none, tangledHost) ∧
      found.range = [⟨0⟩, ⟨3⟩, ⟨4⟩, ⟨5⟩, ⟨6⟩] ∧ tangled.Live found.range) ∧
    (∃ range, (sectionRange .standard ⟨0⟩).runOn tangledHost = (.ok range, tangledHost) ∧
      tangled.Live range ∧ range <:+: tangled.body.listed) ∧
    ∃ mid, (Execution.replaceSection ⟨.standard, fun _ _ => .zero⟩ "part"
        [.paragraph "new" none]).runOn tangledHost = (.ok (), mid) ∧
      mid.pending.map Effect.place? = [some ⟨3⟩, some ⟨3⟩, none, some ⟨3⟩] ∧
      mid.document.FindsPlaces mid.pending := by
  have hd : tangledHost.document.WellFormed := by decide
  have ha : tangledHost.Answers := ⟨rfl, rfl⟩
  obtain ⟨hresolve, hsection, hwork⟩ := resolved_ranges_live hd
  have hpart : (resolve .standard "part").runOn tangledHost =
      (.ok ⟨.marker, [⟨3⟩, ⟨5⟩], none⟩, tangledHost) := by rfl
  have hback : (resolve .standard "back").runOn tangledHost =
      (.ok ⟨.bookmark, [⟨5⟩], none⟩, tangledHost) := by rfl
  have hboxed : (resolve .standard "boxed").runOn tangledHost =
      (.ok ⟨.bookmark, [], none⟩, tangledHost) := by rfl
  have hbody : (resolve .standard Rules.standard.defaultAnchor).runOn tangledHost =
      (.ok ⟨.default, [⟨0⟩, ⟨3⟩, ⟨4⟩, ⟨5⟩, ⟨6⟩], none⟩, tangledHost) := by rfl
  have hnone : Host.selection.runOn tangledHost = (.ok none, tangledHost) := rfl
  have hheading : (⟨0, "Aims", "Heading 1", ⟨0⟩⟩ : Passage) ∈ tangled.passages := by decide
  obtain ⟨mid, hmid, hplaces⟩ : ∃ mid, (Execution.replaceSection ⟨.standard, fun _ _ => .zero⟩
      "part" [.paragraph "new" none]).runOn tangledHost = (.ok (), mid) ∧
        mid.pending.map Effect.place? = [some ⟨3⟩, some ⟨3⟩, none, some ⟨3⟩] :=
    ⟨_, rfl, by decide⟩
  exact ⟨hd, ⟨_, hpart, rfl, (hresolve _ _ _ _ hpart nofun).1⟩,
    ⟨_, hback, rfl, (hresolve _ _ _ _ hback nofun).1⟩,
    ⟨_, hboxed, rfl, (hresolve _ _ _ _ hboxed nofun).1⟩,
    ⟨_, hbody, hnone, rfl, (hresolve _ _ _ _ hbody fun _ => hnone).1⟩,
    hsection ha .standard ⟨0, "Aims", "Heading 1", ⟨0⟩⟩ hheading, mid, hmid, hplaces,
    hwork ⟨ha, rfl, hd⟩ _ _ _ _ (.inl hmid)⟩

end Anchor

end Redline
