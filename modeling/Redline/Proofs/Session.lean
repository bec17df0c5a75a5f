import Redline.Document.Saving
import Redline.Proofs.Anchor.Range
import Redline.Proofs.Document.Sparing
import Redline.Proofs.Execution.Insertion
import Redline.Proofs.Stopping

/-!
# Sessions with a host

Whoever works on a host asks for handles and asks for changes at the handles that he has got.  Calls
may fail, and so may flushes.  However many calls are made in such a session, no cell loses its last
paragraph if the rule for cells protects it.

## Main definitions

* `Call`, `Call.perform` — the calls of a host, and the handles that they hand out.
* `Call.Known` — a call with handles that have been handed out.
* `Session` — a host and the handles that have been handed out.
* `Session.Follows` — calls each of which is made with handles that those before it have handed out.
* `Session.Sound` — what every call of a session keeps.
-/

namespace Redline

open Editing Document Forest

variable {α β : Type} {host : Host} {register : List (Handle × Role)} {h : Handle}

/-! ## Calls -/

/-- A call of a host. -/
inductive Call where
  | paragraphs
  | markers
  | markerRange (control : Handle)
  | bookmarks
  | bookmarkRange (bookmark : Bookmark)
  | selection
  | search (pattern : Text.Pattern)
  | expandRange (start stop : List Handle)
  | insertParagraph (text : String) (anchor : Handle) (side : Side)
  | insertParagraphInBody (text : String) (edge : Edge)
  | clearRange (range : List Handle)
  | wrap (range : List Handle) (tag : String)
  /-- Queues an effect for which nothing has to be made. -/
  | queue (effect : Effect)
  | select (range : Option (List Handle))
  | discard
  | flush
  | close

namespace Call

/-- Handles that lead to paragraphs. -/
def asParagraphs (handles : List Handle) : List (Handle × Role) := handles.map (·, .paragraph)

/-- Makes a call; returns the handles that it hands out. -/
def perform : Call → Editing (List (Handle × Role))
  | .paragraphs => (fun passages => asParagraphs (passages.map (·.handle))) <$> Host.paragraphs
  | .markers => (·.map fun marker => (marker.handle, .control)) <$> Host.markers
  | .markerRange control => asParagraphs <$> Host.markerRange control
  | .bookmarks => (fun _ => []) <$> Host.bookmarks
  | .bookmarkRange bookmark => asParagraphs <$> Host.bookmarkRange bookmark
  | .selection => (fun range => asParagraphs (range.getD [])) <$> Host.selection
  | .search pattern => (fun found => asParagraphs (found.map (·.paragraph))) <$> Host.search pattern
  | .expandRange start stop => asParagraphs <$> Host.expandRange start stop
  | .insertParagraph text anchor side =>
    (fun h => [(h, .paragraph)]) <$> Host.insertParagraph text anchor side
  | .insertParagraphInBody text edge =>
    (fun h => [(h, .paragraph)]) <$> Host.insertParagraphInBody text edge
  | .clearRange range => (fun h => [(h, .paragraph)]) <$> Host.clearRange range
  | .wrap range tag => (fun h => [(h, .control)]) <$> Host.wrap range tag
  | .queue effect => (fun _ => []) <$> Host.queue effect
  | .select range => (fun _ => []) <$> Host.select range
  | .discard => (fun _ => []) <$> Host.discard
  | .flush => (fun _ => []) <$> Host.flush
  | .close => (fun _ => []) <$> Host.close

/-- The handles that a call is made with have been handed out. -/
def Known (handed : List (Handle × Role)) : Call → Prop
  | .markerRange control => (control, .control) ∈ handed
  | .expandRange start stop => ∀ h ∈ start ++ stop, (h, .paragraph) ∈ handed
  | .insertParagraph _ anchor _ => (anchor, .paragraph) ∈ handed ∨ (anchor, .control) ∈ handed
  | .clearRange range | .wrap range _ => ∀ h ∈ range, (h, .paragraph) ∈ handed
  | .queue effect => effect.makes = [] ∧ effect.Fits handed
  | .select range => ∀ h ∈ range.getD [], (h, .paragraph) ∈ handed
  | _ => True

instance (handed : List (Handle × Role)) : (c : Call) → Decidable (c.Known handed)
  | .markerRange _ => inferInstanceAs (Decidable (_ ∈ handed))
  | .expandRange .. | .clearRange _ | .wrap .. | .select _ =>
    inferInstanceAs (Decidable (∀ h ∈ _, (h, Role.paragraph) ∈ handed))
  | .insertParagraph .. => inferInstanceAs (Decidable (_ ∨ _))
  | .queue _ => inferInstanceAs (Decidable (_ ∧ _))
  | .paragraphs | .markers | .bookmarks | .bookmarkRange _ | .selection | .search _
  | .insertParagraphInBody .. | .discard | .flush | .close => inferInstanceAs (Decidable True)

/-- The paragraphs that a call asks to be taken out. -/
def removes : Call → List Handle
  | .clearRange range => range.tail
  | .queue effect => effect.removes
  | _ => []

end Call

/-- A host and the handles that have been handed out. -/
structure Session where
  host : Host
  handed : List (Handle × Role) := []

namespace Session

/-- Makes a call.  One that fails hands nothing out. -/
def call (s : Session) (c : Call) : Session :=
  match c.perform.runOn s.host with
  | (.ok handed, host) => ⟨host, s.handed ++ handed⟩
  | (.error _, host) => ⟨host, s.handed⟩

/-- Makes calls one after the other. -/
def calls (s : Session) (l : List Call) : Session := l.foldl call s

/-- Every call is made with handles that have been handed out by then. -/
def Follows (s : Session) : List Call → Prop
  | [] => True
  | c :: rest => c.Known s.handed ∧ (s.call c).Follows rest

instance decidableFollows (s : Session) : (l : List Call) → Decidable (s.Follows l)
  | [] => inferInstanceAs (Decidable True)
  | c :: rest =>
    have := decidableFollows (s.call c) rest
    inferInstanceAs (Decidable (c.Known s.handed ∧ (s.call c).Follows rest))

end Session

/-! ## Queries -/

/-- The work leaves the host as it is, and what it returns has a property. -/
def Editing.Reads (host : Host) (post : α → Prop) (work : Editing α) : Prop :=
  (work.runOn host).2 = host ∧ ∀ a, (work.runOn host).1 = .ok a → post a

namespace Editing.Reads

variable {post post' : α → Prop} {work : Editing α}

theorem pure {a : α} (ha : post a) : Reads host post (pure a) :=
  ⟨rfl, fun _ hb => Except.ok.inj hb ▸ ha⟩

theorem fault (f : Fault) : Reads host post (Editing.fault f) :=
  ⟨rfl, fun _ ha => by cases ha⟩

theorem get : Reads host (· = host) get := ⟨rfl, fun _ ha => (Except.ok.inj ha).symm⟩

theorem bind {after : β → Prop} {next : α → Editing β} (hw : Reads host post work)
    (hn : ∀ a, post a → Reads host after (next a)) : Reads host after (work >>= next) := by
  obtain ⟨hhost, hpost⟩ := hw
  rw [Reads, runOn_bind]
  rcases hrun : work.runOn host with ⟨mishap | a, mid⟩
  · rw [hrun] at hhost
    exact ⟨hhost, fun _ ha => by cases ha⟩
  · rw [hrun] at hhost hpost
    obtain rfl : mid = host := hhost
    exact hn a (hpost a rfl)

theorem map {after : β → Prop} {f : α → β} (hw : Reads host post work)
    (hf : ∀ a, post a → after (f a)) : Reads host after (f <$> work) := by
  rw [map_eq_pure_bind]
  exact hw.bind fun a ha => .pure (hf a ha)

end Editing.Reads

namespace Host

theorem reads_check (query : Query) : Reads host (fun _ => True) (check query) := by
  refine .bind .get fun _ _ => ?_
  split
  · exact .fault _
  · exact .pure trivial

theorem reads_openDocument : Reads host (· = host.document) openDocument := by
  refine .bind .get fun _ h => ?_
  split
  · exact .pure (h ▸ rfl)
  · exact .fault _

theorem reads_ask (query : Query) (view : Document → α) :
    Reads host (· = view host.document) (ask query view) :=
  (reads_check query).bind fun _ _ => reads_openDocument.bind fun _ h => .pure (h ▸ rfl)

theorem reads_markerRange (control : Handle) :
    Reads host (· = (host.document.inside control).ownParagraphs) (markerRange control) :=
  (reads_check _).bind fun _ _ => .bind .get fun _ h => .pure (h ▸ rfl)

theorem reads_selection :
    Reads host (fun range => range.getD [] ⊆ host.selected.getD []) selection := by
  refine (reads_check _).bind fun _ _ => .bind .get fun _ hh => ?_
  subst hh
  split
  · exact .pure (List.nil_subset _)
  · exact .pure (List.nil_subset _)
  · next handles _ hs =>
    refine reads_openDocument.bind fun d _ => .pure ?_
    rw [hs]
    split
    · exact List.nil_subset _
    · exact fun _ hh => List.mem_of_mem_filter hh

theorem reads_bodyRange : Reads host (· = host.document.body.listed) bodyRange :=
  (reads_ask _ _).bind fun _ hp => .pure (hp ▸ map_handle_passages host.document)

theorem reads_indexOf (h : Handle) : Reads host (fun _ => True) (indexOf h) := by
  refine (reads_ask _ _).bind fun passages _ => ?_
  split
  · exact .pure trivial
  · exact .fault _

theorem reads_expandRange (start stop : List Handle) :
    Reads host (· ⊆ (start ++ stop) ++ host.document.body.listed) (expandRange start stop) := by
  rw [expandRange]
  split
  · exact .pure (by simp)
  · exact .pure (by simp)
  · refine reads_bodyRange.bind fun handles hh => ?_
    refine (reads_indexOf _).bind fun i _ => (reads_indexOf _).bind fun j _ => .pure ?_
    rw [hh]
    have hpart : slice host.document.body.listed (min i j) (max i j) ⊆ host.document.body.listed :=
      (slice_isInfix _ _ _).subset
    exact fun _ hx => List.mem_append_right _ (hpart hx)

/-- A paragraph is made unless its text is refused or the host is closed. -/
theorem makeParagraph_cases (text : String) (host : Host) :
    (makeParagraph text).runOn host =
        (.ok ⟨host.document.nextHandle⟩, { host with document := host.document.make text }) ∨
      ∃ mishap, (makeParagraph text).runOn host = (.error mishap, host) := by
  simp only [makeParagraph, runOn_bind, runOn_get]
  split
  · exact .inr ⟨_, rfl⟩
  · split
    · exact .inr ⟨_, rfl⟩
    · exact .inl rfl

/-- A content control is made and queued for a range unless its tag is refused. -/
theorem wrap_cases (first : Handle) (others : List Handle) (tag : String) (host : Host) :
    (wrap (first :: others) tag).runOn host =
        (.ok ⟨host.document.nextHandle⟩, host.queueing
          (host.document.withPart
            (single (.control ⟨host.document.nextHandle⟩ (some { tag := some tag })) .nil))
          [.wrap ⟨host.document.nextHandle⟩ first others tag]) ∨
      ∃ mishap, (wrap (first :: others) tag).runOn host = (.error mishap, host) := by
  simp only [wrap]
  split
  · exact .inr ⟨_, rfl⟩
  · exact .inl rfl

end Host

/-! ## Where handles lead -/

theorem Forest.mem_roles_of_mem_markers {f : Forest} {m : Marker} (hm : m ∈ f.markers) :
    (m.handle, .control) ∈ f.roles := by
  induction f with
  | nil => cases hm
  | cons e inside rest _ ih =>
    rw [show Forest.cons e inside rest = single e inside ++ rest from rfl, roles_append,
      List.mem_append]
    cases e with
    | control k properties =>
      rcases List.mem_cons.1 hm with rfl | hm
      · exact .inl (by simp [single, Forest.roles, Element.handle?])
      · exact .inr (ih hm)
    | _ => exact .inr (ih hm)

theorem Document.mem_listed_of_mem_search {d : Document} {pattern : Text.Pattern} {m : Match}
    (hm : m ∈ d.search pattern) : m.paragraph ∈ d.body.listed := by
  obtain ⟨p, hp, hm⟩ := List.mem_flatMap.1 hm
  obtain ⟨span, _, rfl⟩ := List.mem_map.1 hm
  exact List.mem_map_of_mem hp

/-! ## What a session keeps -/

namespace Session

/-- The handles that have been handed out lead to paragraphs and content controls, and so do those of
the effects that wait.  Since the body was the given one, nothing but the given paragraphs has been
taken out of cells, and no last paragraph that the rule for cells protects. -/
structure Sound (register : List (Handle × Role)) (gone : List Handle) (was : Forest)
    (s : Session) : Prop where
  consistent : Consistent register
  given : ∀ h role, (h, role) ∈ register → h.number < s.host.document.nextHandle
  wellFormed : s.host.document.WellFormed
  roles : s.host.document.roles ⊆ register
  handed : s.handed ⊆ register
  selected : ∀ h ∈ s.host.selected.getD [], (h, .paragraph) ∈ register
  queued : Document.Queued register s.host.pending s.host.document
  removes : s.host.pending.flatMap Effect.removes ⊆ gone
  spares : was.Spares gone s.host.document.body

variable {s : Session} {c : Call} {gone : List Handle} {was : Forest} {handles : List Handle}

theorem call_of_silent {work : Editing α} (hw : c.perform = (fun _ => []) <$> work) :
    s.call c = ⟨(work.runOn s.host).2, s.handed⟩ := by
  rw [call, hw, runOn_map]
  rcases work.runOn s.host with ⟨_ | a, host⟩ <;> simp

theorem asParagraphs_subset :
    Call.asParagraphs handles ⊆ register ↔ ∀ h ∈ handles, (h, .paragraph) ∈ register := by
  simp [Call.asParagraphs, List.subset_def]

namespace Sound

/-! ### Queries -/

section
variable (hs : Sound register gone was s)
include hs

theorem of_reads (hr : Reads s.host (· ⊆ register) c.perform) :
    Sound register gone was (s.call c) := by
  obtain ⟨hhost, hpost⟩ := hr
  rw [call]
  rcases hrun : c.perform.runOn s.host with ⟨mishap | l, host⟩
  · rw [hrun] at hhost
    obtain rfl : host = s.host := hhost
    exact hs
  · rw [hrun] at hhost hpost
    obtain rfl : host = s.host := hhost
    exact { hs with handed := List.append_subset.2 ⟨hs.handed, hpost l rfl⟩ }

theorem role_of_listed (hl : h ∈ s.host.document.body.listed) : (h, .paragraph) ∈ register :=
  roles_body_subset hs.roles (mem_roles_of_listed hl)

/-- What stands directly in a content control are paragraphs, wherever the control stands. -/
theorem role_of_inside {control : Handle} (hr : (control, .control) ∈ register)
    (hh : h ∈ (s.host.document.inside control).ownParagraphs) : (h, .paragraph) ∈ register := by
  cases ht : s.host.document.tree? control with
  | none =>
    rw [Document.inside, ht] at hh
    cases hh
  | some tree =>
    -- The control may have been taken out, so the roles are those of the tree it is found in.
    have hroles := Document.roles_tree?_subset hs.consistent hs.roles (by simp) hr ht
    have hfound := ht
    rw [tree?_eq_findSome?] at hfound
    obtain ⟨f, _, hf⟩ := List.exists_of_findSome?_eq_some hfound
    obtain ⟨e, inside, rfl, he⟩ := exists_of_tree? hf
    have hother := isParagraph_of_control_role hs.consistent hroles he hr
    rw [Document.inside, ht, ownParagraphs_eq] at hh
    have hlisted : h ∈ inside.listed := ((own_sublist_paragraphs inside).map _).subset hh
    exact roles_inside_subset hother hroles (mem_roles_of_listed hlisted)

/-! ### Changes -/

/-- An effect is queued for which nothing has been made. -/
theorem queue {e : Effect} (hm : e.makes = []) (he : e.Fits register) (hg : e.removes ⊆ gone) :
    Sound register gone was ⟨{ s.host with pending := s.host.pending ++ [e] }, s.handed⟩ :=
  { hs with
    queued := hs.queued.concat he (by simp [hm]) (by simp [hm])
    removes := by
      rw [List.flatMap_append, List.append_subset]
      exact ⟨hs.removes, by simpa using hg⟩ }

/-- A part is made with the next handle, and the effect is queued that puts it in. -/
theorem make {e : Element} {content : Forest} {role : Role} {effect : Effect}
    (he : e.has ⟨s.host.document.nextHandle⟩ = true)
    (hroles : (single e content).roles = [(⟨s.host.document.nextHandle⟩, role)])
    (hcontent : content.handles = []) (hcells : content.everyCell = [])
    (hread : (single e content).OfKind Text.isAllowed)
    (hm : effect.makes = [⟨s.host.document.nextHandle⟩])
    (hfits : effect.Fits (register ++ [(⟨s.host.document.nextHandle⟩, role)]))
    (hremoves : effect.removes = []) :
    Sound (register ++ [(⟨s.host.document.nextHandle⟩, role)]) gone was
      ⟨s.host.queueing (s.host.document.withPart (single e content)) [effect],
        s.handed ++ [(⟨s.host.document.nextHandle⟩, role)]⟩ where
  consistent := hs.consistent.concat (fun _ hr => Nat.lt_irrefl _ (hs.given _ _ hr)) role
  given h role' hr := by
    rw [List.mem_append, List.mem_singleton] at hr
    rcases hr with hr | hr
    · exact (hs.given h _ hr).trans (Nat.lt_succ_self _)
    · obtain ⟨rfl, -⟩ := Prod.mk.inj hr
      exact Nat.lt_succ_self _
  wellFormed := by
    refine hs.wellFormed.withPart ?_ hread
    simp [Element.has_iff.1 he, hcontent]
  roles := by
    change ({ s.host.document with
      loose := s.host.document.loose ++ [⟨true, single e content⟩] } : Document).roles ⊆ _
    rw [roles_append_loose]
    refine List.append_subset.2 ⟨List.subset_append_of_subset_left _ hs.roles, ?_⟩
    simp [hroles]
  handed := List.append_subset.2 ⟨List.subset_append_of_subset_left _ hs.handed,
    List.subset_append_right _ _⟩
  selected h hh := List.mem_append_left _ (hs.selected h hh)
  queued := by
    have hold : Document.Queued (register ++ [(⟨s.host.document.nextHandle⟩, role)]) s.host.pending
        (s.host.document.withPart (single e content)) :=
      hs.queued.mono (List.subset_append_left _ _) fun new hnew => hnew.append_loose
    refine hold.concat hfits (by simp [hm]) fun new hnew => ?_
    rw [hm, List.mem_singleton] at hnew
    subst hnew
    -- What waits to be put in has been made before, with a handle below the next one.
    refine ⟨⟨e, content, by simp [withPart], he, hcontent, hcells⟩, fun hwaits => ?_⟩
    exact Nat.lt_irrefl _ (hs.wellFormed.given _ (hs.queued.fresh _ hwaits).mem_handles)
  removes := by simpa [Host.queueing, hremoves] using hs.removes
  spares := hs.spares

/-! ### Flushes -/

theorem flush : Sound register gone was ⟨(Host.flush.runOn s.host).2, s.handed⟩ := by
  rw [Host.flush_leaves]
  have hpasses : Passes register gone (s.host.pending.flatMap Effect.makes) s.host.document
      (s.host.document.applyAll (Host.step s.host.isOpen) s.host.pending).document :=
    passes_applyAll hs.consistent hs.wellFormed hs.roles hs.queued hs.removes
  exact { hs with
    given := by simpa [nextHandle_applyAll] using hs.given
    wellFormed := hpasses.wellFormed
    roles := hpasses.roles
    queued := .nil register _
    removes := List.nil_subset _
    spares := hs.spares.trans hpasses.spares }

/-! ### Every call -/

/-- Inserting a paragraph, at whatever place. -/
theorem insert {text : String} {effect : Handle → Effect}
    (hw : c.perform = (fun h => [(h, .paragraph)]) <$> do
      let h ← Host.makeParagraph text
      Host.queue (effect h)
      Pure.pure h)
    (hm : ∀ h, (effect h).makes = [h]) (hr : ∀ h, (effect h).removes = [])
    (hfits : ∀ h, (effect h).Fits (register ++ [(h, .paragraph)])) :
    ∃ register', Sound register' gone was (s.call c) := by
  rw [Session.call, hw, runOn_map, runOn_bind]
  rcases Host.makeParagraph_cases text s.host with hrun | ⟨mishap, hrun⟩
  · rw [hrun]
    have hcontent : (made s.host.document.styles s.host.document.nextHandle
        text).content.handles = [] := by
      simpa using @handles_made s.host.document.styles s.host.document.nextHandle text
    refine ⟨_, hs.make
      (e := .paragraph ⟨s.host.document.nextHandle⟩ s.host.document.styles.defaultName none)
      (Element.has_iff.2 rfl) ?_ hcontent ?_ (ofKind_made _ text) (hm _) (hfits _) (hr _)⟩
    · simp [single, Forest.roles, hcontent]
    · rw [made]
      split <;> simp
  · rw [hrun]
    exact ⟨register, hs⟩

/-- Every call keeps the session sound; those that make something add to what handles lead to. -/
theorem call (hk : c.Known s.handed) (hg : c.removes ⊆ gone) :
    ∃ register', Sound register' gone was (s.call c) := by
  cases c with
  | paragraphs =>
    refine ⟨register, hs.of_reads ((Host.reads_ask _ _).map fun passages hp => ?_)⟩
    rw [asParagraphs_subset, hp, map_handle_passages]
    exact fun h hl => hs.role_of_listed hl
  | markers =>
    refine ⟨register, hs.of_reads ((Host.reads_ask _ _).map fun markers hm x hx => ?_)⟩
    rw [hm] at hx
    obtain ⟨marker, hmarker, rfl⟩ := List.mem_map.1 hx
    exact roles_body_subset hs.roles (mem_roles_of_mem_markers hmarker)
  | markerRange control =>
    refine ⟨register, hs.of_reads ((Host.reads_markerRange control).map fun range hr => ?_)⟩
    rw [asParagraphs_subset, hr]
    exact fun h hh => hs.role_of_inside (hs.handed hk) hh
  | bookmarks =>
    exact ⟨register, hs.of_reads ((Host.reads_ask _ _).map fun _ _ => List.nil_subset _)⟩
  | bookmarkRange bookmark =>
    refine ⟨register, hs.of_reads ((Host.reads_ask _ _).map fun range hr => ?_)⟩
    rw [asParagraphs_subset, hr]
    exact fun h hh => hs.role_of_listed ((bookmarkRange_isInfix _ _).subset hh)
  | selection =>
    refine ⟨register, hs.of_reads (Host.reads_selection.map fun range hr => ?_)⟩
    rw [asParagraphs_subset]
    exact fun h hh => hs.selected h (hr hh)
  | search pattern =>
    refine ⟨register, hs.of_reads ((Host.reads_ask _ _).map fun found hf => ?_)⟩
    rw [asParagraphs_subset, hf]
    intro h hh
    obtain ⟨m, hm, rfl⟩ := List.mem_map.1 hh
    exact hs.role_of_listed (mem_listed_of_mem_search hm)
  | expandRange start stop =>
    refine ⟨register, hs.of_reads ((Host.reads_expandRange start stop).map fun range hr => ?_)⟩
    rw [asParagraphs_subset]
    intro h hh
    rcases List.mem_append.1 (hr hh) with hh | hh
    · exact hs.handed (hk h hh)
    · exact hs.role_of_listed hh
  | insertParagraph text anchor side =>
    refine hs.insert rfl (fun _ => rfl) (fun _ => rfl) fun h => ⟨by simp, ?_⟩
    exact hk.imp (fun hk => List.mem_append_left _ (hs.handed hk))
      fun hk => List.mem_append_left _ (hs.handed hk)
  | insertParagraphInBody text edge =>
    exact hs.insert rfl (fun _ => rfl) (fun _ => rfl) fun h => by simp [Effect.Fits]
  | clearRange range =>
    cases range with
    | nil => exact ⟨register, hs.of_reads (.map (.fault _) fun _ h => h)⟩
    | cons keep others =>
      have hfits : (Effect.clearRange keep others).Fits register := fun h hh => hs.handed (hk h hh)
      have hqueued := hs.queue rfl hfits hg
      refine ⟨register, { hqueued with handed := ?_ }⟩
      refine List.append_subset.2 ⟨hs.handed, ?_⟩
      simpa using hfits keep List.mem_cons_self
  | wrap range tag =>
    cases range with
    | nil => exact ⟨register, hs.of_reads (.map (.fault _) fun _ h => h)⟩
    | cons first others =>
      rw [Session.call, Call.perform, runOn_map]
      rcases Host.wrap_cases first others tag s.host with hrun | ⟨mishap, hrun⟩
      · rw [hrun]
        refine ⟨_, hs.make (Element.has_iff.2 rfl) rfl rfl rfl ?_ rfl ⟨by simp, ?_⟩ rfl⟩
        · simp [ofKind_single, Element.characters]
        · exact fun h hh => List.mem_append_left _ (hs.handed (hk h hh))
      · rw [hrun]
        exact ⟨register, hs⟩
  | queue effect =>
    rw [call_of_silent rfl]
    exact ⟨register, hs.queue hk.1 (hk.2.mono hs.handed) hg⟩
  | select range =>
    rw [call_of_silent rfl]
    exact ⟨register, { hs with selected := fun h hh => hs.handed (hk h hh) }⟩
  | discard =>
    rw [call_of_silent rfl]
    exact ⟨register, { hs with queued := .nil register _, removes := List.nil_subset _ }⟩
  | flush =>
    rw [call_of_silent rfl]
    exact ⟨register, hs.flush⟩
  | close =>
    rw [call_of_silent rfl]
    exact ⟨register, { hs with selected := fun h hh => by cases hh }⟩

end

/-- Every session stays sound. -/
theorem calls {l : List Call} (hs : Sound register gone was s) (hf : s.Follows l)
    (hg : l.flatMap Call.removes ⊆ gone) : ∃ register', Sound register' gone was (s.calls l) := by
  -- The register grows with each call; what is to be taken out is known from the start.
  induction l generalizing register s with
  | nil => exact ⟨register, hs⟩
  | cons c rest ih =>
    rw [List.flatMap_cons, List.append_subset] at hg
    obtain ⟨register', hcall⟩ := hs.call hf.1 hg.1
    exact ih hcall hf.2 hg.2

end Sound

/-! ## Cells -/

/-- A session that begins: no effect waits, nothing has been handed out, and what is selected are
paragraphs of the document. -/
structure Begins (s : Session) : Prop where
  wellFormed : s.host.document.WellFormed
  pending : s.host.pending = []
  handed : s.handed = []
  selected : s.host.selected.getD [] ⊆ s.host.document.body.listed

theorem Begins.sound (hb : s.Begins) (gone : List Handle) :
    Sound s.host.document.roles gone s.host.document.body s where
  consistent := consistent_of_nodup ((map_fst_roles s.host.document).symm ▸ hb.wellFormed.distinct)
  given h _ hr := hb.wellFormed.given h (map_fst_roles s.host.document ▸ List.mem_map_of_mem hr)
  wellFormed := hb.wellFormed
  roles := List.Subset.refl _
  handed := hb.handed ▸ List.nil_subset _
  selected _ hh := roles_body_subset (List.Subset.refl _) (mem_roles_of_listed (hb.selected hh))
  queued := hb.pending ▸ .nil _ _
  removes := hb.pending ▸ List.nil_subset _
  spares := .refl gone _

/-- A cell that held a paragraph holds one, unless no paragraph stood directly in it or directly in a
cell inside it, and all its paragraphs were to be taken out. -/
def StaysFilled (gone : List Handle) (before now : Forest) : Prop :=
  before.paragraphs ≠ [] → now.paragraphs ≠ [] ∨ ¬ before.Guarded ∧ ∀ h ∈ before.listed, h ∈ gone

/-- However a session goes, all cells of the body are there in the end and stay filled, or none is
left; and the cells in text boxes that are left hold the paragraphs that they held. -/
theorem cells_keep_paragraphs {l : List Call} (hb : s.Begins) (hf : s.Follows l) :
    ((s.calls l).host.document.body.cellInsides = [] ∨
      List.Forall₂ (StaysFilled (l.flatMap Call.removes)) s.host.document.body.cellInsides
        (s.calls l).host.document.body.cellInsides) ∧
    ∀ q ∈ (s.calls l).host.document.body.paragraphs, q.boxedCells = [] ∨
      ∃ p ∈ s.host.document.body.paragraphs, p.handle = q.handle ∧
        q.boxedCells.Sublist p.boxedCells := by
  obtain ⟨register, hsound⟩ := (hb.sound (l.flatMap Call.removes)).calls hf (List.Subset.refl _)
  constructor
  · refine hsound.spares.cells.imp_right fun hcells => hcells.imp fun before now hkept _ => ?_
    exact hkept.paragraphs_ne_nil
  · intro q hq
    exact (hsound.spares.boxes q hq).resolve_left (by simp)

/-- A table of one cell, in which two paragraphs stand. -/
def twoLines : Document where
  body := .single .table (.single .row (.single .cell
    (.cons (.paragraph ⟨0⟩ "Normal" none) (.runOf "first".toList)
      (.single (.paragraph ⟨1⟩ "Normal" none) (.runOf "second".toList)))))
  nextHandle := 2

/-- Both paragraphs of a cell are deleted, and the second one is left without its text. -/
theorem cells_keep_paragraphs_deleted :
    let s : Session := ⟨.ofDocument twoLines, []⟩
    let calls := [.paragraphs, .queue (.delete ⟨0⟩), .queue (.delete ⟨1⟩), .flush]
    s.Begins ∧ s.Follows calls ∧
      ∃ now, (s.calls calls).host.document.body.cellInsides = [now] ∧ now.paragraphs ≠ [] := by
  intro s calls
  have hb : s.Begins := ⟨by decide, rfl, rfl, List.nil_subset _⟩
  have hf : s.Follows calls := by decide
  refine ⟨hb, hf, ?_⟩
  obtain ⟨hcells, -⟩ := cells_keep_paragraphs hb hf
  have hone : (s.calls calls).host.document.body.cellInsides ≠ [] := by decide
  obtain ⟨now, rest, hfilled, hrest, hnow⟩ :=
    List.forall₂_cons_left_iff.1 (hcells.resolve_left hone)
  rw [List.forall₂_nil_left_iff.1 hrest] at hnow
  refine ⟨now, hnow, (hfilled (by decide)).resolve_right fun h => h.1 (by decide)⟩

/-- A table of one cell, in which a paragraph stands in a content control. -/
def controlledLine : Document where
  body := .single .table (.single .row (.single .cell
    (.single (.control ⟨0⟩ (some {})) (.single (.paragraph ⟨1⟩ "Normal" none)
      (.runOf "inside".toList)))))
  nextHandle := 2

/-- The only paragraph of a cell stands in a content control, and is deleted. -/
theorem controlled_cell_loses_paragraph :
    let s : Session := ⟨.ofDocument controlledLine, []⟩
    let calls := [.paragraphs, .queue (.delete ⟨1⟩), .flush]
    s.Begins ∧ s.Follows calls ∧
      ∃ before now, s.host.document.body.cellInsides = [before] ∧ before.paragraphs ≠ [] ∧
        (s.calls calls).host.document.body.cellInsides = [now] ∧ now.paragraphs = [] :=
  ⟨⟨by decide, rfl, rfl, List.nil_subset _⟩, by decide,
    _, _, rfl, by decide, rfl, by decide⟩

end Session

end Redline
