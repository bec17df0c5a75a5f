import Redline.Proofs.Execution.Positions
import Redline.Proofs.Execution.Stopping
import Redline.Proofs.Snapshot.RoundTrip

/-!
# Where blocks are inserted

An insertion puts the paragraphs of its blocks, one behind the other, at one place among the
paragraphs of the document, and whoever takes them out again gets the document as it was.  An
insertion at a position fails where there is no such position, and otherwise only because of a color
with too many digits or for want of a style.

## Main definitions

* `Forest.older` — a forest without the paragraphs that were made last.
* `Document.Inserts` — a document with a run of paragraphs at one place.
* `Execution.Aims` — the place that an insertion asks for.
-/

namespace Redline

open Editing Redline.Text

/-- How many of the paragraphs stand in front of what is put at an end of them. -/
def Edge.inFront (count : Nat) : Edge → Nat
  | .start => 0
  | .stop => count

/-- The location of an insertion at an end of what an anchor stands for. -/
def Edge.location : Edge → InsertLocation
  | .start => .start
  | .stop => .stop

/-- How many paragraphs stand in front of what is put beside the one with the given index. -/
def Side.inFront (index : Nat) : Side → Nat
  | .before => index
  | .after => index + 1

/-- A forest without the paragraphs whose handles have the given number or a higher one. -/
def Forest.older (number : Nat) (f : Forest) : Forest :=
  f.rewrite fun p => if p.handle.number < number then p.tree else .nil

/-- A document has got a run of paragraphs, behind as many as the given number, and without them it
is as it was. -/
structure Document.Inserts (d after : Document) (count : Nat) (news : List Paragraph) : Prop where
  paragraphs : after.paragraphs = d.paragraphs.take count ++ news ++ d.paragraphs.drop count
  older : after.body.older d.nextHandle = d.body

/-! ## Taking new paragraphs out -/

namespace Forest

variable {f : Forest} {number index : Nat} {news : List Paragraph} {anchor : Handle}

theorem older_self (h : ∀ p ∈ f.paragraphs, p.handle.number < number) : f.older number = f := by
  rw [older, rewrite_congr (s := Paragraph.tree), rewrite_self]
  intro p hp
  rw [if_pos (h p hp)]

theorem older_append (f g : Forest) (number : Nat) :
    (f ++ g).older number = f.older number ++ g.older number :=
  rewrite_append f g

theorem older_tree {p : Paragraph} (hp : p.handle.number < number) :
    p.tree.older number = p.tree := by
  rw [older, rewrite_tree, if_pos hp]

theorem older_join_tree (h : ∀ p ∈ news, number ≤ p.handle.number) :
    (join (news.map Paragraph.tree)).older number = .nil := by
  induction news with
  | nil => rfl
  | cons p rest ih =>
    obtain ⟨hp, hrest⟩ := List.forall_mem_cons.1 h
    rw [List.map_cons, join_cons, older_append, ih hrest, older, rewrite_tree, if_neg (by omega)]
    rfl

section
variable (hf : ∀ p ∈ f.paragraphs, p.handle.number < number)
  (hnews : ∀ p ∈ news, number ≤ p.handle.number)
include hf hnews

theorem older_atEdge (edge : Edge) :
    (atEdge edge (join (news.map Paragraph.tree)) f).older number = f := by
  cases edge with
  | start =>
    rw [atEdge, older_append, older_join_tree hnews, older_self hf]
    rfl
  | stop => rw [atEdge, older_append, older_join_tree hnews, older_self hf, append_nil]

theorem older_beside {p : Paragraph} (hp : p ∈ f.paragraphs) (side : Side) :
    (p.beside side news).older number = p.tree := by
  cases side with
  | before =>
    rw [Paragraph.beside, older_append, older_join_tree hnews, older_tree (hf p hp)]
    rfl
  | after =>
    rw [Paragraph.beside, older_append, older_join_tree hnews, older_tree (hf p hp), append_nil]

theorem older_rewriteAt_beside (side : Side) :
    (f.rewriteAt anchor (·.beside side news)).older number = f := by
  rw [older, rewriteAt, rewrite_rewrite, rewrite_congr (s := Paragraph.tree), rewrite_self]
  intro p hp
  split
  · exact older_beside hf hnews hp side
  · exact older_tree (hf p hp)

end

/-! ## Paragraphs in a row -/

theorem paragraphs_atEdge (edge : Edge) (f : Forest) (news : List Paragraph) :
    (atEdge edge (join (news.map Paragraph.tree)) f).paragraphs =
      f.paragraphs.take (edge.inFront f.paragraphs.length) ++ news ++
        f.paragraphs.drop (edge.inFront f.paragraphs.length) := by
  cases edge <;> simp [atEdge, Edge.inFront, paragraphs_join_tree]

/-- One paragraph of a row gives way to several. -/
theorem flatMap_ite_index {ps : List Paragraph} (hn : (ps.map (·.handle)).Nodup)
    (hat : (ps.map (·.handle))[index]? = some anchor) (image : Paragraph → List Paragraph) :
    ∃ p, ps[index]? = some p ∧
      (ps.flatMap fun p => if p.handle = anchor then image p else [p]) =
        ps.take index ++ image p ++ ps.drop (index + 1) := by
  induction ps generalizing index with
  | nil => cases hat
  | cons p rest ih =>
    rw [List.map_cons, List.nodup_cons] at hn
    cases index with
    | zero =>
      obtain rfl : p.handle = anchor := Option.some.inj hat
      have hothers : (rest.flatMap fun q => if q.handle = p.handle then image q else [q]) =
          rest := by
        have hkeep : ∀ q ∈ rest, (if q.handle = p.handle then image q else [q]) = [q] := by
          intro q hq
          exact if_neg fun he : q.handle = p.handle => hn.1 (he ▸ List.mem_map_of_mem hq)
        rw [List.flatMap_congr hkeep, List.flatMap_singleton']
      exact ⟨p, rfl, by rw [List.flatMap_cons, if_pos rfl, hothers]; rfl⟩
    | succ index =>
      have hmem : anchor ∈ rest.map (·.handle) := List.mem_of_getElem? hat
      have hne : p.handle ≠ anchor := fun he => hn.1 (he ▸ hmem)
      obtain ⟨q, hq, hrest⟩ := ih hn.2 hat
      exact ⟨q, hq, by rw [List.flatMap_cons, if_neg hne, hrest]; rfl⟩

theorem paragraphs_rewriteAt_beside (hn : f.listed.Nodup) (hat : f.listed[index]? = some anchor)
    (side : Side) (news : List Paragraph) :
    (f.rewriteAt anchor (·.beside side news)).paragraphs =
      f.paragraphs.take (side.inFront index) ++ news ++
        f.paragraphs.drop (side.inFront index) := by
  obtain ⟨p, hp, hflat⟩ := flatMap_ite_index hn hat fun p => (p.beside side news).paragraphs
  rw [paragraphs_rewriteAt, hflat]
  cases side with
  | before =>
    obtain ⟨hlt, hget⟩ := List.getElem?_eq_some_iff.1 hp
    rw [Side.inFront, List.drop_eq_getElem_cons hlt, hget]
    simp [Paragraph.beside, paragraphs_join_tree]
  | after =>
    rw [Side.inFront, List.take_add_one, hp]
    simp [Paragraph.beside, paragraphs_join_tree]

end Forest

/-! ## Inserting blocks at a place -/

theorem Document.WellFormed.number_lt {d : Document} (hd : d.WellFormed) :
    ∀ p ∈ d.body.paragraphs, p.handle.number < d.nextHandle := fun _ hp =>
  hd.given _ (Document.mem_handles_of_mem_body (Forest.mem_handles_of_mem_paragraphs hp))

theorem Block.le_number_toParagraphs (sheet : Stylesheet) (n : Nat) (blocks : List Block) :
    ∀ p ∈ toParagraphs sheet n blocks, n ≤ p.handle.number := by
  intro p hp
  obtain ⟨e, he, rfl⟩ := List.mem_map.1 hp
  exact List.le_snd_of_mem_zipIdx he

namespace Execution

variable {scorer : Heading.Scorer} {setting : Setting} {host mid after : Host} {anchor : String}
  {location : InsertLocation} {heading position : Json} {insert : String → Editing Handle}
  {blocks : List Block} {count made : Nat}

/-- A way of inserting puts its paragraph behind as many as the given number. -/
inductive Reaches (d : Document) : (String → Editing Handle) → Nat → Prop
  | inBody (edge : Edge) :
      Reaches d (fun text => Host.insertParagraphInBody text edge)
        (edge.inFront d.paragraphs.length)
  | beside (side : Side) {h : Handle} {index : Nat} : d.body.listed[index]? = some h →
      Reaches d (fun text => Host.insertParagraph text h side) (side.inFront index)

theorem Reaches.places {d : Document} (h : Reaches d insert count) : Places d insert := by
  cases h with
  | inBody edge => exact .inBody edge
  | beside side hat => exact .beside side (List.mem_of_getElem? hat)

/-- Blocks that have been inserted are of styles that the document knows, and stand where they were
put, one behind the other. -/
theorem Reaches.inserts (hh : host.Ready) (hr : Reaches host.document insert count)
    (hrun : (insertBlocks ⟨.standard, scorer⟩ insert blocks).runOn host = (.ok (), mid))
    (hflush : Host.flush.runOn mid = (.ok made, after)) :
    host.document.styles.KnowsBlocks .standard blocks ∧
      host.document.Inserts after.document count
        (Block.toParagraphs host.document.styles host.document.nextHandle blocks) := by
  have hold := hh.wellFormed.number_lt
  have hnew := Block.le_number_toParagraphs host.document.styles host.document.nextHandle blocks
  rw [insertBlocks_eq_insertEach] at hrun
  cases hr with
  | inBody edge =>
    obtain ⟨items, hitems, rfl⟩ := insertEach_inBody_eq_ok queueBlockStyle_eq_ok hh.isOpen hrun
    obtain ⟨d, hbecomes, rfl⟩ := hh.flush_queueing.1 ⟨made, hflush⟩
    obtain ⟨news, hnews, hbody⟩ := Document.becomes_bodyChain (hh.wellFormed.makeAll _)
      (Document.awaits_makeAll _ items) hbecomes
    rw [Document.styles_makeAll] at hnews
    rw [Document.body_makeAll, eq_toParagraphs_of_dressed hitems hnews] at hbody
    have hknown := knowsBlocks_of_dressed hitems hnews
    refine ⟨hknown, ?_, ?_⟩
    · rw [Document.paragraphs, hbody]
      exact Forest.paragraphs_atEdge edge _ _
    · rw [hbody]
      exact Forest.older_atEdge hold hnew edge
  | @beside side h index hat =>
    have hl : h ∈ host.document.body.listed := List.mem_of_getElem? hat
    obtain ⟨items, news, hitems, hnews, rfl⟩ :=
      (insertEach_flush side queueBlockStyle_eq_ok hh hl).1 ⟨mid, hrun, made, hflush⟩
    have hbody : (inserting side h items news host.document).body = host.document.body.rewriteAt h
        (·.beside side (Block.toParagraphs host.document.styles host.document.nextHandle blocks)) := by
      rw [body_inserting, eq_toParagraphs_of_dressed hitems hnews]
    have hknown := knowsBlocks_of_dressed hitems hnews
    refine ⟨hknown, ?_, ?_⟩
    · rw [Document.paragraphs, hbody]
      exact Forest.paragraphs_rewriteAt_beside hh.wellFormed.nodup_listed hat side _
    · rw [hbody]
      exact Forest.older_rewriteAt_beside hold hnew side

/-! ## The place that is asked for -/

/-- How many paragraphs stand in front of what an insertion puts into the document: none or all of
them for the default anchor, those in front of the range of another anchor or up to its end, those
up to a heading, or those up to the one whose text a position lies in. -/
inductive Aims (setting : Setting) (host : Host) (anchor : String) (heading position : Json) :
    InsertLocation → Nat → Prop
  | front : anchor = setting.rules.defaultAnchor →
      Aims setting host anchor heading position .start 0
  | back : anchor = setting.rules.defaultAnchor →
      Aims setting host anchor heading position .stop host.document.paragraphs.length
  | before {found : Resolution} {first : Handle} {index : Nat} :
      anchor ≠ setting.rules.defaultAnchor →
      (Anchor.resolve setting.rules anchor).runOn host = (.ok found, host) →
      found.range.head? = some first → host.document.body.listed[index]? = some first →
      Aims setting host anchor heading position .start index
  | behind {found : Resolution} {last : Handle} {index : Nat} :
      anchor ≠ setting.rules.defaultAnchor →
      (Anchor.resolve setting.rules anchor).runOn host = (.ok found, host) →
      found.range.getLast? = some last → host.document.body.listed[index]? = some last →
      Aims setting host anchor heading position .stop (index + 1)
  | afterHeading {text : String} {p : Passage} {score : Heading.Score} :
      headingText heading = .ok text →
      Heading.best? setting.rules setting.scorer host.document.passages text = some (p, score) →
      Aims setting host anchor heading position .afterHeading (p.index + 1)
  | atPosition {given : Rat} {index : Nat} : givenPosition position = .ok (some given) →
      Covers host.document.passages given index →
      (∀ other, Covers host.document.passages given other → other = index) →
      Aims setting host anchor heading position .atPosition (index + 1)

section
variable (hh : host.Ready)
include hh

theorem aims_of_insertAtEdge {edge : Edge}
    (h : (insertAtEdge setting anchor edge).runOn host = (.ok insert, mid)) :
    mid = host ∧ ∃ count, Aims setting host anchor heading position edge.location count ∧
      Reaches host.document insert count := by
  rw [insertAtEdge] at h
  by_cases hd : anchor = setting.rules.defaultAnchor
  · rw [if_pos hd] at h
    obtain ⟨rfl, rfl⟩ : (fun text => Host.insertParagraphInBody text edge) = insert ∧
        host = mid := by simpa using h
    refine ⟨rfl, _, ?_, .inBody edge⟩
    cases edge with
    | start => exact .front hd
    | stop => exact .back hd
  · rw [if_neg hd, runOn_bind] at h
    rcases hresolve : (Anchor.resolve setting.rules anchor).runOn host with ⟨early | found, last⟩
    · simp [hresolve] at h
    · obtain ⟨hfound, rfl⟩ := (hh.resolve hd).1 hresolve
      obtain ⟨strategy, _, hattempt⟩ := List.exists_of_findSome?_eq_some hfound
      have hsub := Document.range_subset_of_attempt? hh.wellFormed hattempt
      rw [hresolve] at h
      cases hrange : found.range with
      | nil => simp [requireRange, runOn_bind, hrange] at h
      | cons first others =>
        obtain ⟨final, hfinal⟩ : ∃ final, (first :: others).getLast? = some final :=
          Option.isSome_iff_exists.1 (by simp)
        rw [hrange] at hsub
        cases edge with
        | start =>
          obtain ⟨index, hat⟩ := List.mem_iff_getElem?.1 (hsub List.mem_cons_self)
          obtain ⟨rfl, rfl⟩ : (fun text => Host.insertParagraph text first .before) = insert ∧
              last = mid := by simpa [requireRange, hrange] using h
          exact ⟨rfl, index, .before hd hresolve (by simp [hrange]) hat, .beside .before hat⟩
        | stop =>
          obtain ⟨index, hat⟩ := List.mem_iff_getElem?.1 (hsub (List.mem_of_getLast? hfinal))
          obtain ⟨rfl, rfl⟩ : (fun text => Host.insertParagraph text final .after) = insert ∧
              last = mid := by simpa [requireRange, hrange, hfinal] using h
          exact ⟨rfl, index + 1, .behind hd hresolve (by simp [hrange, hfinal]) hat,
            .beside .after hat⟩

/-- The place that is found for an insertion is the one that it asks for. -/
theorem aims_of_insertionPoint
    (h : (insertionPoint setting anchor location heading position).runOn host = (.ok insert, mid)) :
    mid = host ∧ ∃ count, Aims setting host anchor heading position location count ∧
      Reaches host.document insert count := by
  cases location with
  | start => exact aims_of_insertAtEdge hh h
  | stop => exact aims_of_insertAtEdge hh h
  | other name => simp [insertionPoint] at h
  | afterHeading =>
    cases htext : headingText heading with
    | error f => simp [insertionPoint, runOn_bind, htext, lift] at h
    | ok text =>
      simp only [insertionPoint, requireHeading, runOn_bind, htext, runOn_lift_ok,
        hh.paragraphs] at h
      cases hbest : Heading.best? setting.rules setting.scorer host.document.passages text with
      | none => simp [hbest] at h
      | some found =>
        obtain ⟨p, score⟩ := found
        obtain ⟨rfl, rfl⟩ : (fun text => Host.insertParagraph text p.handle .after) = insert ∧
            host = mid := by simpa [hbest] using h
        have hat := Document.getElem?_index (mem_of_best? hbest)
        exact ⟨rfl, p.index + 1, .afterHeading htext hbest,
          .beside .after (Document.getElem?_listed hat)⟩
  | atPosition =>
    have hinside : (failOutside position).runOn host ≠ (.ok insert, mid) := by
      obtain ⟨mishap, hfail⟩ := @failOutside_error (String → Editing Handle) position host
      simp [hfail]
    cases hgiven : givenPosition position with
    | error f => simp [insertionPoint, runOn_bind, hgiven, lift] at h
    | ok found =>
      simp only [insertionPoint, runOn_bind, hgiven, runOn_lift_ok] at h
      cases found with
      | none => exact absurd h hinside
      | some given =>
        by_cases hpos : 0 ≤ given
        · simp only [if_pos hpos, runOn_bind, hh.paragraphs, runOn_pure] at h
          cases hat : passageAt given 0 host.document.passages with
          | none => exact absurd (by simpa [hat] using h) hinside
          | some p =>
            obtain ⟨index, hindex, hcovers⟩ := covers_of_passageAt hat
            obtain ⟨rfl, rfl⟩ : (fun text => Host.insertParagraph text p.handle .after) = insert ∧
                host = mid := by simpa [hat] using h
            refine ⟨rfl, index + 1, .atPosition hgiven hcovers fun other hother => ?_,
              .beside .after (Document.getElem?_listed hindex)⟩
            exact covers_unique hother hcovers
        · exact absurd (by simpa [if_neg hpos] using h) hinside

/-- An insertion that has queued its blocks has found the place that it asks for. -/
theorem aims_of_insertText
    (h : (insertText setting anchor location heading position blocks).runOn host =
      (.ok (), mid)) :
    ∃ insert count, Aims setting host anchor heading position location count ∧
      Reaches host.document insert count ∧
      (insertBlocks setting insert blocks).runOn host = (.ok (), mid) := by
  obtain ⟨insert, found, hpoint, hblocks⟩ := bind_eq_ok.1 h
  obtain ⟨rfl, count, haims, hreaches⟩ := aims_of_insertionPoint hh hpoint
  exact ⟨insert, count, haims, hreaches, hblocks⟩

end

/-! ## Insertions at a position -/

/-- A position that lies nowhere in the whole text of the document. -/
def Outside (d : Document) (position : Int) : Prop :=
  position < 0 ∨ (wholeText d.passages).length < position ∨ d.passages = []

/-- The color of one of the blocks has a channel with too many digits. -/
def OverlongBlocks (blocks : List Block) : Prop :=
  ∃ style ∈ blocks.filterMap blockLook, ∃ n, style.Overlong n

/-- A plan of this one action fails, the document stays as it is, and nothing stays queued. -/
def Fails (setting : Setting) (action : Action) (host : Host) : Prop :=
  ∃ f added after, (run setting [own action]).runOn host = (.ok (.failed f added), after) ∧
    after.document.body = host.document.body ∧ after.pending = []

theorem blockLooks_of_items {items : List (String × List Look)}
    (hi : List.Forall₂ (fun block item =>
      itemOf blockText (blockLooks setting) block = some item) blocks items) :
    ∀ block ∈ blocks, ∃ looks, blockLooks setting block = some looks := by
  induction hi with
  | nil => exact fun _ hblock => absurd hblock List.not_mem_nil
  | cons hitem _ ih =>
    obtain ⟨_, looks, hlooks, -⟩ := itemOf_eq_some.1 hitem
    exact List.forall_mem_cons.2 ⟨⟨looks, hlooks⟩, ih⟩

/-- Where the looks of all blocks are known, no color has too many digits. -/
theorem not_overlong_of_items {items : List (String × List Look)}
    (hi : List.Forall₂ (fun block item =>
      itemOf blockText (blockLooks setting) block = some item) blocks items) :
    ¬ OverlongBlocks blocks := by
  intro h
  obtain ⟨style, hstyle, n, hlong⟩ := h
  obtain ⟨block, hblock, hlook⟩ := List.mem_filterMap.1 hstyle
  obtain ⟨looks, hlooks⟩ := blockLooks_of_items hi block hblock
  rw [blockLooks, hlook] at hlooks
  obtain ⟨digits, hdigits, -⟩ := Option.map_eq_some_iff.1 hlooks
  exact colorDigits_of_overlong hlong digits (toOption_eq_some.1 hdigits)

theorem not_overlong_of_insertBlocks {d : Document} (hopen : host.isOpen = true)
    (hp : Places d insert)
    (hrun : (insertBlocks setting insert blocks).runOn host = (.ok (), mid)) :
    ¬ OverlongBlocks blocks := by
  rw [insertBlocks_eq_insertEach] at hrun
  cases hp with
  | beside side _ =>
    obtain ⟨items, hitems, -⟩ := (insertEach_eq_ok queueBlockStyle_eq_ok hopen).1 hrun
    exact not_overlong_of_items hitems
  | inBody edge =>
    obtain ⟨items, hitems, -⟩ := insertEach_inBody_eq_ok queueBlockStyle_eq_ok hopen hrun
    exact not_overlong_of_items hitems

theorem not_outside_of_aims {given : Int}
    (h : Aims setting host anchor heading (.int given) .atPosition count) :
    ¬ Outside host.document given := by
  cases h with
  | atPosition hgiven hcovers _ =>
    obtain rfl : (given : Rat) = _ := Option.some.inj (Except.ok.inj hgiven)
    obtain ⟨hpos, hne, hle⟩ := le_of_covers hcovers
    have hpos : 0 ≤ given := by exact_mod_cast hpos
    have hle : given ≤ (wholeText host.document.passages).length := by exact_mod_cast hle
    rintro (hlt | hlt | hnone)
    · omega
    · omega
    · exact hne hnone

section
variable (hh : host.Ready)
include hh

/-- An action that fails before its flush leaves the document as it is. -/
theorem fails_of_perform {action : Action} {mishap : Mishap}
    (h : (perform setting action.kind action).runOn host = (.error mishap, mid)) :
    Fails setting action host := by
  have hprepared := prepares_preparation setting (own action) host
  rw [preparation_own, h] at hprepared
  cases mishap with
  | failure f =>
    exact ⟨_, _, _, run_single_failed hh.isOpen (runAction_failure h), hprepared.body, rfl⟩
  | fault f =>
    exact ⟨_, _, _, run_single_failed hh.isOpen (runAction_fault h), hprepared.body, rfl⟩

theorem not_fails_of_does {action : Action} (h : Does setting action host after) :
    ¬ Fails setting action host := by
  intro hfails
  obtain ⟨f, added, left, hrun, -⟩ := hfails
  obtain ⟨message, hok⟩ := run_single_ok hh.isOpen h
  simp [hok] at hrun

/-- Where the position lies outside the whole text, or a color has too many digits, the insertion
fails before its flush. -/
theorem fails_atPosition (scorer : Heading.Scorer) (anchor : String) (heading : Json)
    {given : Int} (h : Outside host.document given ∨ OverlongBlocks blocks) :
    Fails ⟨.standard, scorer⟩ (.insertText anchor .atPosition heading (.int given) blocks) host := by
  rcases hrun : (insertText ⟨.standard, scorer⟩ anchor .atPosition heading (.int given)
    blocks).runOn host with ⟨mishap | _, mid⟩
  · exact fails_of_perform hh hrun
  · obtain ⟨insert, count, haims, hreaches, hblocks⟩ := aims_of_insertText hh hrun
    rcases h with houtside | hlong
    · exact absurd houtside (not_outside_of_aims haims)
    · exact absurd hlong (not_overlong_of_insertBlocks hh.isOpen hreaches.places hblocks)

theorem does_atPosition (scorer : Heading.Scorer) (anchor : String) (heading : Json)
    {position : Int} (hb : ∀ block ∈ blocks, block.Checked .standard)
    (hk : host.document.styles.KnowsBlocks .standard blocks)
    (hin : ¬ Outside host.document position) (hshort : ¬ OverlongBlocks blocks) :
    ∃ after, Does ⟨.standard, scorer⟩
      (.insertText anchor .atPosition heading (.int position) blocks) host after := by
  simp only [Outside, not_or, not_lt] at hin
  obtain ⟨hpos, hle, hne⟩ := hin
  obtain ⟨p, hp⟩ := exists_passageAt hpos hne hle
  have hpos : (0 : Rat) ≤ position := by exact_mod_cast hpos
  have hpoint : (insertionPoint ⟨.standard, scorer⟩ anchor .atPosition heading
      (.int position)).runOn host =
        (.ok (fun text => Host.insertParagraph text p.handle .after), host) := by
    simp [insertionPoint, givenPosition, Json.number?, runOn_bind, hpos, hh.paragraphs, hp]
  have hplace : Places host.document (fun text => Host.insertParagraph text p.handle .after) :=
    .beside .after (mem_listed_of_mem_passages (mem_of_passageAt hp))
  rcases hrun : (insertBlocks ⟨.standard, scorer⟩
      (fun text => Host.insertParagraph text p.handle .after) blocks).runOn host with
    ⟨mishap | _, mid⟩
  · obtain ⟨style, hstyle, n, hlong, -⟩ := insertBlocks_error hplace.inserting hb hh.isOpen hrun
    exact absurd ⟨style, hstyle, n, hlong⟩ hshort
  · obtain ⟨n, after, hflush, -⟩ := (queued_insertBlocks hh hplace hb hk hrun).flush hh
    refine ⟨after, does_iff.2 ⟨mid, ?_, n, hflush⟩⟩
    exact bind_eq_ok.2 ⟨_, host, hpoint, hrun⟩

end

/-- An insertion that succeeds under the standard rules has put one paragraph for each block, in
order and one behind the other, at the place that it asks for, and everything else is as it was.  A
checked insertion at a position fails, and leaves the document as it is, if the position lies outside
the whole text or a color has too many digits; where the document knows the styles of the blocks
nothing else makes it fail, and where it does not the insertion never succeeds. -/
theorem insertText_inserts_at_place (scorer : Heading.Scorer) (hh : host.Ready) :
    (∀ anchor location heading position blocks after,
      Does ⟨.standard, scorer⟩ (.insertText anchor location heading position blocks) host after →
      ∃ count, Aims ⟨.standard, scorer⟩ host anchor heading position location count ∧
        host.document.Inserts after.document count
          (Block.toParagraphs host.document.styles host.document.nextHandle blocks)) ∧
    ∀ anchor heading (position : Int) blocks, (∀ block ∈ blocks, block.Checked .standard) →
      let action := Action.insertText anchor .atPosition heading (.int position) blocks
      let stopped := Outside host.document position ∨ OverlongBlocks blocks
      let known := host.document.styles.KnowsBlocks .standard blocks
      (stopped → Fails ⟨.standard, scorer⟩ action host) ∧
      (known → (Fails ⟨.standard, scorer⟩ action host ↔ stopped)) ∧
      ((∃ after, Does ⟨.standard, scorer⟩ action host after) ↔ known ∧ ¬ stopped) := by
  have hputs : ∀ anchor location heading position blocks after,
      Does ⟨.standard, scorer⟩ (.insertText anchor location heading position blocks) host after →
      host.document.styles.KnowsBlocks .standard blocks ∧
      ∃ count, Aims ⟨.standard, scorer⟩ host anchor heading position location count ∧
        host.document.Inserts after.document count
          (Block.toParagraphs host.document.styles host.document.nextHandle blocks) := by
    intro anchor location heading position blocks after h
    obtain ⟨mid, hperform, made, hflush⟩ := does_iff.1 h
    obtain ⟨insert, count, haims, hreaches, hblocks⟩ := aims_of_insertText hh hperform
    obtain ⟨hk, hinserts⟩ := hreaches.inserts hh hblocks hflush
    exact ⟨hk, count, haims, hinserts⟩
  constructor
  · intro anchor location heading position blocks after h
    exact (hputs anchor location heading position blocks after h).2
  · intro anchor heading position blocks hb action stopped known
    have hfails : stopped → Fails ⟨.standard, scorer⟩ action host :=
      fails_atPosition hh scorer anchor heading
    have hdoes : known ∧ ¬ stopped → ∃ after, Does ⟨.standard, scorer⟩ action host after :=
      fun ⟨hk, hgoes⟩ => does_atPosition hh scorer anchor heading hb hk
        (fun h => hgoes (.inl h)) fun h => hgoes (.inr h)
    refine ⟨hfails, fun hk => ⟨fun h => ?_, hfails⟩, ⟨fun ⟨after, h⟩ => ?_, hdoes⟩⟩
    · by_contra hgoes
      obtain ⟨after, hafter⟩ := hdoes ⟨hk, hgoes⟩
      exact not_fails_of_does hh hafter h
    · exact ⟨(hputs _ _ _ _ _ _ h).1, fun hs => not_fails_of_does hh h (hfails hs)⟩

/-- A document whose second paragraph stands in a cell. -/
def tabled : Document where
  body :=
    .cons (.paragraph ⟨0⟩ "Normal" none) (.runOf "abc".toList)
      (.cons .table (.single .row (.single .cell
          (.single (.paragraph ⟨1⟩ "Normal" none) (.runOf "defg".toList))))
        (.single (.paragraph ⟨2⟩ "Normal" none) (.runOf "hi".toList)))
  nextHandle := 3

theorem insertText_inserts_at_place_in_cell :
    (∃ after, Does ⟨.standard, fun _ _ => .zero⟩
        (.insertText "main" .atPosition .null (.int 5) [.paragraph "X" none, .paragraph "Y" none])
        { document := tabled } after ∧
      after.document.paragraphs.map (·.text) = ["abc", "defg", "X", "Y", "hi"] ∧
      after.document.body.older 3 = tabled.body) ∧
    Fails ⟨.standard, fun _ _ => .zero⟩
      (.insertText "main" .atPosition .null (.int 12) [.paragraph "X" none])
      { document := tabled } := by
  have hready : Host.Ready { document := tabled } := ⟨⟨rfl, rfl⟩, rfl, by decide⟩
  obtain ⟨hplaces, hfails⟩ := insertText_inserts_at_place (fun _ _ => .zero) hready
  constructor
  · obtain ⟨after, hdoes⟩ : ∃ after, Does ⟨.standard, fun _ _ => .zero⟩
        (.insertText "main" .atPosition .null (.int 5) [.paragraph "X" none, .paragraph "Y" none])
        { document := tabled } after := ⟨_, rfl⟩
    obtain ⟨count, haims, hinserts⟩ := hplaces _ _ _ _ _ _ hdoes
    have hcount : count = 2 := by
      cases haims with
      | atPosition hgiven hcovers hunique =>
        obtain rfl : ((5 : Int) : Rat) = _ := Option.some.inj (Except.ok.inj hgiven)
        have hcell : Covers tabled.passages ((5 : Int) : Rat) 1 :=
          ⟨⟨1, "defg", "Normal", ⟨1⟩⟩, by decide, by decide +kernel, by decide +kernel⟩
        rw [← hunique 1 hcell]
    subst hcount
    refine ⟨after, hdoes, ?_, hinserts.older⟩
    rw [hinserts.paragraphs]
    decide
  · refine (hfails "main" .null 12 [.paragraph "X" none] ?_).1 (.inl (.inr (.inl ?_)))
    · intro block hblock
      obtain rfl := List.mem_singleton.1 hblock
      exact .paragraph (by decide) nofun
    · decide

/-- A checked block can have a color with too many digits.  Its insertion fails then, though its
position lies in the text. -/
theorem insertText_stopped_by_4301_digits :
    (Snapshot.colored 4301).Checked .standard ∧ ¬ Outside greeting 0 ∧
      Fails ⟨.standard, Heading.overlapScore⟩
        (.insertText "main" .atPosition .null (.int 0) [Snapshot.colored 4301])
        { document := greeting } := by
  have hlong : Numeral.maxDigits < 4301 := by decide
  have hcolored := Snapshot.checked_colored hlong
  have hread := Color.read_ofRed (Snapshot.isRow_nines hlong)
  have hoverlong : OverlongBlocks [Snapshot.colored 4301] :=
    ⟨{ color := some (nines 4301) }, List.mem_singleton.2 rfl, 4301, nines 4301, rfl, _,
      ⟨_, _, _, hread, List.mem_cons_self⟩, List.length_replicate, hlong⟩
  have hinside : ¬ Outside greeting 0 := by
    simp only [Outside]
    decide
  exact ⟨hcolored, hinside,
    fails_atPosition ready_greeting Heading.overlapScore "main" .null (.inr hoverlong)⟩

end Execution

end Redline
