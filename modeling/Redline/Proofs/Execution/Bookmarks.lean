import Mathlib.Logic.Relation
import Redline.Proofs.Document.Capture
import Redline.Proofs.Execution.Replace

/-!
# Bookmarks along a run of replacements

Replacements of bookmarks and headings follow one another in a document whose marks have stood in
paragraphs.  However their ranges overlap, every mark keeps a place that tells where it stands, and
no bookmark comes to cover a paragraph that stood outside of it.  There are two exceptions: a
paragraph that stays emptied as the last of its cell, and a bookmark that is left stranded.  The
latter takes two replacements: one of the bookmark, by which its start comes to stand between
paragraphs, and one of a range that begins in front of it and holds all that it covers.

## Main definitions

* `Forest.Inline` — all marks of a forest stand in its paragraphs.
* `Execution.Replaces` — one replacement of a bookmark or a heading.
* `Document.MayCover` — what a bookmark may cover after a replacement.
-/

namespace Redline

/-- Whether a mark stands in a paragraph. -/
def Place.isInside : Place → Bool
  | .inside _ => true
  | .between _ => false

namespace Forest

/-- Every mark stands in a paragraph that the forest lists, and ends have ids of their own. -/
structure Inline (f : Forest) : Prop where
  openings : ∀ o ∈ f.openings [], o.place.isInside = true
  closings : ∀ c ∈ f.closings [], c.place.isInside = true
  sober : ∀ p ∈ f.paragraphs, p.content.Sober
  distinct : f.stops.Nodup

theorem Inline.tidy {f : Forest} (hf : f.Inline) : f.Tidy where
  sober := hf.sober
  distinct := hf.distinct
  follows c hc segment hs := by
    have := hf.closings c hc
    rw [hs] at this
    cases this

end Forest

/-! ## New paragraphs -/

theorem Look.unmarked_give {sheet : Stylesheet} {p q : Paragraph} {look : Look}
    (hp : p.content.Unmarked) (h : look.give sheet p = some q) : q.content.Unmarked := by
  cases look with
  | style name =>
    obtain ⟨_, _, rfl⟩ := Option.map_eq_some_iff.1 h
    exact hp
  | color digits =>
    obtain ⟨_, _, rfl⟩ := Option.map_eq_some_iff.1 h
    exact hp.formatRuns _
  | bold value =>
    obtain rfl := Option.some.inj h
    exact hp.formatRuns _
  | alignment name =>
    obtain ⟨_, _, rfl⟩ := Option.map_eq_some_iff.1 h
    exact hp

theorem Look.unmarked_giveAll {sheet : Stylesheet} {p q : Paragraph} {looks : List Look}
    (hp : p.content.Unmarked) (h : Look.giveAll sheet p looks = some q) : q.content.Unmarked := by
  induction looks generalizing p with
  | nil =>
    obtain rfl := Option.some.inj h
    exact hp
  | cons look rest ih =>
    obtain ⟨mid, hmid, hrest⟩ := Option.bind_eq_some_iff.1 (h : (look.give sheet p).bind _ = some q)
    exact ih (unmarked_give hp hmid) hrest

namespace Document

variable {sheet : Stylesheet} {items : List (String × List Look)} {news : List Paragraph} {n : Nat}

theorem unmarked_made (n : Nat) (text : String) : (made sheet n text).content.Unmarked := by
  rw [made]
  split <;> exact ⟨rfl, rfl, rfl⟩

theorem unmarked_of_dressed (hn : Dressed sheet (insertions sheet n items) news) :
    ∀ q ∈ news, q.content.Unmarked := by
  induction items generalizing n news with
  | nil =>
    obtain rfl := List.forall₂_nil_left_iff.1 hn
    simp
  | cons item rest ih =>
    obtain ⟨q, others, hq, hrest, rfl⟩ := List.forall₂_cons_left_iff.1 hn
    rintro x (_ | ⟨_, hx⟩)
    · exact Look.unmarked_giveAll (unmarked_made n item.1) hq
    · exact ih hrest x hx

/-- New paragraphs have handles that have not been given out before. -/
theorem le_of_dressed (hn : Dressed sheet (insertions sheet n items) news) {q : Paragraph}
    (hq : q ∈ news) : n ≤ q.handle.number := by
  have hmem : q.handle ∈ (List.range' n items.length).map Handle.mk := by
    rw [← @map_handle_insertions sheet, ← hn.map_handle]
    exact List.mem_map_of_mem hq
  obtain ⟨m, hm, he⟩ := List.mem_map.1 hmem
  rw [← he]
  exact (List.mem_range'_1.1 hm).1

/-- What a bookmark may cover when a range has been replaced: what it has covered, what has been made
since, and a paragraph that stays emptied as the last of its cell. -/
def MayCover (d : Document) (others : List Handle) (b : Bookmark) (h : Handle) : Prop :=
  h ∈ d.body.bookmarkRange b ∨ d.nextHandle ≤ h.number ∨
    ∃ p ∈ d.paragraphs, p.handle = h ∧ d.LastOfCell others p

end Document

namespace Execution

open Document

variable {setting : Setting} {start host after : Host} {anchor : String} {blocks : List Block}

/-! ## One replacement -/

theorem notMem_listed_of_le {d : Document} (hd : d.WellFormed) {h : Handle}
    (hh : d.nextHandle ≤ h.number) : h ∉ d.body.listed := fun hl =>
  absurd (hd.given h (mem_handles_of_mem_body ((Forest.listed_sublist_handles _).subset hl)))
    (Nat.not_lt.2 hh)

theorem ne_nil_of_items {sheet : Stylesheet} {items : List (String × List Look)}
    {news : List Paragraph} {n : Nat} (hblocks : blocks ≠ [])
    (hitems : List.Forall₂ (fun block item =>
      itemOf blockText (blockLooks setting) block = some item) blocks items)
    (hnews : Dressed sheet (insertions sheet n items) news) : news ≠ [] := by
  rintro rfl
  have hlength := congrArg List.length hnews.map_handle
  rw [map_handle_insertions, List.length_map, List.length_map, List.length_range'] at hlength
  exact hblocks (List.eq_nil_of_length_eq_zero (hitems.length_eq.trans hlength.symm))

/-- What a replacement of a bookmark or a heading has done: consecutive paragraphs have given way to
new ones. -/
theorem does_replaceSection_inText (hh : host.Ready)
    (hin : host.document.InText setting.rules anchor) (hblocks : blocks ≠ [])
    (h : Does setting (.replaceSection anchor blocks) host after) :
    ∃ first others news, host.document.range? setting.rules anchor = some (first :: others) ∧
      host.document.Replaceable first others news ∧
      (∀ q ∈ news, host.document.nextHandle ≤ q.handle.number) ∧
      after.document.body =
        host.document.body.rewrite (host.document.replacing first others news) ∧
      host.document.nextHandle ≤ after.document.nextHandle ∧ after.Ready := by
  obtain ⟨first, others, items, news, hrange, hitems, hnews, hbody, hnext, -, hready⟩ :=
    does_replaceSection hh hin.ne_default h
  have hge : ∀ q ∈ news, host.document.nextHandle ≤ q.handle.number :=
    fun q hq => le_of_dressed hnews hq
  have hs : host.document.Replaceable first others news :=
    { wellFormed := hh.wellFormed
      consecutive := hin.range?_isInfix hrange
      nonempty := ne_nil_of_items hblocks hitems hnews
      unmarked := unmarked_of_dressed hnews
      fresh := fun q hq => notMem_listed_of_le hh.wellFormed (hge q hq)
      nodup := hbody ▸ hready.wellFormed.nodup_listed }
  exact ⟨first, others, news, hrange, hs, hge, hbody, hnext ▸ Nat.le_add_right _ _, hready⟩

/-- After a replacement of a bookmark or a heading, a bookmark that has not been left stranded covers
only what it may cover. -/
theorem bookmarkRange_of_does (hh : host.Ready) (ht : host.document.body.Tidy)
    (hin : host.document.InText setting.rules anchor) (hblocks : blocks ≠ [])
    (h : Does setting (.replaceSection anchor blocks) host after) :
    ∃ first others, host.document.range? setting.rules anchor = some (first :: others) ∧
      ∀ b' ∈ after.document.body.bookmarks, ∃ b ∈ host.document.body.bookmarks,
        b.name = b'.name ∧ b.id = b'.id ∧
          (host.document.Stranded first after.document.body.listed b ∨
            ∀ k ∈ after.document.body.bookmarkRange b', host.document.MayCover others b k) := by
  obtain ⟨first, others, news, hrange, hs, hge, hbody, _, _⟩ :=
    does_replaceSection_inText hh hin hblocks h
  refine ⟨first, others, hrange, fun b' hb' => ?_⟩
  rw [hbody] at hb' ⊢
  rw [(hs.tidy ht).bookmarks_eq] at hb'
  obtain ⟨o', ho', rfl⟩ := List.mem_map.1 hb'
  obtain ⟨o, ho, hname, hid, hcovers⟩ := hs.bookmarkRange_subset ht ho'
  refine ⟨o.bookmark, ht.mem_bookmarks ho, hname, hid, hcovers.imp_right fun hcovers k hk => ?_⟩
  have hkl := (Forest.bookmarkRange_isInfix _ _).subset hk
  by_cases hl : k ∈ host.document.body.listed
  · by_cases hkr : k ∈ first :: others
    · exact .inr (.inr (hs.lastOfCell_of_left hkr hkl))
    · exact .inl (hcovers k hk hl hkr)
  · obtain ⟨q, hq, rfl⟩ := List.mem_map.1 hkl
    rcases hs.mem_paragraphs hq with hq | ⟨p, hp, _, rfl⟩ | ⟨hq, _⟩
    · exact .inr (.inl (hge q hq))
    · exact absurd (mem_listed_iff.2 ⟨p, hp, rfl⟩) hl
    · exact absurd (mem_listed_iff.2 ⟨q, hq, rfl⟩) hl

/-- What is left of a replaced range is without content. -/
theorem content_eq_nil_of_does (hh : host.Ready)
    (hin : host.document.InText setting.rules anchor) (hblocks : blocks ≠ [])
    (h : Does setting (.replaceSection anchor blocks) host after) {range : List Handle}
    (hrange : host.document.range? setting.rules anchor = some range) {q : Paragraph}
    (hq : q ∈ after.document.paragraphs) (hqr : q.handle ∈ range) : q.content = .nil := by
  obtain ⟨first, others, news, hrange', hs, _, hbody, _, _⟩ :=
    does_replaceSection_inText hh hin hblocks h
  obtain rfl := Option.some.inj (hrange.symm.trans hrange')
  rw [paragraphs, hbody] at hq
  rcases hs.mem_paragraphs hq with hq | ⟨p, _, _, rfl⟩ | ⟨_, hout⟩
  · exact absurd (hs.consecutive.subset hqr) (hs.fresh q hq)
  · rfl
  · exact absurd hqr hout

/-! ## Runs -/

/-- A replacement of a bookmark or a heading has been carried out. -/
def Replaces (setting : Setting) (host after : Host) : Prop :=
  ∃ anchor blocks, host.document.InText setting.rules anchor ∧ blocks ≠ [] ∧
    Does setting (.replaceSection anchor blocks) host after

/-- The marks of a ready host can be told by their places. -/
structure Kept (host : Host) : Prop where
  ready : host.Ready
  tidy : host.document.body.Tidy

theorem Kept.replaces (hk : Kept host) (h : Replaces setting host after) : Kept after := by
  obtain ⟨anchor, blocks, hin, hblocks, hdoes⟩ := h
  obtain ⟨first, others, news, _, hs, _, hbody, _, hready⟩ :=
    does_replaceSection_inText hk.ready hin hblocks hdoes
  exact ⟨hready, hbody ▸ hs.tidy hk.tidy⟩

theorem Kept.run (hk : Kept start) (hrun : Relation.ReflTransGen (Replaces setting) start host) :
    Kept host := by
  induction hrun with
  | refl => exact hk
  | tail _ hstep ih => exact ih.replaces hstep

/-- A replacement of a bookmark or a heading that does not leave a bookmark stranded. -/
def Spares (setting : Setting) (name id : String) (host after : Host) : Prop :=
  ∃ anchor blocks, host.document.InText setting.rules anchor ∧ blocks ≠ [] ∧
    Does setting (.replaceSection anchor blocks) host after ∧
    ∀ first others, host.document.range? setting.rules anchor = some (first :: others) →
      ∀ b ∈ host.document.body.bookmarks, b.name = name → b.id = id →
        ¬ host.document.Stranded first after.document.body.listed b

theorem Spares.replaces {name id : String} (h : Spares setting name id host after) :
    Replaces setting host after := by
  obtain ⟨anchor, blocks, hin, hblocks, hdoes, -⟩ := h
  exact ⟨anchor, blocks, hin, hblocks, hdoes⟩

/-- A paragraph without content stays so as long as it stays. -/
theorem empty_of_replaces (hk : Kept host) (h : Replaces setting host after) {p : Paragraph}
    (hp : p ∈ host.document.paragraphs) (hnil : p.content = .nil)
    (hl : p.handle ∈ after.document.body.listed) :
    ∃ q ∈ after.document.paragraphs, q.handle = p.handle ∧ q.content = .nil := by
  obtain ⟨anchor, blocks, hin, hblocks, hdoes⟩ := h
  obtain ⟨first, others, news, _, hs, _, hbody, _, _⟩ :=
    does_replaceSection_inText hk.ready hin hblocks hdoes
  obtain ⟨q, hq, hqp⟩ := mem_listed_iff.1 hl
  refine ⟨q, hq, hqp, ?_⟩
  rw [paragraphs, hbody] at hq
  rcases hs.mem_paragraphs hq with hq | ⟨x, _, _, rfl⟩ | ⟨hq, _⟩
  · exact absurd (mem_listed_iff.2 ⟨p, hp, hqp.symm⟩) (hs.fresh q hq)
  · rfl
  · rwa [hs.wellFormed.eq_of_handle_eq hq hp hqp]

theorem nextHandle_le_of_replaces (hk : Kept host) (h : Replaces setting host after) :
    host.document.nextHandle ≤ after.document.nextHandle := by
  obtain ⟨anchor, blocks, hin, hblocks, hdoes⟩ := h
  obtain ⟨_, _, _, _, _, _, _, hnext, _⟩ := does_replaceSection_inText hk.ready hin hblocks hdoes
  exact hnext

theorem nextHandle_le_of_run (hk : Kept start)
    (hrun : Relation.ReflTransGen (Replaces setting) start host) :
    start.document.nextHandle ≤ host.document.nextHandle := by
  induction hrun with
  | refl => exact le_rfl
  | tail hrun hstep ih => exact ih.trans (nextHandle_le_of_replaces (hk.run hrun) hstep)

/-- Along a run that never leaves a bookmark stranded, it covers what it has covered at the start,
what has been made since, and paragraphs without content. -/
theorem bookmarkRange_of_run (hk : Kept start) {name id : String}
    (hrun : Relation.ReflTransGen (Spares setting name id) start host) :
    ∀ b' ∈ host.document.body.bookmarks, b'.name = name → b'.id = id →
      ∃ b ∈ start.document.body.bookmarks, b.name = name ∧ b.id = id ∧
        ∀ h ∈ host.document.body.bookmarkRange b', h ∈ start.document.body.bookmarkRange b ∨
          start.document.nextHandle ≤ h.number ∨
            ∃ p ∈ host.document.paragraphs, p.handle = h ∧ p.content = .nil := by
  induction hrun with
  | refl => exact fun b hb hname hid => ⟨b, hb, hname, hid, fun h hh => .inl hh⟩
  | @tail mid last hrun hstep ih =>
    have hspares : Spares setting name id ≤ Replaces setting := fun _ _ h => h.replaces
    have hrun' := Relation.ReflTransGen.mono hspares _ _ hrun
    have hkm := hk.run hrun'
    intro b' hb' hname hid
    have hreplaces := hstep.replaces
    obtain ⟨anchor, blocks, hin, hblocks, hdoes, hspared⟩ := hstep
    obtain ⟨first, others, hrange, hcovers⟩ :=
      bookmarkRange_of_does hkm.ready hkm.tidy hin hblocks hdoes
    obtain ⟨b, hb, hbname, hbid, hcase⟩ := hcovers b' hb'
    obtain ⟨b₀, hb₀, hname₀, hid₀, hbefore⟩ := ih b hb (hbname.trans hname) (hbid.trans hid)
    refine ⟨b₀, hb₀, hname₀, hid₀, fun h hh => ?_⟩
    have hl := (Forest.bookmarkRange_isInfix _ _).subset hh
    replace hspared := hspared first others hrange b hb (hbname.trans hname) (hbid.trans hid)
    rcases hcase.resolve_left hspared h hh with hcovered | hnew | ⟨p, hp, rfl, hlast⟩
    · rcases hbefore h hcovered with hstart | hnew | ⟨p, hp, rfl, hnil⟩
      · exact .inl hstart
      · exact .inr (.inl hnew)
      · exact .inr (.inr (empty_of_replaces hkm hreplaces hp hnil hl))
    · exact .inr (.inl ((nextHandle_le_of_run hk hrun').trans hnew))
    · obtain ⟨q, hq, hqp⟩ := mem_listed_iff.1 hl
      have hrange' : q.handle ∈ first :: others := List.mem_cons_of_mem _ (hqp ▸ hlast.mem)
      exact .inr (.inr ⟨q, hq, hqp,
        content_eq_nil_of_does hkm.ready hin hblocks hdoes hrange hq hrange'⟩)

/-- In a document whose marks stand in paragraphs, replacements of bookmarks and headings never make
a bookmark cover a paragraph that stood outside of it, but for one that stays emptied as the last of
its cell, and unless the bookmark is left stranded: each replacement keeps to this, whatever
replacements have come before it, and so does a run of them. -/
theorem replacements_keep_bookmarks (hh : start.Ready) (hm : start.document.body.Inline) :
    (∀ host after anchor blocks, Relation.ReflTransGen (Replaces setting) start host →
      host.document.InText setting.rules anchor → blocks ≠ [] →
      Does setting (.replaceSection anchor blocks) host after →
      ∃ first others, host.document.range? setting.rules anchor = some (first :: others) ∧
        ∀ b' ∈ after.document.body.bookmarks, ∃ b ∈ host.document.body.bookmarks,
          b.name = b'.name ∧ b.id = b'.id ∧
            (host.document.Stranded first after.document.body.listed b ∨
              ∀ h ∈ after.document.body.bookmarkRange b', host.document.MayCover others b h)) ∧
    (∀ name id host, Relation.ReflTransGen (Spares setting name id) start host →
      ∀ b' ∈ host.document.body.bookmarks, b'.name = name → b'.id = id →
        ∃ b ∈ start.document.body.bookmarks, b.name = name ∧ b.id = id ∧
          ∀ h ∈ host.document.body.bookmarkRange b', h ∈ start.document.body.bookmarkRange b ∨
            start.document.nextHandle ≤ h.number ∨
              ∃ p ∈ host.document.paragraphs, p.handle = h ∧ p.content = .nil) := by
  have hk : Kept start := ⟨hh, hm.tidy⟩
  refine ⟨fun host after anchor blocks hrun hin hblocks hdoes => ?_, fun name id host hrun =>
    bookmarkRange_of_run hk hrun⟩
  have hkh := hk.run hrun
  exact bookmarkRange_of_does hkh.ready hkh.tidy hin hblocks hdoes

/-- A document with two headings.  A bookmark runs from behind a table under the first one to the end
of the second one. -/
def overlappedDocument : Document where
  body := .cons (.paragraph ⟨0⟩ "Heading 1" none) (.single (.run "Alpha" {}) .nil)
    (.cons .table (.single .row (.single .cell
        (.single (.paragraph ⟨1⟩ "Normal" none) (.single (.run "cell" {}) .nil))))
      (.cons (.paragraph ⟨2⟩ "Normal" none)
          (.cons (.bookmarkStart "bm" "0") .nil (.single (.run "inside" {}) .nil))
        (.cons (.paragraph ⟨3⟩ "Heading 1" none) (.single (.run "Omega" {}) .nil)
          (.single (.paragraph ⟨4⟩ "Normal" none)
            (.cons (.run "tail" {}) .nil (.single (.bookmarkEnd "0") .nil))))))
  nextHandle := 5

theorem inline_overlappedDocument : overlappedDocument.body.Inline :=
  ⟨by decide, by decide, by decide, by decide⟩

/-- The section of the first heading goes, the one of the second heading follows. -/
theorem replacements_keep_bookmarks_overlapped :
    ∃ mid after, Replaces ⟨.standard, fun _ _ => .zero⟩ { document := overlappedDocument } mid ∧
      Does ⟨.standard, fun _ _ => .zero⟩ (.replaceSection "Omega" [.heading "new" 1 none]) mid after ∧
      ∀ b' ∈ after.document.body.bookmarks, ∃ b ∈ mid.document.body.bookmarks,
        b.name = b'.name ∧ b.id = b'.id ∧
          (mid.document.Stranded ⟨3⟩ after.document.body.listed b ∨
            ∀ h ∈ after.document.body.bookmarkRange b', mid.document.MayCover [⟨4⟩] b h) := by
  obtain ⟨mid, after, hfirst, hsecond, hin, hrange⟩ : ∃ mid after,
      Replaces ⟨.standard, fun _ _ => .zero⟩ { document := overlappedDocument } mid ∧
        Does ⟨.standard, fun _ _ => .zero⟩ (.replaceSection "Omega" [.heading "new" 1 none])
          mid after ∧
        mid.document.InText .standard "Omega" ∧
        mid.document.range? .standard "Omega" = some [⟨3⟩, ⟨4⟩] :=
    ⟨_, _, ⟨"Alpha", [.paragraph "fresh" none], ⟨by decide, by decide, by decide⟩, by decide, rfl⟩,
      rfl, ⟨by decide, by decide, by decide⟩, by decide⟩
  have hready : Host.Ready { document := overlappedDocument } := ⟨⟨rfl, rfl⟩, rfl, by decide⟩
  obtain ⟨first, others, hrange', hcovers⟩ :=
    (replacements_keep_bookmarks hready inline_overlappedDocument).1 mid after "Omega" _
      (.single hfirst) hin (by decide) hsecond
  obtain ⟨rfl, rfl⟩ := List.cons.inj (Option.some.inj (hrange'.symm.trans hrange))
  exact ⟨mid, after, hfirst, hsecond, hcovers⟩

/-- A bookmark comes to cover the cell that stood in front of it. -/
theorem bookmark_covers_emptied_cell :
    Host.Ready { document := overlappedDocument } ∧ overlappedDocument.body.Inline ∧
      overlappedDocument.InText .standard "Alpha" ∧
      ∃ after, Does ⟨.standard, fun _ _ => .zero⟩
          (.replaceSection "Alpha" [.paragraph "fresh" none])
          { document := overlappedDocument } after ∧
        overlappedDocument.body.listed = [⟨0⟩, ⟨1⟩, ⟨2⟩, ⟨3⟩, ⟨4⟩] ∧
        overlappedDocument.body.bookmarks.map overlappedDocument.body.bookmarkRange =
          [[⟨2⟩, ⟨3⟩, ⟨4⟩]] ∧
        after.document.body.bookmarks.map after.document.body.bookmarkRange =
          [[⟨5⟩, ⟨1⟩, ⟨3⟩, ⟨4⟩]] :=
  ⟨⟨⟨rfl, rfl⟩, rfl, by decide⟩, inline_overlappedDocument, ⟨by decide, by decide, by decide⟩,
    _, rfl, by decide, by decide, by decide⟩

/-- A document with two headings.  A bookmark runs around the last paragraph under the first one. -/
def enclosedDocument : Document where
  body := .cons (.paragraph ⟨0⟩ "Heading 1" none) (.single (.run "Alpha" {}) .nil)
    (.cons (.paragraph ⟨1⟩ "Normal" none) (.single (.run "before" {}) .nil)
      (.cons (.paragraph ⟨2⟩ "Normal" none)
          (.cons (.bookmarkStart "bm" "0") .nil
            (.cons (.run "inside" {}) .nil (.single (.bookmarkEnd "0") .nil)))
        (.cons (.paragraph ⟨3⟩ "Heading 1" none) (.single (.run "Omega" {}) .nil)
          (.single (.paragraph ⟨4⟩ "Normal" none) (.single (.run "tail" {}) .nil)))))
  nextHandle := 5

/-- The bookmark is replaced first, the section around it next: it comes to cover the heading that
stands behind. -/
theorem stranded_bookmark_captures :
    Host.Ready { document := enclosedDocument } ∧ enclosedDocument.body.Inline ∧
      enclosedDocument.InText .standard "bm" ∧
      ∃ mid after, Does ⟨.standard, fun _ _ => .zero⟩
          (.replaceSection "bm" [.paragraph "new" none]) { document := enclosedDocument } mid ∧
        mid.document.InText .standard "Alpha" ∧
        Does ⟨.standard, fun _ _ => .zero⟩
          (.replaceSection "Alpha" [.paragraph "fresh" none]) mid after ∧
        enclosedDocument.body.listed = [⟨0⟩, ⟨1⟩, ⟨2⟩, ⟨3⟩, ⟨4⟩] ∧
        mid.document.body.bookmarks.map mid.document.body.bookmarkRange = [[⟨5⟩]] ∧
        after.document.body.bookmarks.map after.document.body.bookmarkRange = [[⟨3⟩]] :=
  ⟨⟨⟨rfl, rfl⟩, rfl, by decide⟩, ⟨by decide, by decide, by decide, by decide⟩,
    ⟨by decide, by decide, by decide⟩, _, _, rfl, ⟨by decide, by decide, by decide⟩, rfl,
    by decide, by decide, by decide⟩

end Execution

end Redline
