import Redline.Proofs.Anchor.Selecting
import Redline.Proofs.Document.Exchanging
import Redline.Proofs.Number.Signed

/-!
# Bookmarks that are added

A bookmark gets the number above the highest there is as its id, so no mark of another bookmark has
the id, whatever spelling the ids of the others have.  Its start goes to the front of the first
paragraph and its end to the back of the last one: what has opened or closed there or elsewhere
still does.  The ids have to be numbers that are short enough to be read, and the next one short
enough to be written.

## Main definitions

* `Document.Numbered` — the ids can be read, and the next one can be written.
* `Forest.BookmarkedAs` — a body in which a range has been bookmarked.

## Main results

* `Host.addBookmark_is_found` — what adding a bookmark does.
-/

namespace Redline

open Editing Numeral Text

namespace Forest

variable {content : Forest} {name id : String}

/-- A body in which a range has been bookmarked under a name. -/
structure BookmarkedAs (f : Forest) (name id : String) (range : List Handle) (g : Forest) :
    Prop where
  /-- No mark had the id. -/
  freshStart : ∀ b ∈ f.bookmarks, b.id ≠ id
  freshEnd : ∀ stop ∈ f.bookmarkEnds, stop.id ≠ id
  /-- The bookmark stands among the others, which keep their order. -/
  bookmarks : ∃ before after, f.bookmarks = before ++ after ∧
    g.bookmarks = before ++ ⟨name, id, range.head?⟩ :: after
  /-- It has the range. -/
  range : g.bookmarkRange ⟨name, id, range.head?⟩ = range
  /-- The others have the ranges that they had. -/
  others : ∀ b ∈ f.bookmarks, g.bookmarkRange b = f.bookmarkRange b
  listed : g.listed = f.listed

theorem bookmarksIn_append_stop (holder : Option Handle) (f : Forest) (id : String) :
    (f ++ single (.bookmarkEnd id) .nil).bookmarksIn holder = f.bookmarksIn holder := by
  induction f with
  | nil => rfl
  | cons e inside rest _ ih =>
    have hmark : (single (.bookmarkEnd id) .nil).everyParagraph = [] := rfl
    rw [cons_append, bookmarksIn_cons, bookmarksIn_cons, ih, everyParagraph_append, hmark,
      List.append_nil]

section
variable {f g : Forest} {before after : List BookmarkEnd} {stop : BookmarkEnd}
  (hf : f.bookmarkEnds = before ++ after) (hg : g.bookmarkEnds = before ++ stop :: after)
include hf hg

/-- A new end does not close the bookmarks with other ids. -/
theorem closing_of_ne (hne : stop.id ≠ id) : g.closing id = f.closing id := by
  rw [closing, closing, hf, hg, List.find?_append, List.find?_append,
    List.find?_cons_of_neg (by simpa using hne)]

/-- It closes the one with its id, if no other end has the id. -/
theorem closing_of_fresh (hfresh : ∀ other ∈ f.bookmarkEnds, other.id ≠ stop.id) :
    g.closing stop.id = stop.closesIn := by
  have hbefore : before.find? (fun other => other.id == stop.id) = none := by
    rw [List.find?_eq_none]
    intro other hother
    simpa using hfresh other (hf ▸ List.mem_append_left _ hother)
  rw [closing, hg, List.find?_append, hbefore, List.find?_cons_of_pos (by simp)]
  rfl

end

end Forest

namespace Paragraph

/-- A paragraph with a start mark in front of what it holds. -/
def opened (name id : String) (p : Paragraph) : Paragraph :=
  { p with content := .single (.bookmarkStart name id) .nil ++ p.content }

/-- A paragraph with an end mark behind what it holds. -/
def closed (id : String) (p : Paragraph) : Paragraph :=
  { p with content := p.content ++ .single (.bookmarkEnd id) .nil }

theorem isEdit_opened (name id : String) (p : Paragraph) : p.IsEdit (p.opened name id) := by
  refine ⟨rfl, fun hr => Forest.ofKind_append.2 ⟨?_, hr⟩, ?_⟩
  · simp [Forest.ofKind_single, Element.characters]
  · simp [opened, Forest.single, Element.handle?]

theorem everyParagraph_closed (id : String) (p : Paragraph) :
    (p.closed id).content.everyParagraph = p.content.everyParagraph := by
  have hmark : (Forest.single (.bookmarkEnd id) .nil).everyParagraph = [] := rfl
  rw [closed, Forest.everyParagraph_append, hmark, List.append_nil]

end Paragraph

namespace Document

variable {d : Document} {p : Paragraph} {range : List Handle}

/-- The ids of the bookmarks are numbers that can be read, and the number above each of them can be
written. -/
def Numbered (d : Document) : Prop :=
  ∀ b ∈ d.body.bookmarks, ∃ n, integer? b.id.toList = .ok n ∧ n + 1 < bound

section
variable (hd : d.WellFormed) (hp : p ∈ d.paragraphs) (name id : String)
include hd hp

theorem exchanged_opened :
    d.body.Exchanged p (p.opened name id) (d.put (p.opened name id)).body :=
  hd.exchanged_put hp rfl

theorem exchanged_closed : d.body.Exchanged p (p.closed id) (d.put (p.closed id)).body :=
  hd.exchanged_put hp rfl

theorem exists_bookmarks_opened : ∃ before after, d.body.bookmarks = before ++ after ∧
    (d.put (p.opened name id)).body.bookmarks = before ++ ⟨name, id, some p.handle⟩ :: after := by
  obtain ⟨before, after, hf, hg⟩ :=
    (exchanged_opened hd hp name id).exists_bookmarksIn rfl rfl none
  exact ⟨before, p.content.bookmarksIn (some p.handle) ++ after, hf, hg⟩

theorem bookmarkEnds_opened :
    (d.put (p.opened name id)).body.bookmarkEnds = d.body.bookmarkEnds :=
  (exchanged_opened hd hp name id).bookmarkEndsIn_eq rfl rfl rfl none none

theorem bookmarks_closed : (d.put (p.closed id)).body.bookmarks = d.body.bookmarks :=
  (exchanged_closed hd hp id).bookmarksIn_eq rfl (p.everyParagraph_closed id)
    (Forest.bookmarksIn_append_stop _ _ _) none

theorem exists_bookmarkEnds_closed : ∃ before after, d.body.bookmarkEnds = before ++ after ∧
    (d.put (p.closed id)).body.bookmarkEnds = before ++ ⟨id, some p.handle⟩ :: after := by
  obtain ⟨before, after, hf, hg⟩ := (exchanged_closed hd hp id).exists_bookmarkEndsIn rfl
    (p.everyParagraph_closed id) none none
  refine ⟨before ++ p.content.bookmarkEndsIn (some p.handle) none, after, ?_, ?_⟩
  · rw [List.append_assoc]
    exact hf
  · rw [Forest.bookmarkEnds, hg, Paragraph.closed, Forest.bookmarkEndsIn_append]
    simp [Forest.single, Forest.bookmarkEndsIn_cons, Element.closes, Forest.bookmarkEndsIn]

theorem modifyInside_opened :
    d.modifyInside p.handle (Forest.single (.bookmarkStart name id) .nil ++ ·) =
      d.put (p.opened name id) := by
  rw [modifyInside_of_listed hd (mem_listed_iff.2 ⟨p, hp, rfl⟩)]
  exact rewriteAt_eq_put (r := Paragraph.opened name id) hd hp rfl

theorem modifyInside_closed :
    d.modifyInside p.handle (· ++ Forest.single (.bookmarkEnd id) .nil) = d.put (p.closed id) := by
  rw [modifyInside_of_listed hd (mem_listed_iff.2 ⟨p, hp, rfl⟩)]
  exact rewriteAt_eq_put (r := Paragraph.closed id) hd hp rfl

end

/-- A bookmark with an id of its own is found where its marks have been put, and no other one
changes. -/
theorem bookmarkedAs (hd : d.WellFormed) (hs : range <:+: d.body.listed) {first last : Handle}
    (hfirst : range.head? = some first) (hlast : range.getLast? = some last) (name : String)
    {id : String} (hstarts : ∀ b ∈ d.body.bookmarks, b.id ≠ id)
    (hends : ∀ stop ∈ d.body.bookmarkEnds, stop.id ≠ id) :
    d.body.BookmarkedAs name id range
      ((d.modifyInside first (Forest.single (.bookmarkStart name id) .nil ++ ·)).modifyInside last
        (· ++ Forest.single (.bookmarkEnd id) .nil)).body := by
  obtain ⟨p, hp, rfl⟩ := mem_listed_iff.1 (hs.subset (List.mem_of_head? hfirst))
  rw [modifyInside_opened hd hp]
  have hmid : (d.put (p.opened name id)).WellFormed := hd.put hp (p.isEdit_opened name id)
  have hmem : last ∈ (d.put (p.opened name id)).body.listed := by
    rw [listed_put]
    exact hs.subset (List.mem_of_getLast? hlast)
  obtain ⟨q, hq, rfl⟩ := mem_listed_iff.1 hmem
  rw [modifyInside_closed hmid hq]
  obtain ⟨before, after, hold, hnew⟩ := exists_bookmarks_opened hd hp name id
  obtain ⟨front, behind, hmidEnds, hnewEnds⟩ := exists_bookmarkEnds_closed hmid hq id
  rw [bookmarkEnds_opened hd hp] at hmidEnds
  have hlisted : ((d.put (p.opened name id)).put (q.closed id)).body.listed = d.body.listed := by
    rw [listed_put, listed_put]
  refine ⟨hstarts, hends, ⟨before, after, hold, ?_⟩, ?_, fun b hb => ?_, hlisted⟩
  · rw [bookmarks_closed hmid hq, hnew, hfirst]
  · obtain ⟨prior, rest, hsplit⟩ := hs
    have hclosing := Forest.closing_of_fresh hmidEnds hnewEnds hends
    have hn := hd.nodup_listed
    rw [← hsplit, List.append_assoc] at hn
    have hne : range ≠ [] := fun he => by simp [he] at hfirst
    rw [Forest.bookmarkRange_eq_through, hlisted, hclosing, ← hlast, ← hsplit, List.append_assoc]
    exact Forest.through_eq_between hn hne
  · exact Forest.bookmarkRange_congr hlisted
      (Forest.closing_of_ne hmidEnds hnewEnds (Ne.symm (hstarts b hb)))

/-! ### The next number -/

/-- The number that is read off the id of a bookmark. -/
def number (b : Bookmark) : Int := (integer? b.id.toList).toOption.getD 0

theorem number_eq {b : Bookmark} {n : Int} (h : integer? b.id.toList = .ok n) : number b = n := by
  rw [number, h]
  rfl

/-- The number above the highest can be written, and no bookmark has it as its id. -/
theorem Numbered.exists_id (hn : d.Numbered) : ∃ id,
    write (largest (-1) (d.body.bookmarks.map number) + 1) = .ok id ∧
      ∀ b ∈ d.body.bookmarks, b.id ≠ id := by
  rw [Anchor.largest_eq]
  cases hmax : (d.body.bookmarks.map number).max? with
  | none =>
    have hnone : d.body.bookmarks = [] := by simpa using List.max?_eq_none_iff.1 hmax
    refine ⟨_, write_of_lt (Nat.pow_pos (by decide)), fun b hb => ?_⟩
    rw [hnone] at hb
    cases hb
  | some top =>
    obtain ⟨htop, hle⟩ := List.max?_eq_some_iff.1 hmax
    obtain ⟨b, hb, rfl⟩ := List.mem_map.1 htop
    obtain ⟨n, hread, hbelow⟩ := hn b hb
    rw [number_eq hread] at hle
    have hlow := natAbs_lt_of_integer? hread
    have hlt : (n + 1).natAbs < bound := by omega
    rw [Option.getD_some, number_eq hread]
    refine ⟨_, write_of_lt hlt, fun other hother hid => ?_⟩
    have hsame : integer? other.id.toList = .ok (n + 1) := hid ▸ integer?_toString hlt
    have := hle _ (List.mem_map_of_mem hother)
    rw [number_eq hsame] at this
    omega

end Document

namespace Host

variable {host : Host} {range : List Handle} {name : String}

/-- Reads the id of a bookmark. -/
def readId (b : Bookmark) : Editing Int :=
  match integer? b.id.toList with
  | .ok n => pure n
  | .error (.tooLong digits) => fault (.longInteger digits)
  | .error .malformed => fault (.notInteger 10 b.id)

theorem runOn_readId {b : Bookmark} {n : Int} (h : integer? b.id.toList = .ok n) :
    (readId b).runOn host = (.ok (Document.number b), host) := by
  rw [readId, h, Document.number_eq h]
  rfl

/-- An id that has the form of a number and is not read is too long. -/
theorem runOn_readId_of_not_read {b : Bookmark} (hint : integer? b.id.toList ≠ .error .malformed)
    (hunread : ¬ ∃ n, integer? b.id.toList = .ok n) (host : Host) :
    ∃ digits, (readId b).runOn host = (.error (.fault (.longInteger digits)), host) := by
  rw [readId]
  rcases hread : integer? b.id.toList with (_ | digits) | n
  · exact absurd hread hint
  · exact ⟨digits, rfl⟩
  · exact absurd ⟨n, hread⟩ hunread

theorem runOn_readId_snd (b : Bookmark) : ((readId b).runOn host).2 = host := by
  rw [readId]
  split <;> rfl

/-- Puts the marks of a bookmark in. -/
def putMarks (name : String) (range : List Handle) (id : String) : Editing Unit :=
  if !isWritable name.toList then fault .forbiddenCharacter
  else
    match range.head?, range.getLast? with
    | some first, some last => modify fun host => { host with
        document := (host.document.modifyInside first
          (Forest.single (.bookmarkStart name id) .nil ++ ·)).modifyInside last
            (· ++ Forest.single (.bookmarkEnd id) .nil) }
    | _, _ => fault .outOfRange

/-- The ids are read, the next one is written, and then the marks are put in. -/
theorem addBookmark_eq (name : String) (range : List Handle) : addBookmark name range =
    (do
      let d ← openDocument
      let ids ← d.body.bookmarks.mapM readId
      let id ← lift (write (Document.largest (-1) ids + 1))
      putMarks name range id) :=
  rfl

section
variable (hopen : host.isOpen = true)
include hopen

/-- Ids that can be read lead on to the next one. -/
theorem runOn_addBookmark_of_read (hread : ∀ b ∈ host.document.body.bookmarks,
    ∃ n, integer? b.id.toList = .ok n) (name : String) (range : List Handle) :
    (addBookmark name range).runOn host = (do
      let id ← lift (write (Document.largest (-1)
        (host.document.body.bookmarks.map Document.number) + 1))
      putMarks name range id).runOn host := by
  have hids : (host.document.body.bookmarks.mapM readId).runOn host =
      (.ok (host.document.body.bookmarks.map Document.number), host) :=
    runOn_mapM_of_ok fun b hb => by
      obtain ⟨n, hn⟩ := hread b hb
      exact runOn_readId hn
  rw [addBookmark_eq, runOn_bind, runOn_openDocument hopen]
  dsimp only
  rw [runOn_bind, hids]

/-- An id that is too long to be read, or one that leaves no room for the next one, stops the
bookmark before anything has changed. -/
theorem addBookmark_of_not_numbered
    (hints : ∀ b ∈ host.document.body.bookmarks, integer? b.id.toList ≠ .error .malformed)
    (hnot : ¬ host.document.Numbered) (name : String) (range : List Handle) :
    ∃ f : Fault, f.family = .value ∧
      (addBookmark name range).runOn host = (.error (.fault f), host) := by
  by_cases hread : ∀ b ∈ host.document.body.bookmarks, ∃ n, integer? b.id.toList = .ok n
  · obtain ⟨b, hb, hroom⟩ : ∃ b ∈ host.document.body.bookmarks,
        ¬ ∃ n, integer? b.id.toList = .ok n ∧ n + 1 < bound := by
      by_contra hall
      exact hnot fun b hb => by_contra fun h => hall ⟨b, hb, h⟩
    obtain ⟨n, hn⟩ := hread b hb
    have hlarge : bound ≤ n + 1 := not_lt.1 fun hlt => hroom ⟨n, hn, hlt⟩
    obtain ⟨top, htop⟩ : ∃ top,
        (host.document.body.bookmarks.map Document.number).max? = some top :=
      Option.ne_none_iff_exists'.1 fun h =>
        List.ne_nil_of_mem (List.mem_map_of_mem hb) (List.max?_eq_none_iff.1 h)
    have hle := (List.max?_eq_some_iff.1 htop).2 _ (List.mem_map_of_mem hb)
    rw [Document.number_eq hn] at hle
    have hnone : write (top + 1) = .error .unwrittenInteger := write_of_le (by omega)
    refine ⟨.unwrittenInteger, rfl, ?_⟩
    rw [runOn_addBookmark_of_read hopen hread, Anchor.largest_eq, htop, Option.getD_some, hnone]
    rfl
  · obtain ⟨b, hb, hunread⟩ : ∃ b ∈ host.document.body.bookmarks,
        ¬ ∃ n, integer? b.id.toList = .ok n := by
      by_contra hall
      exact hread fun b hb => by_contra fun h => hall ⟨b, hb, h⟩
    obtain ⟨digits, hrun⟩ := runOn_readId_of_not_read (hints b hb) hunread host
    obtain ⟨x, hx, m, hwork, hall⟩ :=
      runOn_mapM_of_error (fun b _ => runOn_readId_snd b) hb hrun
    have hunread' : ¬ ∃ n, integer? x.id.toList = .ok n := by
      rintro ⟨n, hn⟩
      rw [runOn_readId hn] at hwork
      cases hwork
    obtain ⟨more, hrun'⟩ := runOn_readId_of_not_read (hints x hx) hunread' host
    rw [hrun'] at hwork
    cases hwork
    refine ⟨.longInteger more, rfl, ?_⟩
    rw [addBookmark_eq, runOn_bind, runOn_openDocument hopen]
    dsimp only
    rw [runOn_bind, hall]

/-- A bookmark whose number can be written and whose name can be written is added; the name is
refused otherwise. -/
theorem addBookmark_of_numbered (hd : host.document.WellFormed) (hn : host.document.Numbered)
    (hends : ∀ stop ∈ host.document.body.bookmarkEnds,
      ∃ b ∈ host.document.body.bookmarks, b.id = stop.id)
    (hs : range <:+: host.document.body.listed) (hne : range ≠ []) (name : String) :
    (isWritable name.toList = true → ∃ id d,
      (addBookmark name range).runOn host = (.ok (), { host with document := d }) ∧
        host.document.body.BookmarkedAs name id range d.body) ∧
    (isWritable name.toList = false →
      (addBookmark name range).runOn host = (.error (.fault .forbiddenCharacter), host)) := by
  obtain ⟨id, hid, hfresh⟩ := hn.exists_id
  have hread : ∀ b ∈ host.document.body.bookmarks, ∃ n, integer? b.id.toList = .ok n :=
    fun b hb => (hn b hb).imp fun _ h => h.1
  have hrun : (addBookmark name range).runOn host = (putMarks name range id).runOn host := by
    rw [runOn_addBookmark_of_read hopen hread, hid]
    rfl
  refine ⟨fun hw => ?_, fun hw => ?_⟩
  · obtain ⟨first, hfirst⟩ := Option.ne_none_iff_exists'.1 fun h => hne (List.head?_eq_none_iff.1 h)
    obtain ⟨last, hlast⟩ := Option.ne_none_iff_exists'.1 fun h =>
      hne (List.getLast?_eq_none_iff.1 h)
    have hfreshEnd : ∀ stop ∈ host.document.body.bookmarkEnds, stop.id ≠ id := by
      intro stop hstop hsame
      obtain ⟨b, hb, hb'⟩ := hends stop hstop
      exact hfresh b hb (hb'.trans hsame)
    refine ⟨id, _, ?_, Document.bookmarkedAs hd hs hfirst hlast name hfresh hfreshEnd⟩
    rw [hrun, putMarks, hw, hfirst, hlast]
    rfl
  · rw [hrun, putMarks, hw]
    rfl

end

/-- A bookmark that is added to consecutive paragraphs has an id that no mark had, and it is found
with these paragraphs; all other bookmarks keep their order and their paragraphs.  This takes ids
that are numbers, and ends that belong to starts.  A name that cannot be written is refused, and a
number that is too long to be read or to be written stops the bookmark; the host stays as it is
then. -/
theorem addBookmark_is_found (hopen : host.isOpen = true) (hd : host.document.WellFormed)
    (hints : ∀ b ∈ host.document.body.bookmarks, integer? b.id.toList ≠ .error .malformed)
    (hends : ∀ stop ∈ host.document.body.bookmarkEnds,
      ∃ b ∈ host.document.body.bookmarks, b.id = stop.id)
    (hs : range <:+: host.document.body.listed) (hne : range ≠ []) (name : String) :
    (host.document.Numbered →
      (isWritable name.toList = true → ∃ id d,
        (addBookmark name range).runOn host = (.ok (), { host with document := d }) ∧
          host.document.body.BookmarkedAs name id range d.body) ∧
      (isWritable name.toList = false →
        (addBookmark name range).runOn host = (.error (.fault .forbiddenCharacter), host))) ∧
    (¬ host.document.Numbered → ∃ f : Fault, f.family = .value ∧
      (addBookmark name range).runOn host = (.error (.fault f), host)) :=
  ⟨fun hn => addBookmark_of_numbered hopen hd hn hends hs hne name,
    fun hn => addBookmark_of_not_numbered hopen hints hn name range⟩

/-- Bookmarks with ids in several spellings: one from in front of the first line into the cell of a
table, one in the first line, and one without end in the last. -/
def spelledIds : Document where
  body :=
    .cons (.bookmarkStart "around" "+2") .nil
      (.cons (.paragraph ⟨0⟩ "Normal" none)
        (.cons (.bookmarkStart "line" "٠٣") .nil (.cons (.run "a" {}) .nil
          (.single (.bookmarkEnd "٠٣") .nil)))
      (.cons .table (.single .row (.single .cell (.single (.paragraph ⟨1⟩ "Normal" none)
        (.cons (.run "b" {}) .nil (.single (.bookmarkEnd "+2") .nil)))))
      (.single (.paragraph ⟨2⟩ "Normal" none)
        (.cons (.bookmarkStart "open" "-7") .nil (.single (.run "c" {}) .nil)))))
  nextHandle := 3

/-- The cell and the last line are bookmarked with the number four. -/
theorem addBookmark_is_found_spelled :
    ∃ d, (addBookmark "new" [⟨1⟩, ⟨2⟩]).runOn { document := spelledIds } =
        (.ok (), { document := d }) ∧
      d.body.bookmarks = [⟨"around", "+2", some ⟨0⟩⟩, ⟨"line", "٠٣", some ⟨0⟩⟩,
        ⟨"new", "4", some ⟨1⟩⟩, ⟨"open", "-7", some ⟨2⟩⟩] ∧
      d.body.bookmarks.map d.body.bookmarkRange =
        [[⟨0⟩, ⟨1⟩], [⟨0⟩], [⟨1⟩, ⟨2⟩], [⟨2⟩]] := by
  let host : Host := { document := spelledIds }
  have hopen : host.isOpen = true := rfl
  have hread : ∀ b ∈ host.document.body.bookmarks,
      integer? b.id.toList = .ok (Document.number b) ∧ Document.number b ≤ 3 := by decide
  have hbound : 10 ≤ bound := Nat.le_self_pow (by decide) 10
  have hn : host.document.Numbered := fun b hb =>
    ⟨_, (hread b hb).1, by have := (hread b hb).2; omega⟩
  have hints : ∀ b ∈ host.document.body.bookmarks, integer? b.id.toList ≠ .error .malformed := by
    intro b hb hmalformed
    rw [(hread b hb).1] at hmalformed
    cases hmalformed
  have hs : [⟨1⟩, ⟨2⟩] <:+: host.document.body.listed := ⟨[⟨0⟩], [], rfl⟩
  obtain ⟨hadd, -⟩ := addBookmark_is_found hopen (by decide) hints (by decide) hs (by decide) "new"
  obtain ⟨id, d, hrun, -⟩ := (hadd hn).1 (by decide)
  obtain rfl : ((addBookmark "new" [⟨1⟩, ⟨2⟩]).runOn host).2.document = d := by rw [hrun]
  exact ⟨_, hrun, by decide, by decide⟩

/-- A line with a bookmark that has so many nines as its id. -/
def ninesMark (n : Nat) : Document where
  body := .single (.paragraph ⟨0⟩ "Normal" none)
    (.cons (.bookmarkStart "old" (String.ofList (List.replicate n '9'))) .nil
      (.single (.bookmarkEnd (String.ofList (List.replicate n '9'))) .nil))
  nextHandle := 1

/-- The line is not bookmarked again if the number of its bookmark is too long to be read. -/
theorem addBookmark_of_nines {n : Nat} (hn : maxDigits < n) :
    (addBookmark "new" [⟨0⟩]).runOn { document := ninesMark n } =
      (.error (.fault (.longInteger n)), { document := ninesMark n }) := by
  have hrow : IsRow (List.replicate n '9') := isRow_replicate (by decide) (by omega)
  have hlong := integer?_of_long hrow (by rwa [List.length_replicate])
  rw [List.length_replicate] at hlong
  have hrun : (readId ⟨"old", String.ofList (List.replicate n '9'), some ⟨0⟩⟩).runOn
      { document := ninesMark n } =
        (.error (.fault (.longInteger n)), { document := ninesMark n }) := by
    rw [readId, String.toList_ofList, hlong]
    rfl
  have hbookmarks : (ninesMark n).body.bookmarks =
      [⟨"old", String.ofList (List.replicate n '9'), some ⟨0⟩⟩] := rfl
  rw [addBookmark_eq, runOn_bind, runOn_openDocument rfl]
  dsimp only
  rw [runOn_bind, hbookmarks, List.mapM_cons, runOn_bind, hrun]

/-- A line whose bookmark has an integer as its id is not bookmarked again. -/
theorem addBookmark_stopped_by_4301_nines :
    (ninesMark 4301).WellFormed ∧
      (ninesMark 4301).body.bookmarks.map (·.id) = [String.ofList (List.replicate 4301 '9')] ∧
      (ninesMark 4301).body.bookmarkEnds.map (·.id) = [String.ofList (List.replicate 4301 '9')] ∧
      [⟨0⟩] <:+: (ninesMark 4301).body.listed ∧
      (addBookmark "new" [⟨0⟩]).runOn { document := ninesMark 4301 } =
        (.error (.fault (.longInteger 4301)), { document := ninesMark 4301 }) :=
  ⟨by decide, rfl, rfl, ⟨[], [], rfl⟩, addBookmark_of_nines (by decide)⟩

end Host

end Redline
