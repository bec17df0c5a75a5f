import Mathlib.Algebra.BigOperators.Group.List.Basic
import Redline.Proofs.Document.Replacing
import Redline.Proofs.Forest.Gathering
import Redline.Proofs.Forest.Order

/-!
# Bookmarks of a document whose paragraphs are replaced

The range of a bookmark runs from the paragraph that it opens in through the one that it closes in.
When consecutive paragraphs give way to new ones, every bookmark keeps its place among those that
stay.

## Main definitions

* `Forest.Tidy` — marks stand where they can be told by their places.
* `Document.GivesWay` — a range of which nothing has to remain.
* `Document.Replaceable` — consecutive paragraphs and new ones that may take their place.
-/

namespace Redline

namespace Forest

variable {f : Forest} {h : Handle} {o : Opening} {c : Closing}

/-- No mark stands in a text box, ends have ids of their own, and an end between paragraphs does not
follow a text box. -/
structure Tidy (f : Forest) : Prop where
  sober : ∀ p ∈ f.paragraphs, p.content.Sober
  distinct : f.stops.Nodup
  follows : ∀ c ∈ f.closings [], ∀ segment, c.place = .between segment → ∀ p ∈ f.paragraphs,
    segment.getLast? = some p.handle → p.content.everyParagraph = []

/-! ## Ranges -/

theorem mem_listed_of_first? (ho : o ∈ f.openings []) (ha : o.place.first? = some h) :
    h ∈ f.listed := by
  cases hp : o.place with
  | inside k =>
    obtain rfl : k = h := by simpa [hp, Place.first?] using ha
    exact mem_listed_of_mem_openings ho hp
  | between segment =>
    have hpart := infix_of_mem_openings ho hp
    rw [List.append_nil] at hpart
    exact hpart.subset (List.mem_of_head? (by simpa [hp, Place.first?] using ha))

theorem mem_listed_of_last? (hc : c ∈ f.closings []) (hz : c.place.last? = some h) :
    h ∈ f.listed := by
  cases hp : c.place with
  | inside k =>
    obtain rfl : k = h := by simpa [hp, Place.last?] using hz
    exact mem_listed_of_mem_closings hc hp
  | between segment =>
    have hpart := infix_of_mem_closings hc hp
    exact hpart.subset (List.mem_of_getLast? (by simpa [hp, Place.last?] using hz))

/-- What a bookmark covers: the paragraph that it opens in, and what follows through the one that it
closes in. -/
theorem mem_bookmarkRange (hn : f.listed.Nodup) {b : Bookmark} :
    h ∈ f.bookmarkRange b ↔ ∃ a ∈ f.listed, b.opensIn = some a ∧ h ∈ f.listed ∧
      f.listed.idxOf a ≤ f.listed.idxOf h ∧ (h = a ∨ ∃ z ∈ f.listed,
        (f.bookmarkEnds.find? fun stop => stop.id == b.id).bind (·.closesIn) = some z ∧
          f.listed.idxOf h ≤ f.listed.idxOf z) := by
  have hlisted : f.paragraphs.map (·.handle) = f.listed := rfl
  cases ho : b.opensIn with
  | none => simp [bookmarkRange, ho]
  | some first =>
    by_cases hf : first ∈ f.listed
    · have hself : ∀ {x}, x ∈ f.listed → f.listed.idxOf first ≤ f.listed.idxOf x →
          f.listed.idxOf x ≤ f.listed.idxOf first → x = first :=
        fun hx hlo hhi => eq_of_idxOf_eq hx (Nat.le_antisymm hhi hlo)
      simp only [bookmarkRange, ho, hlisted, findIdx?_beq hf, Option.some.injEq]
      cases (f.bookmarkEnds.find? fun stop => stop.id == b.id).bind (·.closesIn) with
      | none =>
        simp only [Option.getD_none, findIdx?_beq hf, Option.getD_some, max_self, mem_slice hn]
        constructor
        · rintro ⟨hl, hlo, hhi⟩
          exact ⟨first, hf, rfl, hl, hlo, .inl (hself hl hlo hhi)⟩
        · rintro ⟨_, _, rfl, hl, hlo, rfl | ⟨_, _, hz, _⟩⟩
          · exact ⟨hl, hlo, le_rfl⟩
          · cases hz
      | some z =>
        by_cases hz : z ∈ f.listed
        · simp only [Option.getD_some, findIdx?_beq hz, mem_slice hn]
          constructor
          · rintro ⟨hl, hlo, hhi⟩
            refine ⟨first, hf, rfl, hl, hlo, ?_⟩
            rcases le_max_iff.1 hhi with hhi | hhi
            · exact .inl (hself hl hlo hhi)
            · exact .inr ⟨z, hz, rfl, hhi⟩
          · rintro ⟨_, _, rfl, hl, hlo, rfl | ⟨_, _, hzeq, hhi⟩⟩
            · exact ⟨hl, hlo, le_max_left _ _⟩
            · obtain rfl := Option.some.inj hzeq
              exact ⟨hl, hlo, le_max_of_le_right hhi⟩
        · simp only [Option.getD_some, findIdx?_beq_of_notMem hz, Option.getD_none, max_self,
            mem_slice hn]
          constructor
          · rintro ⟨hl, hlo, hhi⟩
            exact ⟨first, hf, rfl, hl, hlo, .inl (hself hl hlo hhi)⟩
          · rintro ⟨_, _, rfl, hl, hlo, rfl | ⟨_, hzl, hzeq, _⟩⟩
            · exact ⟨hl, hlo, le_rfl⟩
            · exact absurd (Option.some.inj hzeq ▸ hzl) hz
    · simp only [bookmarkRange, ho, hlisted, findIdx?_beq_of_notMem hf]
      constructor
      · intro hh
        cases hh
      · rintro ⟨a, ha, heq, _⟩
        exact absurd (Option.some.inj heq ▸ ha) hf

namespace Tidy

variable (hf : f.Tidy)
include hf

theorem bookmarks_eq : f.bookmarks = (f.openings []).map Opening.bookmark :=
  Forest.bookmarks_eq hf.sober

theorem bookmarkEnds_eq : f.bookmarkEnds = (f.closings []).map Closing.bookmarkEnd := by
  let plain h := ∀ p ∈ f.paragraphs, p.handle = h → p.content.everyParagraph = []
  refine Forest.bookmarkEnds_eq plain hf.sober (fun p hp h => h p hp rfl)
    ⟨fun _ => rfl, by simp⟩ fun c hc segment hs h hh p hp he => ?_
  exact hf.follows c hc segment hs p hp (he ▸ hh)

/-- The end of a bookmark is found by its id. -/
theorem find?_bookmarkEnds (hc : c ∈ f.closings []) :
    f.bookmarkEnds.find? (fun stop => stop.id == c.id) = some c.bookmarkEnd := by
  have hkeys : (f.bookmarkEnds.map (·.id)).Nodup := by
    rw [hf.bookmarkEnds_eq, List.map_map]
    change ((f.closings []).map (·.id)).Nodup
    rw [map_closings]
    exact hf.distinct
  have hstop : c.bookmarkEnd ∈ f.bookmarkEnds := hf.bookmarkEnds_eq ▸ List.mem_map_of_mem hc
  exact find?_key hkeys hstop

/-- The closing paragraph of a bookmark comes from an end mark with its id. -/
theorem exists_closing {id : String} {z : Handle}
    (h : (f.bookmarkEnds.find? fun stop => stop.id == id).bind (·.closesIn) = some z) :
    ∃ c ∈ f.closings [], c.id = id ∧ c.place.last? = some z := by
  obtain ⟨stop, hstop, hz⟩ := Option.bind_eq_some_iff.1 h
  have hmem := List.mem_of_find?_eq_some hstop
  rw [hf.bookmarkEnds_eq] at hmem
  obtain ⟨c, hc, rfl⟩ := List.mem_map.1 hmem
  have hid : c.bookmarkEnd.id = id := by simpa using List.find?_some hstop
  exact ⟨c, hc, hid, hz⟩

end Tidy

end Forest

/-! ## Replacing a range -/

namespace Forest

/-- Neither marks nor text boxes with paragraphs stand in a forest. -/
structure Unmarked (f : Forest) : Prop where
  starts : f.starts = []
  stops : f.stops = []
  everyParagraph : f.everyParagraph = []

variable (change : RunFormat → RunFormat)

@[simp] theorem starts_formatRuns (f : Forest) : (f.formatRuns change).starts = f.starts := by
  induction f with
  | nil => rfl
  | cons e inside rest _ ih => cases e <;> simp [formatRuns, Element.opens, ih]

@[simp] theorem stops_formatRuns (f : Forest) : (f.formatRuns change).stops = f.stops := by
  induction f with
  | nil => rfl
  | cons e inside rest _ ih => cases e <;> simp [formatRuns, Element.closes, ih]

@[simp] theorem everyParagraph_formatRuns (f : Forest) :
    (f.formatRuns change).everyParagraph = f.everyParagraph := by
  induction f with
  | nil => rfl
  | cons e inside rest _ ih => cases e <;> simp [formatRuns, everyParagraph, ih]

theorem Unmarked.formatRuns {f : Forest} (hf : f.Unmarked) : (f.formatRuns change).Unmarked :=
  ⟨by simp [hf.starts], by simp [hf.stops], by simp [hf.everyParagraph]⟩

end Forest

namespace Document

open Forest

variable {d : Document} {first : Handle} {others range : List Handle} {news : List Paragraph}

@[simp] theorem stops_startsOf (range : List Handle) (d : Document) :
    (d.startsOf range).stops = [] := by
  rw [startsOf, stops, collect_join, List.flatMap_eq_nil_iff]
  intro f hf
  obtain ⟨h, _, rfl⟩ := List.mem_map.1 hf
  exact stops_startMarks _

@[simp] theorem starts_endsOf (range : List Handle) (d : Document) :
    (d.endsOf range).starts = [] := by
  rw [endsOf, starts, collect_join, List.flatMap_eq_nil_iff]
  intro f hf
  obtain ⟨h, _, rfl⟩ := List.mem_map.1 hf
  exact starts_endMarks _

theorem starts_startsOf (range : List Handle) (d : Document) :
    (d.startsOf range).starts = range.flatMap fun h => (d.inside h).starts := by
  rw [startsOf, starts, collect_join, List.flatMap_map]
  exact List.flatMap_congr fun h _ => starts_startMarks _

theorem stops_endsOf (range : List Handle) (d : Document) :
    (d.endsOf range).stops = range.flatMap fun h => (d.inside h).stops := by
  rw [endsOf, stops, collect_join, List.flatMap_map]
  exact List.flatMap_congr fun h _ => stops_endMarks _

/-- What stands for a paragraph when a range has been replaced, by handles. -/
def image (d : Document) (first : Handle) (others news : List Handle) (h : Handle) : List Handle :=
  if h = first then news else if h ∉ others ∨ d.body.Remains others h then [h] else []

theorem listed_replacing (hne : news ≠ []) (p : Paragraph) :
    (d.replacing first others news p).listed =
      d.image first others (news.map (·.handle)) p.handle := by
  rw [replacing, listed_cleared, image, listed_leave]
  split
  · simp [listed_join_tree, hne]
  · rfl

/-- The new paragraphs give nothing. -/
theorem collect_join_tree {α : Type} (give : Element → List α)
    (hg : ∀ p : Paragraph, give p.element = [])
    (hc : ∀ q ∈ news, q.content.collect give = []) :
    (Forest.join (news.map Paragraph.tree)).collect give = [] := by
  rw [collect_join, List.flatMap_map, List.flatMap_eq_nil_iff]
  intro q hq
  simp [Paragraph.tree, single, hg, hc q hq]

/-- Nothing of the range has to remain: if there are no new paragraphs, its first one is not the
last of a cell. -/
def GivesWay (d : Document) (first : Handle) (others : List Handle) (news : List Paragraph) :
    Prop :=
  news = [] → ¬ d.body.Remains (others ++ [first]) first

theorem givesWay_of_ne_nil (hne : news ≠ []) : d.GivesWay first others news :=
  fun hnil => absurd hnil hne

/-- What stands in the place of the first paragraph. -/
theorem replacing_of_givesWay (hw : d.GivesWay first others news) {p : Paragraph}
    (hp : p.handle = first) :
    d.replacing first others news p = d.startsOf (first :: others) ++
      (Forest.join (news.map Paragraph.tree) ++ d.endsOf (first :: others)) := by
  rw [replacing, cleared, if_pos hp, if_neg fun h => hw h.1 h.2, append_nil]

theorem replacing_others {p : Paragraph} (hp : p.handle ≠ first) :
    d.replacing first others news p = d.body.leave others p := by
  rw [replacing, cleared, if_neg hp]

theorem collect_leave {α : Type} {give : Element → List α}
    (hg : ∀ p : Paragraph, give p.element = []) {p : Paragraph} (hp : p.handle ∈ others) :
    (d.body.leave others p).collect give = [] := by
  rw [leave, if_pos hp]
  split
  · simp [Paragraph.tree, single, hg, Paragraph.emptied]
  · rfl

/-- What becomes of the marks of a paragraph. -/
theorem regrouped_replacing (hne : news ≠ []) (hb : ∀ q ∈ news, q.content.Unmarked)
    (p : Paragraph) :
    Regrouped (first :: others) (d.startsOf (first :: others)).starts
      (d.endsOf (first :: others)).stops (news.map (·.handle)) p
      (d.replacing first others news p) := by
  by_cases hp : p.handle = first
  · rw [replacing_of_givesWay (givesWay_of_ne_nil hne) hp]
    exact .gathered (allMarks_startsOf _ d) (allMarks_endsOf _ d) rfl (by simp) (by simp) rfl
      (collect_join_tree _ (fun _ => rfl) fun q hq => (hb q hq).starts)
      (collect_join_tree _ (fun _ => rfl) fun q hq => (hb q hq).stops) (listed_join_tree news)
  · rw [replacing_others hp]
    by_cases ho : p.handle ∈ others
    · exact .bare (collect_leave (fun _ => rfl) ho) (collect_leave (fun _ => rfl) ho)
    · rw [leave, if_neg ho]
      exact .kept (by simp [hp, ho])

/-- Collecting what a part of a list has at its first item changes no sum. -/
theorem sum_gathered {L : List Handle} (hn : L.Nodup) (hs : (first :: others).Sublist L)
    (G : Handle → Nat) :
    (L.map fun h => if h = first then ((first :: others).map G).sum
      else if h ∈ others then 0 else G h).sum = (L.map G).sum := by
  have hfirst : first ∉ others := (List.nodup_cons.1 (hn.sublist hs)).1
  have hperm : L.Perm ((first :: others) ++ L.filter (· ∉ first :: others)) := by
    have := (List.filter_append_perm (· ∈ first :: others) L).symm
    rw [filter_eq_part hn hs] at this
    simpa using this
  have hothers : (others.map fun h => if h = first then ((first :: others).map G).sum
      else if h ∈ others then 0 else G h).sum = 0 := by
    rw [List.sum_eq_zero]
    intro n hmem
    obtain ⟨h, hh, rfl⟩ := List.mem_map.1 hmem
    rw [if_neg fun he : h = first => hfirst (he ▸ hh), if_pos hh]
  have hrest : ((L.filter (· ∉ first :: others)).map fun h =>
      if h = first then ((first :: others).map G).sum else if h ∈ others then 0 else G h) =
        (L.filter (· ∉ first :: others)).map G := by
    refine List.map_congr_left fun h hh => ?_
    have hout : h ∉ first :: others := by simpa using List.of_mem_filter hh
    rw [List.mem_cons, not_or] at hout
    rw [if_neg hout.1, if_neg hout.2]
  rw [(hperm.map _).sum_eq, (hperm.map G).sum_eq, List.map_append, List.map_append, List.sum_append,
    List.sum_append, hrest, List.map_cons, List.sum_cons, hothers, if_pos rfl, Nat.add_zero]

section
variable (hd : d.WellFormed) (hs : (first :: others).Sublist d.body.listed)
  {between : Paragraph → Forest}
include hd hs

/-- What the paragraphs of a range give is gathered with their marks. -/
theorem perm_collect_cleared {α : Type} [DecidableEq α] {give : Element → List α}
    (hg : ∀ p : Paragraph, give p.element = [])
    (hgathered : (d.startsOf (first :: others)).collect give ++
      (d.endsOf (first :: others)).collect give =
        (first :: others).flatMap fun h => (d.inside h).collect give)
    (hbetween : ∀ p : Paragraph, p.handle = first → (between p).collect give = []) :
    ((d.body.rewrite (d.cleared first others between)).collect give).Perm
      (d.body.collect give) := by
  rw [List.perm_iff_count]
  intro x
  have hcount := count_collect_rewrite hg (d.cleared first others between) x d.body
  let G h := ((d.inside h).collect give).count x
  have hbefore : (d.body.paragraphs.map fun p => (p.content.collect give).count x) =
      d.body.listed.map G := by
    rw [Forest.listed, List.map_map]
    refine List.map_congr_left fun p hp => ?_
    simp only [G, Function.comp, hd.inside_eq_content hp]
  have hafter : (d.body.paragraphs.map fun p =>
      ((d.cleared first others between p).collect give).count x) =
        d.body.listed.map fun h => if h = first then ((first :: others).map G).sum
          else if h ∈ others then 0 else G h := by
    rw [Forest.listed, List.map_map]
    refine List.map_congr_left fun p hp => ?_
    simp only [Function.comp, cleared]
    split
    · next hf =>
      rw [collect_append, collect_append, hbetween p hf, List.nil_append, hgathered,
        List.count_flatMap]
      rfl
    · split
      · next ho => simp [collect_leave hg ho]
      · next ho => simp [leave, ho, Paragraph.tree, single, hg, G, hd.inside_eq_content hp]
  have hsum := sum_gathered (hd.nodup_listed) hs G
  rw [hbefore, hafter, hsum] at hcount
  omega

/-- No start mark is lost or doubled. -/
theorem perm_starts_cleared (hb : ∀ p : Paragraph, p.handle = first → (between p).starts = []) :
    (d.body.rewrite (d.cleared first others between)).starts.Perm d.body.starts := by
  refine perm_collect_cleared hd hs (fun _ => rfl) ?_ hb
  have hends : (d.endsOf (first :: others)).collect Element.opens = [] := starts_endsOf _ d
  rw [hends, List.append_nil]
  exact starts_startsOf _ d

/-- No end mark is lost or doubled. -/
theorem perm_stops_cleared (hb : ∀ p : Paragraph, p.handle = first → (between p).stops = []) :
    (d.body.rewrite (d.cleared first others between)).stops.Perm d.body.stops := by
  refine perm_collect_cleared hd hs (fun _ => rfl) ?_ hb
  have hstarts : (d.startsOf (first :: others)).collect Element.closes = [] := stops_startsOf _ d
  rw [hstarts, List.nil_append]
  exact stops_endsOf _ d

theorem perm_starts_replacing (hb : ∀ q ∈ news, q.content.Unmarked) :
    (d.body.rewrite (d.replacing first others news)).starts.Perm d.body.starts := by
  refine perm_starts_cleared hd hs fun p _ => ?_
  have hjoin : (Forest.join (news.map Paragraph.tree)).starts = [] :=
    collect_join_tree Element.opens (fun _ => rfl) fun q hq => (hb q hq).starts
  rw [starts_append, hjoin, List.nil_append]
  split <;> rfl

theorem perm_stops_replacing (hb : ∀ q ∈ news, q.content.Unmarked) :
    (d.body.rewrite (d.replacing first others news)).stops.Perm d.body.stops := by
  refine perm_stops_cleared hd hs fun p _ => ?_
  have hjoin : (Forest.join (news.map Paragraph.tree)).stops = [] :=
    collect_join_tree Element.closes (fun _ => rfl) fun q hq => (hb q hq).stops
  rw [stops_append, hjoin, List.nil_append]
  split <;> rfl

end

/-! ## Paragraphs that are left -/

theorem mem_paragraphs_replacing (hd : d.WellFormed) (hs : (first :: others).Sublist d.body.listed)
    (hne : news ≠ []) {q : Paragraph}
    (hq : q ∈ (d.body.rewrite (d.replacing first others news)).paragraphs) :
    q ∈ news ∨ (∃ p ∈ d.paragraphs, d.LastOfCell others p ∧ q = p.emptied) ∨
      (q ∈ d.paragraphs ∧ q.handle ∉ first :: others) := by
  rw [paragraphs_rewrite, List.mem_flatMap] at hq
  obtain ⟨p, hp, hq⟩ := hq
  rw [paragraphs_replacing hd hs news hp, replaced] at hq
  split at hq
  · exact .inl (by simpa [hne] using hq)
  · next hf =>
    split at hq
    · split at hq
      · next hlast => exact .inr (.inl ⟨p, hp, hlast, List.mem_singleton.1 hq⟩)
      · cases hq
    · next ho =>
      obtain rfl := List.mem_singleton.1 hq
      exact .inr (.inr ⟨hp, by simp [hf, ho]⟩)

theorem image_of_notMem {newHandles : List Handle} {h : Handle} (hh : h ∉ first :: others) :
    d.image first others newHandles h = [h] := by
  rw [List.mem_cons, not_or] at hh
  rw [image, if_neg hh.1, if_pos (.inl hh.2)]

theorem mem_image_of_notMem {newHandles : List Handle} {h : Handle} (hh : h ∉ first :: others) :
    h ∈ d.image first others newHandles h := by
  rw [image_of_notMem hh]
  exact List.mem_singleton_self h

theorem mem_image {newHandles : List Handle} {h k : Handle}
    (hk : k ∈ d.image first others newHandles h) : (h = first ∧ k ∈ newHandles) ∨ k = h := by
  rw [image] at hk
  split at hk
  · next hf => exact .inl ⟨hf, hk⟩
  · split at hk
    · exact .inr (List.mem_singleton.1 hk)
    · cases hk

/-- Consecutive paragraphs of a well-formed document may give way to new ones. -/
structure Replaceable (d : Document) (first : Handle) (others : List Handle)
    (news : List Paragraph) : Prop where
  wellFormed : d.WellFormed
  consecutive : (first :: others) <:+: d.body.listed
  nonempty : news ≠ []
  unmarked : ∀ q ∈ news, q.content.Unmarked
  fresh : ∀ q ∈ news, q.handle ∉ d.body.listed
  nodup : (d.body.rewrite (d.replacing first others news)).listed.Nodup

namespace Replaceable

variable (hs : d.Replaceable first others news)
include hs

theorem notMem_listed {h : Handle} (hh : h ∈ news.map (·.handle)) : h ∉ d.body.listed := by
  obtain ⟨p, hp, rfl⟩ := List.mem_map.1 hh
  exact hs.fresh p hp

theorem first_mem : first ∈ d.body.listed := hs.consecutive.subset List.mem_cons_self

theorem listed_eq : (d.body.rewrite (d.replacing first others news)).listed =
    d.body.listed.flatMap (d.image first others (news.map (·.handle))) :=
  listed_rewrite_eq fun p _ => listed_replacing hs.nonempty p

theorem mem_paragraphs {q : Paragraph}
    (hq : q ∈ (d.body.rewrite (d.replacing first others news)).paragraphs) :
    q ∈ news ∨ (∃ p ∈ d.paragraphs, d.LastOfCell others p ∧ q = p.emptied) ∨
      (q ∈ d.paragraphs ∧ q.handle ∉ first :: others) :=
  mem_paragraphs_replacing hs.wellFormed hs.consecutive.sublist hs.nonempty hq

/-- A start mark has stood where it stands, has the same surroundings, or has been gathered. -/
theorem mem_openings {o : Opening}
    (ho : o ∈ (d.body.rewrite (d.replacing first others news)).openings []) :
    (∃ h, h ∉ first :: others ∧ o.place = .inside h ∧ o ∈ d.body.openings []) ∨
      (∃ segment, o.place =
          .between (segment.flatMap (d.image first others (news.map (·.handle)))) ∧
        ⟨o.name, o.id, .between segment⟩ ∈ d.body.openings []) ∨
      ((o.name, o.id) ∈ (d.startsOf (first :: others)).starts ∧
        ∃ behind, o.place = .between (news.map (·.handle) ++ behind)) :=
  mem_openings_rewrite (fun p _ => listed_replacing hs.nonempty p)
    (fun p _ => regrouped_replacing hs.nonempty hs.unmarked p) ho

/-- An end mark has stood where it stands, has the same surroundings, or has been gathered. -/
theorem mem_closings {c : Closing}
    (hc : c ∈ (d.body.rewrite (d.replacing first others news)).closings []) :
    (∃ h, h ∉ first :: others ∧ c.place = .inside h ∧ c ∈ d.body.closings []) ∨
      (∃ segment, c.place =
          .between (segment.flatMap (d.image first others (news.map (·.handle)))) ∧
        ⟨c.id, .between segment⟩ ∈ d.body.closings []) ∨
      (c.id ∈ (d.endsOf (first :: others)).stops ∧
        ∃ before, c.place = .between (before ++ news.map (·.handle))) :=
  @mem_closings_rewrite _ _ [] _ _ _ _ _ _ (fun p _ => listed_replacing hs.nonempty p)
    (fun p _ => regrouped_replacing hs.nonempty hs.unmarked p) hc

/-! ## Tidiness is kept -/

/-- A paragraph outside of the range that comes to be the last of consecutive ones has been so. -/
theorem getLast?_of_flatMap_image {segment : List Handle} (hpart : segment <:+: d.body.listed)
    {k : Handle} (hk : k ∈ d.body.listed) (hout : k ∉ first :: others)
    (hlast : (segment.flatMap (d.image first others (news.map (·.handle)))).getLast? = some k) :
    segment.getLast? = some k := by
  have hl := hs.wellFormed.nodup_listed
  have hr := hs.consecutive
  have hn := hs.listed_eq ▸ hs.nodup
  have hks : k ∈ segment := by
    obtain ⟨u, hu, hku⟩ := List.mem_flatMap.1 (List.mem_of_getLast? hlast)
    rcases mem_image hku with ⟨_, hnew⟩ | rfl
    · exact absurd hk (hs.notMem_listed hnew)
    · exact hu
  cases hz : segment.getLast? with
  | none => simp [List.getLast?_eq_none_iff.1 hz] at hks
  | some z =>
    by_contra hzk
    have hzs := List.mem_of_getLast? hz
    have hzr : z ∈ first :: others := by
      by_contra hzout
      obtain ⟨front, rfl⟩ := List.getLast?_eq_some_iff.1 hz
      rw [List.flatMap_append, List.flatMap_singleton, image_of_notMem hzout,
        List.getLast?_concat] at hlast
      exact hzk hlast
    -- the first paragraph of the range stands between the two, so the new ones come behind `k`
    have hkz := idxOf_le_getLast hl hpart hz hks
    have hkf := lt_idxOf_of_notMem hl hr hzr (List.mem_cons_self (a := first)) hk hout hkz
    have hfz := idxOf_head_le hl hr rfl hzr
    have hfs : first ∈ segment := by
      by_contra hfs
      have := idxOf_lt_of_notMem hl hpart hks hzs hs.first_mem hfs hkf.le
      omega
    obtain ⟨q, hq⟩ := List.exists_mem_of_ne_nil _ hs.nonempty
    have hqi : q.handle ∈ d.image first others (news.map (·.handle)) first := by
      simpa [image] using ⟨q, hq, rfl⟩
    have hsegment : segment.flatMap (d.image first others (news.map (·.handle))) <:+:
        d.body.listed.flatMap (d.image first others (news.map (·.handle))) := by
      obtain ⟨front, tail, h⟩ := hpart
      exact ⟨front.flatMap _, tail.flatMap _, by rw [← h, List.flatMap_append, List.flatMap_append]⟩
    have hle := idxOf_le_getLast hn hsegment hlast (List.mem_flatMap.2 ⟨first, hfs, hqi⟩)
    have := idxOf_le_of_flatMap hn hs.first_mem hk hqi (mem_image_of_notMem hout) hle
    omega

variable (ht : d.body.Tidy)
include ht

theorem follows {c : Closing}
    (hc : c ∈ (d.body.rewrite (d.replacing first others news)).closings [])
    {segment : List Handle} (hp : c.place = .between segment) {q : Paragraph}
    (hq : q ∈ (d.body.rewrite (d.replacing first others news)).paragraphs)
    (hlast : segment.getLast? = some q.handle) : q.content.everyParagraph = [] := by
  rcases hs.mem_paragraphs hq with hq | ⟨p, _, _, rfl⟩ | ⟨hq, hout⟩
  · exact (hs.unmarked q hq).everyParagraph
  · rfl
  · have hql : q.handle ∈ d.body.listed := mem_listed_iff.2 ⟨q, hq, rfl⟩
    rcases hs.mem_closings hc with ⟨h, _, hp', _⟩ | ⟨old, hp', hold⟩ | ⟨_, front, hp'⟩
    · rw [hp'] at hp
      cases hp
    · obtain rfl := Place.between.inj (hp'.symm.trans hp)
      exact ht.follows _ hold old rfl q hq
        (hs.getLast?_of_flatMap_image (infix_of_mem_closings hold rfl) hql hout hlast)
    · obtain rfl := Place.between.inj (hp'.symm.trans hp)
      rw [List.getLast?_append_of_ne_nil _ (by simpa using hs.nonempty)] at hlast
      exact absurd hql (hs.notMem_listed (List.mem_of_getLast? hlast))

theorem tidy : (d.body.rewrite (d.replacing first others news)).Tidy where
  sober q hq := by
    rcases hs.mem_paragraphs hq with hq | ⟨p, _, _, rfl⟩ | ⟨hq, _⟩
    · have hnone := (hs.unmarked q hq).everyParagraph
      rw [everyParagraph_eq, List.flatMap_eq_nil_iff] at hnone
      exact fun p hp => absurd (hnone p hp) (by simp)
    · exact fun p hp => by simp [Paragraph.emptied] at hp
    · exact ht.sober q hq
  distinct := ((perm_stops_replacing hs.wellFormed hs.consecutive.sublist
    hs.unmarked).nodup_iff).2 ht.distinct
  follows _ hc _ hp _ hq hlast := hs.follows ht hc hp hq hlast

end Replaceable

end Document

end Redline
