import Redline.Proofs.Document.Bookmarks

/-!
# What bookmarks cover when a range is replaced

When consecutive paragraphs give way to new ones, a bookmark covers what it has covered and what has
come in its place: new paragraphs, and paragraphs that stay emptied as the last of a cell.  A start
mark that stands between paragraphs is not gathered.  If a range that begins in front of it takes all
its paragraphs, it opens in whatever follows: that is the one exception.

## Main definitions

* `Document.Stranded` — a bookmark that is left without any of its paragraphs.
-/

namespace Redline

namespace Forest

variable {f : Forest} {o : Opening} {c : Closing} {a h k : Handle}

theorem Tidy.mem_bookmarks (hf : f.Tidy) (ho : o ∈ f.openings []) : o.bookmark ∈ f.bookmarks :=
  hf.bookmarks_eq ▸ List.mem_map_of_mem ho

/-- A bookmark covers the paragraph that it opens in. -/
theorem mem_bookmarkRange_self (hn : f.listed.Nodup) (ho : o ∈ f.openings [])
    (ha : o.place.first? = some a) : a ∈ f.bookmarkRange o.bookmark := by
  have hal := mem_listed_of_first? ho ha
  exact (mem_bookmarkRange hn).2 ⟨a, hal, ha, hal, le_rfl, .inl rfl⟩

/-- What stands before a covered paragraph, but not before the opening one, is covered. -/
theorem mem_bookmarkRange_of_le (hn : f.listed.Nodup) (ha : o.place.first? = some a)
    (hk : k ∈ f.bookmarkRange o.bookmark) (hl : h ∈ f.listed)
    (hah : f.listed.idxOf a ≤ f.listed.idxOf h) (hhk : f.listed.idxOf h ≤ f.listed.idxOf k) :
    h ∈ f.bookmarkRange o.bookmark := by
  obtain ⟨b, hbl, hb, hkl, _, hcase⟩ := (mem_bookmarkRange hn).1 hk
  obtain rfl : a = b := Option.some.inj (ha.symm.trans hb)
  refine (mem_bookmarkRange hn).2 ⟨a, hbl, hb, hl, hah, ?_⟩
  rcases hcase with rfl | ⟨z, hz, hclosing, hkz⟩
  · exact .inl (eq_of_idxOf_eq hl (Nat.le_antisymm hhk hah))
  · exact .inr ⟨z, hz, hclosing, hhk.trans hkz⟩

/-- What stands between the opening and the closing paragraph is covered. -/
theorem Tidy.mem_bookmarkRange_of_closing (hf : f.Tidy) (hn : f.listed.Nodup)
    (ho : o ∈ f.openings []) (ha : o.place.first? = some a) (hl : h ∈ f.listed)
    (hah : f.listed.idxOf a ≤ f.listed.idxOf h) (hc : c ∈ f.closings []) (hid : c.id = o.id)
    (hk : c.place.last? = some k) (hhk : f.listed.idxOf h ≤ f.listed.idxOf k) :
    h ∈ f.bookmarkRange o.bookmark := by
  refine (mem_bookmarkRange hn).2
    ⟨a, mem_listed_of_first? ho ha, ha, hl, hah, .inr ⟨k, mem_listed_of_last? hc hk, ?_, hhk⟩⟩
  have hfind := hf.find?_bookmarkEnds hc
  rw [hid] at hfind
  rw [show o.bookmark.id = o.id from rfl, hfind]
  exact hk

end Forest

namespace Document

open Forest

variable {d : Document} {first : Handle} {others : List Handle} {news : List Paragraph}

/-- The bookmark opens between paragraphs and covers some, none of which is left; nor does it cover
the first paragraph of the range, in whose place new ones stand. -/
def Stranded (d : Document) (first : Handle) (left : List Handle) (b : Bookmark) : Prop :=
  (∃ segment, ⟨b.name, b.id, .between segment⟩ ∈ d.body.openings []) ∧
    d.body.bookmarkRange b ≠ [] ∧ first ∉ d.body.bookmarkRange b ∧
      ∀ h ∈ d.body.bookmarkRange b, h ∉ left

namespace Replaceable

variable (hs : d.Replaceable first others news)
include hs

/-- What has come of the paragraphs before one comes before what has come of that. -/
theorem idxOf_le {u v h k : Handle} (hu : u ∈ d.body.listed) (hv : v ∈ d.body.listed)
    (hhu : h ∈ d.image first others (news.map (·.handle)) u)
    (hkv : k ∈ d.image first others (news.map (·.handle)) v)
    (hle : (d.body.rewrite (d.replacing first others news)).listed.idxOf h ≤
      (d.body.rewrite (d.replacing first others news)).listed.idxOf k) :
    d.body.listed.idxOf u ≤ d.body.listed.idxOf v := by
  have hn := hs.listed_eq ▸ hs.nodup
  rw [hs.listed_eq] at hle
  exact idxOf_le_of_flatMap hn hu hv hhu hkv hle

/-- A paragraph of the document that is left stands for itself. -/
theorem mem_image_self {h : Handle} (hl : h ∈ d.body.listed)
    (hleft : h ∈ (d.body.rewrite (d.replacing first others news)).listed) :
    h ∈ d.image first others (news.map (·.handle)) h := by
  rw [hs.listed_eq, List.mem_flatMap] at hleft
  obtain ⟨u, _, hu⟩ := hleft
  rcases mem_image hu with ⟨_, hnew⟩ | rfl
  · exact absurd hl (hs.notMem_listed hnew)
  · exact hu

/-- A paragraph of the document that is not left belongs to the range. -/
theorem mem_of_gone {h : Handle} (hl : h ∈ d.body.listed)
    (hgone : h ∉ (d.body.rewrite (d.replacing first others news)).listed) :
    h ∈ first :: others := by
  by_contra hout
  exact hgone (hs.listed_eq ▸ List.mem_flatMap.2 ⟨h, hl, mem_image_of_notMem hout⟩)

/-- A bookmark that has lost the paragraph in which it opens, and covers the first one of the range,
opens there. -/
theorem eq_first_of_gone {name id : String} {a : Handle} {rest : List Handle}
    (ho : ⟨name, id, .between (a :: rest)⟩ ∈ d.body.openings [])
    (hgone : a ∉ (d.body.rewrite (d.replacing first others news)).listed)
    (hfirst : first ∈ d.body.bookmarkRange ⟨name, id, some a⟩) : a = first := by
  have hln := hs.wellFormed.nodup_listed
  have hal := mem_listed_of_first? ho rfl
  obtain ⟨b, _, hb, hfl, hbf, _⟩ := (mem_bookmarkRange hln).1 hfirst
  obtain rfl : a = b := Option.some.inj hb
  have hfa := idxOf_head_le hln hs.consecutive rfl (hs.mem_of_gone hal hgone)
  exact eq_of_idxOf_eq hal (Nat.le_antisymm hbf hfa)

/-- A paragraph of the range that is left is the last of a cell that has lost all of its own. -/
theorem lastOfCell_of_left {h : Handle} (hh : h ∈ first :: others)
    (hleft : h ∈ (d.body.rewrite (d.replacing first others news)).listed) :
    ∃ p ∈ d.paragraphs, p.handle = h ∧ d.LastOfCell others p := by
  obtain ⟨q, hq, rfl⟩ := List.mem_map.1 hleft
  rcases hs.mem_paragraphs hq with hq | ⟨p, hp, hlast, rfl⟩ | ⟨_, hout⟩
  · exact absurd (hs.consecutive.subset hh) (hs.fresh q hq)
  · exact ⟨p, hp, rfl, hlast⟩
  · exact absurd hh hout

/-- No paragraph outside of the range that stood behind the closing one comes to stand before it. -/
theorem exists_closing {c : Closing} {k : Handle}
    (hc : c ∈ (d.body.rewrite (d.replacing first others news)).closings [])
    (hk : c.place.last? = some k) :
    ∃ old ∈ d.body.closings [], old.id = c.id ∧ ∃ z, old.place.last? = some z ∧
      ∀ h ∈ d.body.listed, h ∉ first :: others →
        (d.body.rewrite (d.replacing first others news)).listed.idxOf h ≤
          (d.body.rewrite (d.replacing first others news)).listed.idxOf k →
        d.body.listed.idxOf h ≤ d.body.listed.idxOf z := by
  have hln := hs.wellFormed.nodup_listed
  rcases hs.mem_closings hc with ⟨j, hj, hp, hold⟩ | ⟨segment, hp, hold⟩ | ⟨hid, front, hp⟩
  · obtain rfl : j = k := by simpa [hp, Place.last?] using hk
    exact ⟨c, hold, rfl, j, hk, fun h hl hh hle => hs.idxOf_le hl
      (mem_listed_of_mem_closings hold hp) (mem_image_of_notMem hh) (mem_image_of_notMem hj) hle⟩
  · have hk : (segment.flatMap (d.image first others (news.map (·.handle)))).getLast? = some k := by
      simpa [hp, Place.last?] using hk
    obtain ⟨v, hv, hkv⟩ := List.mem_flatMap.1 (List.mem_of_getLast? hk)
    have hpart := infix_of_mem_closings hold rfl
    cases hz : segment.getLast? with
    | none => simp [List.getLast?_eq_none_iff.1 hz] at hv
    | some z =>
      refine ⟨_, hold, rfl, z, hz, fun h hl hh hle => ?_⟩
      have hhv := hs.idxOf_le hl (hpart.subset hv) (mem_image_of_notMem hh) hkv hle
      exact hhv.trans (idxOf_le_getLast hln hpart hz hv)
  · rw [stops_endsOf, List.mem_flatMap] at hid
    obtain ⟨z, hz, hid⟩ := hid
    obtain ⟨p, hpm, rfl⟩ := mem_listed_iff.1 (hs.consecutive.subset hz)
    rw [hs.wellFormed.inside_eq_content hpm] at hid
    refine ⟨_, Forest.mem_closings hpm hid, rfl, p.handle, rfl, fun h hl hh hle => ?_⟩
    have hk : k ∈ news.map (·.handle) := by
      rw [hp, Place.last?, List.getLast?_append_of_ne_nil _ (by simpa using hs.nonempty)] at hk
      exact List.mem_of_getLast? hk
    have hkf : k ∈ d.image first others (news.map (·.handle)) first := by simpa [image] using hk
    have hhf := hs.idxOf_le hl hs.first_mem (mem_image_of_notMem hh) hkf hle
    exact hhf.trans (idxOf_head_le hln hs.consecutive rfl hz)

variable (ht : d.body.Tidy)
include ht

/-- When no paragraph outside of the range that stood in front of the opening one comes to stand
behind it, the bookmark covers nothing else outside of the range. -/
theorem mem_bookmarkRange_of_le {o o' : Opening} {a a' h : Handle}
    (ho : o ∈ d.body.openings []) (hid : o.id = o'.id) (ha : o.place.first? = some a)
    (ha' : o'.place.first? = some a')
    (hh : h ∈ (d.body.rewrite (d.replacing first others news)).bookmarkRange o'.bookmark)
    (hl : h ∈ d.body.listed) (hout : h ∉ first :: others)
    (hlow : (d.body.rewrite (d.replacing first others news)).listed.idxOf a' ≤
        (d.body.rewrite (d.replacing first others news)).listed.idxOf h →
      d.body.listed.idxOf a ≤ d.body.listed.idxOf h) :
    h = a' ∨ h ∈ d.body.bookmarkRange o.bookmark := by
  obtain ⟨b, _, hopens, _, hah, hcase⟩ := (mem_bookmarkRange hs.nodup).1 hh
  obtain rfl : a' = b := Option.some.inj (ha'.symm.trans hopens)
  rcases hcase with rfl | ⟨k, _, hfind, hhk⟩
  · exact .inl rfl
  · obtain ⟨c, hc, hcid, hk⟩ := (hs.tidy ht).exists_closing hfind
    obtain ⟨old, hold, holdid, z, hz, hbound⟩ := hs.exists_closing hc hk
    have hids : old.id = o.id := holdid.trans (hcid.trans hid.symm)
    exact .inr (ht.mem_bookmarkRange_of_closing hs.wellFormed.nodup_listed ho ha hl (hlow hah) hold
      hids hz (hbound h hl hout hhk))

/-- A bookmark that has stayed in a paragraph covers nothing else outside of the range. -/
theorem bookmarkRange_inside {o : Opening} {a : Handle} (ho : o ∈ d.body.openings [])
    (hp : o.place = .inside a) (hout : a ∉ first :: others) :
    ∀ h ∈ (d.body.rewrite (d.replacing first others news)).bookmarkRange o.bookmark,
      h ∈ d.body.listed → h ∉ first :: others → h ∈ d.body.bookmarkRange o.bookmark := by
  intro h hh hl hhout
  have ha : o.place.first? = some a := by rw [hp]; rfl
  rcases hs.mem_bookmarkRange_of_le ht ho rfl ha ha hh hl hhout fun hle =>
    hs.idxOf_le (mem_listed_of_mem_openings ho hp) hl (mem_image_of_notMem hout)
      (mem_image_of_notMem hhout) hle with rfl | hcovered
  · exact mem_bookmarkRange_self hs.wellFormed.nodup_listed ho ha
  · exact hcovered

/-- A bookmark that has opened in the range, and now opens in the new paragraphs, covers nothing else
outside of the range. -/
theorem bookmarkRange_renewed {o o' : Opening} {a new : Handle} (ho : o ∈ d.body.openings [])
    (hid : o.id = o'.id) (ha : o.place.first? = some a) (har : a ∈ first :: others)
    (ha' : o'.place.first? = some new) (hnew : new ∈ news.map (·.handle)) :
    ∀ h ∈ (d.body.rewrite (d.replacing first others news)).bookmarkRange o'.bookmark,
      h ∈ d.body.listed → h ∉ first :: others → h ∈ d.body.bookmarkRange o.bookmark := by
  intro h hh hl hout
  have hfirst : new ∈ d.image first others (news.map (·.handle)) first := by
    rwa [image, if_pos rfl]
  rcases hs.mem_bookmarkRange_of_le ht ho hid ha ha' hh hl hout fun hle => by
      have hfh := hs.idxOf_le hs.first_mem hl hfirst (mem_image_of_notMem hout) hle
      exact (idxOf_lt_of_notMem hs.wellFormed.nodup_listed hs.consecutive List.mem_cons_self har hl
        hout hfh).le
    with rfl | hcovered
  · exact absurd hl (hs.notMem_listed hnew)
  · exact hcovered

/-- A bookmark that has been gathered covers nothing else outside of the range. -/
theorem bookmarkRange_gathered {o' : Opening} {behind : List Handle}
    (hstart : (o'.name, o'.id) ∈ (d.startsOf (first :: others)).starts)
    (hp : o'.place = .between (news.map (·.handle) ++ behind)) :
    ∃ o ∈ d.body.openings [], o.name = o'.name ∧ o.id = o'.id ∧
      ∀ h ∈ (d.body.rewrite (d.replacing first others news)).bookmarkRange o'.bookmark,
        h ∈ d.body.listed → h ∉ first :: others → h ∈ d.body.bookmarkRange o.bookmark := by
  rw [starts_startsOf, List.mem_flatMap] at hstart
  obtain ⟨a, ha, hstart⟩ := hstart
  obtain ⟨p, hpm, rfl⟩ := mem_listed_iff.1 (hs.consecutive.subset ha)
  rw [hs.wellFormed.inside_eq_content hpm] at hstart
  have ho := @Forest.mem_openings _ [] _ hpm _ hstart
  obtain ⟨new, hnew⟩ : ∃ new, (news.map (·.handle)).head? = some new :=
    Option.isSome_iff_exists.1 (by simpa using hs.nonempty)
  have ha' : o'.place.first? = some new := by simp [hp, Place.first?, List.head?_append, hnew]
  exact ⟨_, ho, rfl, rfl,
    hs.bookmarkRange_renewed ht ho rfl rfl ha ha' (List.mem_of_head? hnew)⟩

/-- A bookmark that opens between paragraphs covers nothing else outside of the range, if one of
those that it has covered is left. -/
theorem bookmarkRange_between {o' : Opening} {segment : List Handle}
    (ho : ⟨o'.name, o'.id, .between segment⟩ ∈ d.body.openings [])
    (hp : o'.place = .between (segment.flatMap (d.image first others (news.map (·.handle)))))
    (ho' : o' ∈ (d.body.rewrite (d.replacing first others news)).openings []) {y : Handle}
    (hy : y ∈ d.body.bookmarkRange ⟨o'.name, o'.id, segment.head?⟩)
    (hleft : y ∈ (d.body.rewrite (d.replacing first others news)).listed) :
    ∀ h ∈ (d.body.rewrite (d.replacing first others news)).bookmarkRange o'.bookmark,
      h ∈ d.body.listed → h ∉ first :: others →
        h ∈ d.body.bookmarkRange ⟨o'.name, o'.id, segment.head?⟩ := by
  intro h hh hl hout
  have hln := hs.wellFormed.nodup_listed
  have hpart : segment <:+: d.body.listed := by simpa using infix_of_mem_openings ho rfl
  have hpart' : segment.flatMap (d.image first others (news.map (·.handle))) <:+:
      (d.body.rewrite (d.replacing first others news)).listed := by
    simpa using infix_of_mem_openings ho' hp
  obtain ⟨a, _, ha, hyl, hay, _⟩ := (mem_bookmarkRange hln).1 hy
  replace ha : segment.head? = some a := ha
  obtain ⟨a', _, ha', _, hah', _⟩ := (mem_bookmarkRange hs.nodup).1 hh
  replace ha' : o'.place.first? = some a' := ha'
  have hhead : (segment.flatMap (d.image first others (news.map (·.handle)))).head? = some a' := by
    simpa [hp, Place.first?] using ha'
  obtain ⟨u, hu, hau⟩ := List.mem_flatMap.1 (List.mem_of_head? hhead)
  have hself : h ∈ d.image first others (news.map (·.handle)) h := mem_image_of_notMem hout
  have hah : d.body.listed.idxOf a ≤ d.body.listed.idxOf h :=
    (idxOf_head_le hln hpart ha hu).trans (hs.idxOf_le (hpart.subset hu) hl hau hself hah')
  rcases hs.mem_bookmarkRange_of_le ht ho (show _ = o'.id from rfl) ha ha' hh hl hout
    fun _ => hah with rfl | hcovered
  · -- the opening paragraph itself stands before the one that is left
    refine Forest.mem_bookmarkRange_of_le (o := ⟨o'.name, o'.id, .between segment⟩) hln ha hy hl hah
      ?_
    have hyself := hs.mem_image_self hyl hleft
    by_cases hys : y ∈ segment
    · exact hs.idxOf_le hl hyl hself hyself
        (idxOf_head_le hs.nodup hpart' hhead (List.mem_flatMap.2 ⟨y, hys, hyself⟩))
    · have hhs : h ∈ segment := by
        rcases mem_image hau with ⟨_, hnew⟩ | rfl
        · exact absurd hl (hs.notMem_listed hnew)
        · exact hu
      exact (idxOf_lt_of_notMem hln hpart (List.mem_of_head? ha) hhs hyl hys hay).le
  · exact hcovered

/-- A bookmark that opens right before the range opens in the new paragraphs, and covers nothing else
outside of the range. -/
theorem bookmarkRange_front {o' : Opening} {rest : List Handle}
    (ho : ⟨o'.name, o'.id, .between (first :: rest)⟩ ∈ d.body.openings [])
    (hp : o'.place =
      .between ((first :: rest).flatMap (d.image first others (news.map (·.handle))))) :
    ∀ h ∈ (d.body.rewrite (d.replacing first others news)).bookmarkRange o'.bookmark,
      h ∈ d.body.listed → h ∉ first :: others →
        h ∈ d.body.bookmarkRange ⟨o'.name, o'.id, some first⟩ := by
  obtain ⟨new, hnew⟩ : ∃ new, (news.map (·.handle)).head? = some new :=
    Option.isSome_iff_exists.1 (by simpa using hs.nonempty)
  have ha' : o'.place.first? = some new := by
    rw [hp, List.flatMap_cons, image, if_pos rfl]
    simp [Place.first?, List.head?_append, hnew]
  exact hs.bookmarkRange_renewed ht ho rfl rfl List.mem_cons_self ha' (List.mem_of_head? hnew)

/-- A bookmark that has not been left stranded covers nothing else outside of the range. -/
theorem bookmarkRange_subset {o' : Opening}
    (ho' : o' ∈ (d.body.rewrite (d.replacing first others news)).openings []) :
    ∃ o ∈ d.body.openings [], o.name = o'.name ∧ o.id = o'.id ∧
      (d.Stranded first (d.body.rewrite (d.replacing first others news)).listed o.bookmark ∨
        ∀ h ∈ (d.body.rewrite (d.replacing first others news)).bookmarkRange o'.bookmark,
          h ∈ d.body.listed → h ∉ first :: others → h ∈ d.body.bookmarkRange o.bookmark) := by
  rcases hs.mem_openings ho' with ⟨a, hout, hp, ho⟩ | ⟨segment, hp, ho⟩ | ⟨hstart, behind, hp⟩
  · exact ⟨o', ho, rfl, rfl, .inr (hs.bookmarkRange_inside ht ho hp hout)⟩
  · refine ⟨_, ho, rfl, rfl, ?_⟩
    by_cases hleft : ∃ y ∈ d.body.bookmarkRange ⟨o'.name, o'.id, segment.head?⟩,
        y ∈ (d.body.rewrite (d.replacing first others news)).listed
    · obtain ⟨y, hy, hyl⟩ := hleft
      exact .inr (hs.bookmarkRange_between ht ho hp ho' hy hyl)
    · have hgone : ∀ y ∈ d.body.bookmarkRange ⟨o'.name, o'.id, segment.head?⟩,
          y ∉ (d.body.rewrite (d.replacing first others news)).listed :=
        fun y hy hl => hleft ⟨y, hy, hl⟩
      cases segment with
      | nil =>
        refine .inr fun h hh _ _ => ?_
        obtain ⟨a', _, ha', _⟩ := (mem_bookmarkRange hs.nodup).1 hh
        replace ha' : o'.place.first? = some a' := ha'
        rw [hp] at ha'
        cases ha'
      | cons a rest =>
        have ha := mem_bookmarkRange_self hs.wellFormed.nodup_listed ho rfl
        by_cases hfirst : first ∈ d.body.bookmarkRange ⟨o'.name, o'.id, some a⟩
        · obtain rfl := hs.eq_first_of_gone ho (hgone a ha) hfirst
          exact .inr (hs.bookmarkRange_front ht ho hp)
        · exact .inl ⟨⟨_, ho⟩, List.ne_nil_of_mem ha, hfirst, hgone⟩
  · obtain ⟨o, ho, hname, hid, hrange⟩ := hs.bookmarkRange_gathered ht hstart hp
    exact ⟨o, ho, hname, hid, .inr hrange⟩

end Replaceable

end Document

end Redline
