import Mathlib.Data.List.Induction
import Redline.Document.Bookmark
import Redline.Proofs.Forest.Marks

/-!
# Places of marks

A mark stands inside a paragraph or between paragraphs.  One that stands between paragraphs is placed
by the paragraphs of its surroundings: a start by those behind it, an end by those in front of it.
Where a bookmark opens and closes can be told from these places.

## Main definitions

* `Forest.starts`, `Forest.stops` — what the marks of a forest say.
* `Place` — where a mark stands.
* `Forest.openings`, `Forest.closings` — the marks of a forest with their places.
-/

namespace Redline

/-- The name and the id of a start mark. -/
def Element.opens : Element → List (String × String)
  | .bookmarkStart name id => [(name, id)]
  | _ => []

/-- The id of an end mark. -/
def Element.closes : Element → List String
  | .bookmarkEnd id => [id]
  | _ => []

@[simp] theorem Paragraph.opens_element (p : Paragraph) : p.element.opens = [] := rfl

@[simp] theorem Paragraph.closes_element (p : Paragraph) : p.element.closes = [] := rfl

/-- Where a mark stands. -/
inductive Place where
  | inside (paragraph : Handle)
  /-- Between the paragraphs of its surroundings; for a start those behind it, for an end those in
  front of it. -/
  | between (segment : List Handle)
deriving DecidableEq, Repr

namespace Place

/-- The paragraph that a start mark opens in. -/
def first? : Place → Option Handle
  | .inside h => some h
  | .between segment => segment.head?

/-- The paragraph that an end mark closes in. -/
def last? : Place → Option Handle
  | .inside h => some h
  | .between segment => segment.getLast?

end Place

/-- A start mark with its place. -/
structure Opening where
  name : String
  id : String
  place : Place
deriving DecidableEq, Repr

/-- An end mark with its place. -/
structure Closing where
  id : String
  place : Place
deriving DecidableEq, Repr

/-- The bookmark of a start mark. -/
def Opening.bookmark (o : Opening) : Bookmark := ⟨o.name, o.id, o.place.first?⟩

/-- The end of a bookmark. -/
def Closing.bookmarkEnd (c : Closing) : BookmarkEnd := ⟨c.id, c.place.last?⟩

namespace Forest

/-! ## What marks say -/

/-- What the elements of a forest give, at any depth and in document order. -/
def collect {α : Type} (give : Element → List α) : Forest → List α
  | .nil => []
  | .cons e inside rest => give e ++ (inside.collect give ++ rest.collect give)

/-- The names and ids of the start marks, at any depth. -/
def starts (f : Forest) : List (String × String) := f.collect Element.opens

/-- The ids of the end marks, at any depth. -/
def stops (f : Forest) : List String := f.collect Element.closes

section
variable {α : Type} (give : Element → List α)

@[simp] theorem collect_nil : Forest.nil.collect give = [] := rfl

@[simp] theorem collect_cons (e : Element) (inside rest : Forest) :
    (Forest.cons e inside rest).collect give =
      give e ++ (inside.collect give ++ rest.collect give) := rfl

@[simp] theorem collect_append (f g : Forest) :
    (f ++ g).collect give = f.collect give ++ g.collect give := by
  induction f with
  | nil => rfl
  | cons e inside rest _ ih => simp [ih]

theorem collect_join (forests : List Forest) :
    (Forest.join forests).collect give = forests.flatMap (·.collect give) := by
  induction forests with
  | nil => rfl
  | cons f rest ih => simpa [Forest.join] using ih

end

@[simp] theorem starts_nil : Forest.nil.starts = [] := rfl

@[simp] theorem starts_append (f g : Forest) : (f ++ g).starts = f.starts ++ g.starts :=
  collect_append _ f g

@[simp] theorem starts_cons (e : Element) (inside rest : Forest) :
    (Forest.cons e inside rest).starts = e.opens ++ (inside.starts ++ rest.starts) := rfl

@[simp] theorem stops_nil : Forest.nil.stops = [] := rfl

@[simp] theorem stops_append (f g : Forest) : (f ++ g).stops = f.stops ++ g.stops :=
  collect_append _ f g

@[simp] theorem stops_cons (e : Element) (inside rest : Forest) :
    (Forest.cons e inside rest).stops = e.closes ++ (inside.stops ++ rest.stops) := rfl

@[simp] theorem starts_startMarks (f : Forest) : f.startMarks.starts = f.starts := by
  induction f with
  | nil => rfl
  | cons e inside rest ihi ihr => cases e <;> simp [startMarks, Element.opens, ihi, ihr]

@[simp] theorem stops_startMarks (f : Forest) : f.startMarks.stops = [] := by
  induction f with
  | nil => rfl
  | cons e inside rest ihi ihr => cases e <;> simp [startMarks, Element.closes, ihi, ihr]

@[simp] theorem starts_endMarks (f : Forest) : f.endMarks.starts = [] := by
  induction f with
  | nil => rfl
  | cons e inside rest ihi ihr => cases e <;> simp [endMarks, Element.opens, ihi, ihr]

@[simp] theorem stops_endMarks (f : Forest) : f.endMarks.stops = f.stops := by
  induction f with
  | nil => rfl
  | cons e inside rest ihi ihr => cases e <;> simp [endMarks, Element.closes, ihi, ihr]

theorem AllMarks.eq_nil {f : Forest} (hf : f.AllMarks) (hs : f.starts = []) (ht : f.stops = []) :
    f = .nil := by
  cases hf with
  | nil => rfl
  | start name id _ => simp [Element.opens] at hs
  | stop id _ => simp [Element.closes] at ht

/-! ## Marks with their places -/

/-- The start marks with their places, in document order; `tail` are the paragraphs behind the forest
among its surroundings. -/
def openings (tail : List Handle) : Forest → List Opening
  | .nil => []
  | .cons (.paragraph h _ _) inside rest =>
    inside.starts.map (fun s => ⟨s.1, s.2, .inside h⟩) ++ rest.openings tail
  | .cons (.bookmarkStart name id) inside rest =>
    ⟨name, id, .between (rest.listed ++ tail)⟩ :: (inside.openings [] ++ rest.openings tail)
  | .cons _ inside rest => inside.openings [] ++ rest.openings tail

/-- The end marks with their places, in document order; `front` are the paragraphs in front of the
forest among its surroundings. -/
def closings (front : List Handle) : Forest → List Closing
  | .nil => []
  | .cons (.paragraph h _ _) inside rest =>
    inside.stops.map (fun id => ⟨id, .inside h⟩) ++ rest.closings (front ++ [h])
  | .cons (.bookmarkEnd id) inside rest =>
    ⟨id, .between front⟩ :: (inside.closings [] ++ rest.closings (front ++ inside.listed))
  | .cons _ inside rest => inside.closings [] ++ rest.closings (front ++ inside.listed)

section
variable (tail front : List Handle) (inside rest : Forest)

@[simp] theorem openings_nil : Forest.nil.openings tail = [] := rfl

@[simp] theorem closings_nil : Forest.nil.closings front = [] := rfl

@[simp] theorem openings_cons_paragraph (p : Paragraph) :
    (Forest.cons p.element p.content rest).openings tail =
      p.content.starts.map (fun s => ⟨s.1, s.2, .inside p.handle⟩) ++ rest.openings tail := rfl

@[simp] theorem closings_cons_paragraph (p : Paragraph) :
    (Forest.cons p.element p.content rest).closings front =
      p.content.stops.map (fun id => ⟨id, .inside p.handle⟩) ++
        rest.closings (front ++ [p.handle]) := rfl

theorem openings_cons_other {e : Element} (he : e.isParagraph = false) :
    (Forest.cons e inside rest).openings tail =
      e.opens.map (fun s => ⟨s.1, s.2, .between (rest.listed ++ tail)⟩) ++
        (inside.openings [] ++ rest.openings tail) := by
  cases e <;> simp_all [openings, Element.isParagraph, Element.opens]

theorem closings_cons_other {e : Element} (he : e.isParagraph = false) :
    (Forest.cons e inside rest).closings front =
      e.closes.map (fun id => ⟨id, .between front⟩) ++
        (inside.closings [] ++ rest.closings (front ++ inside.listed)) := by
  cases e <;> simp_all [closings, Element.isParagraph, Element.closes]

end

theorem openings_append (tail : List Handle) (f g : Forest) :
    (f ++ g).openings tail = f.openings (g.listed ++ tail) ++ g.openings tail := by
  induction f using paragraphInduction with
  | nil => rfl
  | paragraph p rest _ ih => simp [ih]
  | other e inside rest he _ ih => simp [openings_cons_other _ _ _ he, ih]

theorem closings_append (front : List Handle) (f g : Forest) :
    (f ++ g).closings front = f.closings front ++ g.closings (front ++ f.listed) := by
  induction f using paragraphInduction generalizing front with
  | nil => simp
  | paragraph p rest _ ih => simp [ih]
  | other e inside rest he _ ih => simp [closings_cons_other _ _ _ he, listed_cons_other _ _ he, ih]

theorem map_openings (tail : List Handle) (f : Forest) :
    (f.openings tail).map (fun o => (o.name, o.id)) = f.starts := by
  induction f using paragraphInduction generalizing tail with
  | nil => rfl
  | paragraph p rest _ ih => simp [ih, Function.comp_def]
  | other e inside rest he ihi ihr =>
    simp [openings_cons_other _ _ _ he, ihi, ihr, Function.comp_def]

theorem map_closings (front : List Handle) (f : Forest) :
    (f.closings front).map (·.id) = f.stops := by
  induction f using paragraphInduction generalizing front with
  | nil => rfl
  | paragraph p rest _ ih => simp [ih, Function.comp_def]
  | other e inside rest he ihi ihr =>
    simp [closings_cons_other _ _ _ he, ihi, ihr, Function.comp_def]

/-! ## Marks inside paragraphs -/

/-- No mark stands in a paragraph of a text box. -/
def Sober (content : Forest) : Prop :=
  ∀ q ∈ content.paragraphs, q.content.starts = [] ∧ q.content.stops = []

instance (content : Forest) : Decidable content.Sober :=
  inferInstanceAs (Decidable (∀ q ∈ content.paragraphs, _ ∧ _))

theorem map_bookmarksIn (holder : Option Handle) (f : Forest) :
    (f.bookmarksIn holder).map (fun b => (b.name, b.id)) = f.starts := by
  induction f generalizing holder with
  | nil => rfl
  | cons e inside rest ihi ihr =>
    cases e <;> simp [bookmarksIn, Element.opens, ihi, ihr]

theorem map_bookmarkEndsIn (holder before : Option Handle) (f : Forest) :
    (f.bookmarkEndsIn holder before).map (·.id) = f.stops := by
  induction f generalizing holder before with
  | nil => rfl
  | cons e inside rest ihi ihr =>
    cases e <;> simp [bookmarkEndsIn, Element.closes, ihi, ihr]

/-- The start marks in a paragraph open in it. -/
theorem Sober.bookmarksIn {content : Forest} (hs : content.Sober) (h : Handle) :
    content.bookmarksIn (some h) = content.starts.map fun s => ⟨s.1, s.2, some h⟩ := by
  induction content using paragraphInduction with
  | nil => rfl
  | paragraph q rest _ ih =>
    have hq := (hs q (by simp)).1
    have hnone : q.content.bookmarksIn (some q.handle) = [] := by
      rw [← List.map_eq_nil_iff, map_bookmarksIn, hq]
    have ih := ih fun p hp => hs p (by simp [hp])
    simp [Forest.bookmarksIn, Paragraph.element, holderInside, hnone, ih, hq, Element.opens]
  | other e inside rest he ihi ihr =>
    rw [Sober, paragraphs_cons_other _ _ he] at hs
    have ihi := ihi fun p hp => hs p (List.mem_append_left _ hp)
    have ihr := ihr fun p hp => hs p (List.mem_append_right _ hp)
    cases e <;> simp_all [Forest.bookmarksIn, holderInside, Element.opens, Element.isParagraph]

/-- The end marks in a paragraph close in it. -/
theorem Sober.bookmarkEndsIn {content : Forest} (hs : content.Sober) (h : Handle)
    (before : Option Handle) :
    content.bookmarkEndsIn (some h) before = content.stops.map fun id => ⟨id, some h⟩ := by
  induction content using paragraphInduction generalizing before with
  | nil => rfl
  | paragraph q rest _ ih =>
    have hq := (hs q (by simp)).2
    have hnone : q.content.bookmarkEndsIn (some q.handle) none = [] := by
      rw [← List.map_eq_nil_iff, map_bookmarkEndsIn, hq]
    have ih := ih fun p hp => hs p (by simp [hp])
    simp [Forest.bookmarkEndsIn, Paragraph.element, holderInside, hnone, ih, hq, Element.closes]
  | other e inside rest he ihi ihr =>
    rw [Sober, paragraphs_cons_other _ _ he] at hs
    have ihi := ihi fun p hp => hs p (List.mem_append_left _ hp)
    have ihr := ihr fun p hp => hs p (List.mem_append_right _ hp)
    cases e <;> simp_all [Forest.bookmarkEndsIn, holderInside, Element.closes, Element.isParagraph]

/-! ## Bookmarks by the places of their marks -/

theorem everyParagraph_eq (f : Forest) :
    f.everyParagraph = f.paragraphs.flatMap fun p => p.handle :: p.content.everyParagraph := by
  induction f using paragraphInduction with
  | nil => rfl
  | paragraph p rest _ ih => simp [everyParagraph, Paragraph.element, ih, paragraphs]
  | other e inside rest he ihi ihr =>
    rw [paragraphs_cons_other _ _ he, List.flatMap_append, ← ihi, ← ihr]
    cases e <;> simp_all [everyParagraph, Element.isParagraph]

theorem head?_everyParagraph (f : Forest) : f.everyParagraph.head? = f.listed.head? := by
  rw [everyParagraph_eq, listed]
  cases f.paragraphs <;> rfl

theorem bookmarks_eq {f : Forest} (hs : ∀ p ∈ f.paragraphs, p.content.Sober) :
    f.bookmarks = (f.openings []).map Opening.bookmark := by
  rw [bookmarks]
  induction f using paragraphInduction with
  | nil => rfl
  | paragraph p rest _ ih =>
    have hp := (hs p (by simp)).bookmarksIn p.handle
    have ih := ih fun q hq => hs q (by simp [hq])
    rw [openings_cons_paragraph, List.map_append, ← ih, List.map_map]
    simp only [bookmarksIn, Paragraph.element, holderInside, hp, List.nil_append]
    rfl
  | other e inside rest he ihi ihr =>
    rw [paragraphs_cons_other _ _ he] at hs
    have ihi := ihi fun p hp => hs p (List.mem_append_left _ hp)
    have ihr := ihr fun p hp => hs p (List.mem_append_right _ hp)
    rw [openings_cons_other _ _ _ he, List.map_append, List.map_append, ← ihi, ← ihr]
    have hhead := head?_everyParagraph rest
    cases e <;> simp_all [bookmarksIn, holderInside, Element.opens, Element.isParagraph,
      Opening.bookmark, Place.first?]

/-- What is known of the paragraph in front, if the last one of these paragraphs is plain. -/
structure InFront (plain : Handle → Prop) (front : List Handle) (before : Option Handle) : Prop where
  none : front = [] → before = none
  last : ∀ h, front.getLast? = some h → plain h → before = some h

theorem InFront.paragraph {plain : Handle → Prop} (front : List Handle) (h : Handle) :
    InFront plain (front ++ [h]) (some h) where
  none hn := by simp at hn
  last k hk _ := by simpa using hk

theorem InFront.other {plain : Handle → Prop} {front : List Handle} {before : Option Handle}
    (hb : InFront plain front before) {e : Element} (he : e.isParagraph = false) {inside : Forest}
    (hp : ∀ p ∈ inside.paragraphs, plain p.handle → p.content.everyParagraph = []) :
    InFront plain (front ++ inside.listed) (lastParagraph e inside <|> before) := by
  have hlast : lastParagraph e inside = inside.everyParagraph.getLast? := by
    cases e <;> simp_all [lastParagraph, Element.isParagraph]
  rw [hlast, everyParagraph_eq, listed]
  cases hps : inside.paragraphs using List.reverseRecOn with
  | nil => simpa using hb
  | append_singleton ps q =>
    refine ⟨fun hn => by simp at hn, fun h hh hplain => ?_⟩
    obtain rfl : q.handle = h := by simpa using hh
    have hq := hp q (by simp [hps]) hplain
    simp [hq]

theorem InFront.eq_getLast? {plain : Handle → Prop} {front : List Handle} {before : Option Handle}
    (hb : InFront plain front before) (hp : ∀ h, front.getLast? = some h → plain h) :
    before = front.getLast? := by
  cases hl : front.getLast? with
  | none => exact hb.none (List.getLast?_eq_none_iff.1 hl)
  | some h => exact hb.last h hl (hp h hl)

/-- An end between paragraphs follows a plain one, if any. -/
def Follows (plain : Handle → Prop) (c : Closing) : Prop :=
  ∀ front, c.place = .between front → ∀ h, front.getLast? = some h → plain h

theorem bookmarkEnds_eq (plain : Handle → Prop) {f : Forest} {front : List Handle}
    {before : Option Handle} (hs : ∀ p ∈ f.paragraphs, p.content.Sober)
    (hp : ∀ p ∈ f.paragraphs, plain p.handle → p.content.everyParagraph = [])
    (hb : InFront plain front before) (hf : ∀ c ∈ f.closings front, Follows plain c) :
    f.bookmarkEndsIn none before = (f.closings front).map Closing.bookmarkEnd := by
  induction f using paragraphInduction generalizing front before with
  | nil => rfl
  | paragraph p rest _ ih =>
    have hpc := (hs p (by simp)).bookmarkEndsIn p.handle none
    rw [closings_cons_paragraph] at hf ⊢
    have ih := ih (fun q hq => hs q (by simp [hq])) (fun q hq => hp q (by simp [hq]))
      (InFront.paragraph front p.handle) fun c hc => hf c (List.mem_append_right _ hc)
    rw [List.map_append, ← ih, List.map_map]
    simp only [bookmarkEndsIn, Paragraph.element, holderInside, lastParagraph, hpc, List.nil_append]
    rfl
  | other e inside rest he ihi ihr =>
    rw [paragraphs_cons_other _ _ he] at hs hp
    rw [closings_cons_other _ _ _ he] at hf ⊢
    have ihi := @ihi [] none (fun p h => hs p (List.mem_append_left _ h))
      (fun p h => hp p (List.mem_append_left _ h)) ⟨fun _ => rfl, by simp⟩
      fun c hc => hf c (List.mem_append_right _ (List.mem_append_left _ hc))
    have ihr := ihr (fun p h => hs p (List.mem_append_right _ h))
      (fun p h => hp p (List.mem_append_right _ h))
      (hb.other he fun p h => hp p (List.mem_append_left _ h))
      fun c hc => hf c (List.mem_append_right _ (List.mem_append_right _ hc))
    rw [List.map_append, List.map_append, ← ihi, ← ihr]
    cases e with
    | paragraph h style alignment => simp [Element.isParagraph] at he
    | bookmarkEnd id =>
      have hbefore := hb.eq_getLast? (hf ⟨id, .between front⟩ (by simp [Element.closes]) front rfl)
      simp [bookmarkEndsIn, holderInside, Element.closes, Closing.bookmarkEnd, Place.last?, hbefore]
    | _ => simp [bookmarkEndsIn, holderInside, Element.closes]

end Forest

end Redline
