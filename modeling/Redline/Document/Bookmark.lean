import Redline.Document.Paragraph

/-!
# Bookmarks

A bookmark is a pair of marks, a start with a name and an end, that share an id.  A mark stands in
a paragraph or between paragraphs; a start between paragraphs belongs to the next paragraph of its
surroundings, an end to the one before.

## Main definitions

* `Forest.startMarks`, `Forest.endMarks`, `Forest.withoutMarks` — the marks of a forest.
* `Bookmark`, `Forest.bookmarks` — the starts of a document, each with the paragraph it opens in.
* `Forest.bookmarkRange` — the paragraphs of a bookmark.
-/

namespace Redline

/-- A bookmark as its start mark gives it. -/
structure Bookmark where
  name : String
  id : String
  /-- The paragraph that it opens in, if there is one. -/
  opensIn : Option Handle
deriving DecidableEq, Repr

/-- The end mark of a bookmark. -/
structure BookmarkEnd where
  id : String
  /-- The paragraph that it closes in, if there is one. -/
  closesIn : Option Handle
deriving DecidableEq, Repr

namespace Forest

/-- The start marks of a forest at any depth, in document order. -/
def startMarks : Forest → Forest
  | .nil => .nil
  | .cons (.bookmarkStart name id) inside rest =>
    .cons (.bookmarkStart name id) .nil (inside.startMarks ++ rest.startMarks)
  | .cons _ inside rest => inside.startMarks ++ rest.startMarks

/-- The end marks of a forest at any depth, in document order. -/
def endMarks : Forest → Forest
  | .nil => .nil
  | .cons (.bookmarkEnd id) inside rest =>
    .cons (.bookmarkEnd id) .nil (inside.endMarks ++ rest.endMarks)
  | .cons _ inside rest => inside.endMarks ++ rest.endMarks

/-- A forest without its marks. -/
def withoutMarks : Forest → Forest
  | .nil => .nil
  | .cons (.bookmarkStart _ _) _ rest => rest.withoutMarks
  | .cons (.bookmarkEnd _) _ rest => rest.withoutMarks
  | .cons e inside rest => .cons e inside.withoutMarks rest.withoutMarks

/-- The paragraph that holds what is inside an element, if `outer` holds the element itself. -/
def holderInside (e : Element) (outer : Option Handle) : Option Handle :=
  match e with
  | .paragraph h _ _ => some h
  | _ => outer

/-- The last paragraph of an element: itself, or the last one anywhere inside it. -/
def lastParagraph (e : Element) (inside : Forest) : Option Handle :=
  match e with
  | .paragraph h _ _ => some h
  | _ => inside.everyParagraph.getLast?

/-- The bookmarks of a forest in document order; `holder` is the innermost paragraph around the
forest. -/
def bookmarksIn (holder : Option Handle) : Forest → List Bookmark
  | .nil => []
  | .cons e inside rest =>
    (match e with
      | .bookmarkStart name id => [⟨name, id, holder <|> rest.everyParagraph.head?⟩]
      | _ => []) ++
    inside.bookmarksIn (holderInside e holder) ++ rest.bookmarksIn holder

/-- The end marks of a forest in document order; `before` is the last paragraph in front of the
forest among its own surroundings. -/
def bookmarkEndsIn (holder before : Option Handle) : Forest → List BookmarkEnd
  | .nil => []
  | .cons e inside rest =>
    (match e with
      | .bookmarkEnd id => [⟨id, holder <|> before⟩]
      | _ => []) ++
    inside.bookmarkEndsIn (holderInside e holder) none ++
      rest.bookmarkEndsIn holder (lastParagraph e inside <|> before)

/-- The bookmarks of a document body, in document order. -/
def bookmarks (body : Forest) : List Bookmark := body.bookmarksIn none

/-- The end marks of a document body, in document order. -/
def bookmarkEnds (body : Forest) : List BookmarkEnd := body.bookmarkEndsIn none none

/-- The part of a list from position `first` through position `last`. -/
def slice {α : Type} (list : List α) (first last : Nat) : List α :=
  (list.drop first).take (last + 1 - first)

/-- The paragraphs of a bookmark: from the one it opens in through the one it closes in.  A
bookmark without end, or one that ends before it starts, has the first of them alone; one that opens
in a text box or nowhere has none. -/
def bookmarkRange (body : Forest) (bookmark : Bookmark) : List Handle :=
  let listed := body.paragraphs.map (·.handle)
  match bookmark.opensIn with
  | none => []
  | some first =>
    match listed.findIdx? (· == first) with
    | none => []
    | some i =>
      let closing := (body.bookmarkEnds.find? fun stop => stop.id == bookmark.id).bind (·.closesIn)
      let j := (listed.findIdx? (· == closing.getD first)).getD i
      slice listed i (max i j)

end Forest

end Redline
