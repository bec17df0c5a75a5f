import Redline.Fault
import Redline.Text.Writing

/-!
# The stylesheet

The styles that a document defines.  A style is asked for by its name or else by its id, and a
paragraph refers to it by its id; one that refers to none has the default style.  A few names are
stored with a small first letter and shown with a capital one.

## Main definitions

* `StyleEntry`, `Stylesheet` — the styles of a document.
* `Stylesheet.shownFor` — the name of the style that a paragraph refers to.
* `Stylesheet.resolve` — the name that a paragraph shows which has been given a style.
* `Stylesheet.Knows` — a style that can be given to a paragraph.
* `Stylesheet.Defines` — a name that stands for a style of the same name.
* `Stylesheet.standard` — the styles of a new document.
-/

namespace Redline

/-- What a style is for. -/
inductive StyleKind where
  | paragraph
  | character
  | table
  | list
deriving DecidableEq, Repr

/-- The name of a kind in messages. -/
def StyleKind.label : StyleKind → String
  | .paragraph => "PARAGRAPH (1)"
  | .character => "CHARACTER (2)"
  | .table => "TABLE (3)"
  | .list => "LIST (4)"

/-- A style as it is stored. -/
structure StyleEntry where
  id : Option String
  name : String
  kind : StyleKind := .paragraph
  isDefault : Bool := false
deriving DecidableEq, Repr

/-- The styles that a document defines, in order. -/
structure Stylesheet where
  entries : List StyleEntry
deriving DecidableEq, Repr

namespace Stylesheet

/-! ## Names -/

/-- The names that are stored with a small first letter, as they are shown and as they are
stored. -/
def smallNames : List (String × String) := [
  ("Heading 1", "heading 1"), ("Heading 2", "heading 2"), ("Heading 3", "heading 3"),
  ("Heading 4", "heading 4"), ("Heading 5", "heading 5"), ("Heading 6", "heading 6"),
  ("Heading 7", "heading 7"), ("Heading 8", "heading 8"), ("Heading 9", "heading 9"),
  ("Header", "header"), ("Footer", "footer"), ("Caption", "caption")]

/-- A name as it is stored. -/
def storedName (name : String) : String := (smallNames.lookup name).getD name

/-- A stored name as it is shown. -/
def shownName (stored : String) : String :=
  match smallNames.find? (·.2 == stored) with
  | some (shown, _) => shown
  | none => stored

/-! ## Looking styles up -/

variable (sheet : Stylesheet)

/-- The style that is asked for by its name. -/
def byName? (asked : String) : Option StyleEntry :=
  sheet.entries.find? (·.name == storedName asked)

/-- The style with the given id. -/
def byId? (id : String) : Option StyleEntry := sheet.entries.find? (·.id == some id)

/-- The style of paragraphs that refer to none. -/
def default? : Option StyleEntry :=
  (sheet.entries.filter fun style => style.kind == .paragraph && style.isDefault).getLast?

/-- The name that a paragraph shows which refers to no style. -/
def defaultName : String := (sheet.default?.map fun style => shownName style.name).getD ""

/-- The name that a paragraph shows which refers to a style by its id; a style that there is none
of, or that is not for paragraphs, gives way to the default one. -/
def shownFor (id : Option String) : String :=
  match id.bind sheet.byId? with
  | some style => if style.kind = .paragraph then shownName style.name else sheet.defaultName
  | none => sheet.defaultName

/-- The name that a paragraph shows when it has been given the style that is asked for. -/
def resolve (asked : String) : Except Fault String :=
  if !Text.isWritable asked.toList then .error .forbiddenCharacter
  else if asked.toList.contains '"' then .error .brokenQuery
  else match sheet.byName? asked <|> sheet.byId? asked with
    | none => .error (.unknownStyle asked)
    | some style =>
      if style.kind ≠ .paragraph then .error (.wrongStyle style.kind.label)
      else .ok (sheet.shownFor (if sheet.default? = some style then none else style.id))

/-- The name that a paragraph shows when it has been given a style; where that fails, the name that
was asked for. -/
def shownAs (asked : String) : String := (sheet.resolve asked).toOption.getD asked

/-- A paragraph can be given the style that is asked for. -/
def Knows (asked : String) : Prop := ∃ name, sheet.resolve asked = .ok name

instance (asked : String) : Decidable (sheet.Knows asked) :=
  decidable_of_iff ((sheet.resolve asked).toOption.isSome = true) (by
    rw [Knows]
    cases sheet.resolve asked <;> simp [Except.toOption])

/-- A paragraph that is given the style of this name shows this name. -/
def Defines (name : String) : Prop := sheet.resolve name = .ok name

instance (name : String) : Decidable (sheet.Defines name) :=
  decidable_of_iff ((sheet.resolve name).toOption = some name) (by
    rw [Defines]
    cases sheet.resolve name <;> simp [Except.toOption])

variable {sheet} {name : String}

theorem shownAs_of_resolve {asked : String} (h : sheet.resolve asked = .ok name) :
    sheet.shownAs asked = name := by
  rw [shownAs, h]
  rfl

theorem Defines.knows (h : sheet.Defines name) : sheet.Knows name := ⟨name, h⟩

theorem Defines.shownAs_eq (h : sheet.Defines name) : sheet.shownAs name = name :=
  shownAs_of_resolve h

/-! ## The styles of a new document -/

/-- An id: the name without blanks. -/
def idOf (name : String) : String := String.ofList (name.toList.filter (· != ' '))

/-- A style with the id that its name as it is shown tells. -/
def entry (kind : StyleKind) (name : String) : StyleEntry where
  id := some (idOf name)
  name := storedName name
  kind := kind

/-- The names of the paragraph styles but for the default one. -/
def paragraphNames : List String := smallNames.map Prod.fst ++ [
  "No Spacing", "Title", "Subtitle", "List Paragraph", "Body Text", "Body Text 2", "Body Text 3",
  "List", "List 2", "List 3", "List Bullet", "List Bullet 2", "List Bullet 3", "List Number",
  "List Number 2", "List Number 3", "List Continue", "List Continue 2", "List Continue 3", "Quote",
  "Intense Quote", "TOC Heading"]

/-- The names of the character styles. -/
def characterNames : List String := [
  "Header Char", "Footer Char", "Heading 1 Char", "Heading 2 Char", "Heading 3 Char",
  "Heading 4 Char", "Heading 5 Char", "Heading 6 Char", "Heading 7 Char", "Heading 8 Char",
  "Heading 9 Char", "Title Char", "Subtitle Char", "Body Text Char", "Body Text 2 Char",
  "Body Text 3 Char", "Macro Text Char", "Quote Char", "Intense Quote Char", "Strong", "Emphasis",
  "Subtle Emphasis", "Intense Emphasis", "Subtle Reference", "Intense Reference", "Book Title"]

/-- The styles of a new document. -/
def standard : Stylesheet where
  entries :=
    [{ id := some "Normal", name := "Normal", isDefault := true }] ++
      paragraphNames.map (entry .paragraph) ++
      [{ id := some "MacroText", name := "macro" }] ++
      [{ id := some "DefaultParagraphFont", name := "Default Paragraph Font", kind := .character,
         isDefault := true },
        { id := some "TableNormal", name := "Normal Table", kind := .table, isDefault := true },
        { id := some "NoList", name := "No List", kind := .list, isDefault := true }] ++
      characterNames.map (entry .character) ++ [entry .table "Table Grid"]

end Stylesheet

end Redline
