/-!
# Passages

## Main definitions

* `Handle` — what a paragraph or a content control is known by.
* `Passage` — a paragraph as a list of paragraphs shows it.
-/

namespace Redline

/-- What a paragraph or a content control is known by, wherever it stands or goes. -/
structure Handle where
  number : Nat
deriving DecidableEq, Repr, Inhabited

/-- A paragraph as a list of paragraphs shows it. -/
structure Passage where
  /-- Its position in the list. -/
  index : Nat
  text : String
  style : String
  handle : Handle
deriving DecidableEq, Repr

end Redline
