/-!
# Occurrences

## Main definitions

* `occursIn` — whether one text is a contiguous part of another.
-/

namespace Redline.Text

/-- Whether `needle` is a contiguous part of a text; the empty text is part of every text. -/
def occursIn (needle : List Char) : List Char → Bool
  | [] => needle.isEmpty
  | c :: rest => needle.isPrefixOf (c :: rest) || occursIn needle rest

theorem occursIn_iff {needle text : List Char} :
    occursIn needle text = true ↔ needle <:+: text := by
  induction text with
  | nil => simp [occursIn, List.isEmpty_iff]
  | cons c rest ih => simp [occursIn, ih, List.infix_cons_iff]

end Redline.Text
