/-!
# Runs of letter pairs

A mapping between the cases of letters moves long stretches of code points by one and the same
distance, some of them only at every second place.

## Main definitions

* `CaseRuns` — a mapping of characters, as runs.
* `CaseRuns.image` — the character that a character is mapped to.
-/

namespace Redline.Text

/-- Runs `(first, last, step, target)`: the code points from `first` to `last` at distance
`step` go to the code points from `target` on at the same distance. -/
abbrev CaseRuns := List (Nat × Nat × Nat × Nat)

/-- Whether a code point belongs to a run. -/
def inRun (n : Nat) (run : Nat × Nat × Nat × Nat) : Bool :=
  run.1 ≤ n && n ≤ run.2.1 && (n - run.1) % run.2.2.1 == 0

/-- The image of a character; one that is in no run stays as it is. -/
def CaseRuns.image (runs : CaseRuns) (c : Char) : Char :=
  match runs.find? (inRun c.toNat) with
  | some (first, _, _, target) => Char.ofNat (target + (c.toNat - first))
  | none => c

end Redline.Text
