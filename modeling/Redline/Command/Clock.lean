/-!
# The time of a report

## Main definitions

* `Clock.date` — the year, month and day of a day that is counted from 1970.
* `Clock.stamp` — a moment, given in seconds from the beginning of 1970, as a text.
-/

namespace Redline.Clock

/-- A date. -/
structure Date where
  year : Nat
  month : Nat
  day : Nat
deriving DecidableEq, Repr

/-- How many days a span of four centuries has. -/
def eraDays : Nat := 146097

/-- The date of a day, counted from the first one of 1970.  Years begin in March here, so that the
leap day is the last of its year and the lengths of the months repeat every five. -/
def date (day : Nat) : Date :=
  let shifted := day + 719468
  let dayOfEra := shifted % eraDays
  let yearOfEra :=
    (dayOfEra - dayOfEra / 1460 + dayOfEra / 36524 - dayOfEra / (eraDays - 1)) / 365
  let dayOfYear := dayOfEra - (365 * yearOfEra + yearOfEra / 4 - yearOfEra / 100)
  let fromMarch := (5 * dayOfYear + 2) / 153
  let month := if fromMarch < 10 then fromMarch + 3 else fromMarch - 9
  let year := yearOfEra + shifted / eraDays * 400
  { year := if month ≤ 2 then year + 1 else year
    month
    day := dayOfYear - (153 * fromMarch + 2) / 5 + 1 }

/-- A number with zeros in front, up to the given length. -/
def padded (length n : Nat) : String :=
  let digits := Nat.toDigits 10 n
  String.ofList (List.replicate (length - digits.length) '0' ++ digits)

/-- A moment as a text, in seconds from the beginning of 1970. -/
def stamp (seconds : Nat) : String :=
  let d := date (seconds / 86400)
  let time := seconds % 86400
  s!"{padded 4 d.year}-{padded 2 d.month}-{padded 2 d.day}" ++
    s!"T{padded 2 (time / 3600)}:{padded 2 (time / 60 % 60)}:{padded 2 (time % 60)}Z"

end Redline.Clock
