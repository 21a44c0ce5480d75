import Saipen.Text.Scan

/-! # Strict UTC stamps

`_strict_utc_stamp`: an ISO date and time with a `Z` or `+00:00` behind it, as an instant. The shape is the
engine's own pattern; which dates exist is the calendar's, and digits outside ASCII are no part of a date. -/

namespace Text

/-- The date and the time of a stamp, as written. -/
structure StampParts where
  year : Nat
  month : Nat
  day : Nat
  hour : Nat
  minute : Nat
  second : Nat
  micro : Nat

/-- A number of exactly so many ASCII digits, and what follows it. -/
def fixedNumber (width : Nat) (cs : List Char) : Option (Nat × List Char) :=
  if (cs.take width).length = width ∧ (cs.take width).all Char.isDigit then
    some (toInt (cs.take width), cs.drop width)
  else none

/-- `(\.\d+)?`: the microseconds, and what follows; digits behind the sixth are cut off. -/
def fraction (cs : List Char) : Option (Nat × List Char) :=
  match cs with
  | '.' :: cs =>
      let digits := cs.takeWhile Char.isDigit
      if digits = [] then none
      else some (toInt ((digits ++ List.replicate 6 '0').take 6), cs.dropWhile Char.isDigit)
  | _ => some (0, cs)

/-- The parts of a stamp. -/
def stampParts (cs : List Char) : Option StampParts := do
  let (year, cs) ← fixedNumber 4 cs
  let (month, cs) ← (literal ['-'] cs).bind (fixedNumber 2)
  let (day, cs) ← (literal ['-'] cs).bind (fixedNumber 2)
  let (hour, cs) ← (literal ['T'] cs).bind (fixedNumber 2)
  let (minute, cs) ← (literal [':'] cs).bind (fixedNumber 2)
  let (second, cs) ← (literal [':'] cs).bind (fixedNumber 2)
  let (micro, cs) ← fraction cs
  if cs = ['Z'] ∨ cs = "+00:00".toList then some { year, month, day, hour, minute, second, micro }
  else none

/-- A year with a 29th of February. -/
def isLeap (year : Nat) : Bool := year % 4 == 0 && (year % 100 != 0 || year % 400 == 0)

/-- The days of the months of a year. -/
def monthDays (year : Nat) : List Nat :=
  [31, if isLeap year then 29 else 28, 31, 30, 31, 30, 31, 31, 30, 31, 30, 31]

/-- The microseconds since the beginning of the first year, when the date and the time exist. -/
def StampParts.instant (s : StampParts) : Option Int :=
  let days := monthDays s.year
  if 1 ≤ s.year ∧ 1 ≤ s.month ∧ s.month ≤ 12 ∧ 1 ≤ s.day ∧ s.day ≤ days.getD (s.month - 1) 0 ∧
      s.hour < 24 ∧ s.minute < 60 ∧ s.second < 60 then
    let before := s.year - 1
    let day := 365 * before + before / 4 - before / 100 + before / 400 + (days.take (s.month - 1)).sum +
      (s.day - 1)
    some ((((day * 24 + s.hour) * 60 + s.minute) * 60 + s.second) * 1000000 + s.micro : Nat)
  else none

/-- `iso_utc_sort_key`. -/
def isoUtcSortKey (text : String) : Option Int := (stampParts (strip text).toList).bind StampParts.instant

example : isoUtcSortKey "2026-10-13T08:00:01Z" = (isoUtcSortKey "2026-10-13T08:00:00.5+00:00").map (· + 500000) := by
  decide +kernel

example : isoUtcSortKey "2026-02-29T08:00:00Z" = none := by decide +kernel

end Text
