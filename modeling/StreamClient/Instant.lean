/-!
Moments of time, counted in nanoseconds since the start of 1970 in universal time, and their civil
date.
-/

namespace StreamClient

structure Instant where
  nanos : Int
  deriving DecidableEq, Repr, Inhabited

/-- A day of the proleptic Gregorian calendar. -/
structure CivilDate where
  year : Int
  month : Nat
  day : Nat
  deriving DecidableEq, Repr

namespace CivilDate

/-- The date `days` days after 1 January 1970. Years are counted from 1 March, so that a leap day
ends one. -/
def ofDays (days : Int) : CivilDate :=
  let z := days + 719468
  let era := z / 146097
  let dayOfEra := (z % 146097).toNat
  let yearOfEra := (dayOfEra - dayOfEra / 1460 + dayOfEra / 36524 - dayOfEra / 146096) / 365
  let dayOfYear := dayOfEra - (365 * yearOfEra + yearOfEra / 4 - yearOfEra / 100)
  let shifted := (5 * dayOfYear + 2) / 153
  let month := if shifted < 10 then shifted + 3 else shifted - 9
  { year := (yearOfEra : Int) + era * 400 + (if month ≤ 2 then 1 else 0)
    month := month
    day := dayOfYear - (153 * shifted + 2) / 5 + 1 }

end CivilDate

namespace Instant

def seconds (t : Instant) : Int := t.nanos / 1000000000

def subsecNanos (t : Instant) : Nat := (t.nanos % 1000000000).toNat

private def padded (width n : Nat) : String :=
  let digits := Nat.toDigits 10 n
  String.ofList (List.replicate (width - digits.length) '0' ++ digits)

def utcText (t : Instant) : String :=
  let date := CivilDate.ofDays (t.seconds / 86400)
  let time := (t.seconds % 86400).toNat
  padded 4 date.year.toNat ++ "-" ++ padded 2 date.month ++ "-" ++ padded 2 date.day ++ " "
    ++ padded 2 (time / 3600) ++ ":" ++ padded 2 (time / 60 % 60) ++ ":" ++ padded 2 (time % 60)

theorem seconds_add_subsec (t : Instant) : t.seconds * 1000000000 + t.subsecNanos = t.nanos := by
  simp only [seconds, subsecNanos]
  omega

end Instant
end StreamClient
