/-! Lengths of time to the nanosecond, and the text they are shown as. -/

namespace StreamClient

structure Span where
  nanos : Nat
  deriving DecidableEq, Repr, Inhabited

namespace Span

def zero : Span := ⟨0⟩

def ofMillis (ms : Nat) : Span := ⟨ms * 1000000⟩

def ofSeconds (s : Nat) : Span := ⟨s * 1000000000⟩

def isZero (d : Span) : Bool := d.nanos == 0

/-- Whole milliseconds a timer of this length runs: a fraction counts as a full one. -/
def ceilMillis (d : Span) : Nat := (d.nanos + 999999) / 1000000

/-- No pause is longer than thirty years, in milliseconds: the runtime sleeps no longer, whatever it
is asked for. A time-out is no sleep: the deadline of an ack and the time-out of a handshake are taken
to run to their end, however far away that is. -/
def longestPause : Nat := 30 * 365 * 86400 * 1000

def pauseEnd (now millis : Nat) : Nat := now + min millis longestPause

def fraction (n places : Nat) : String :=
  let digits := (Nat.toDigits 10 n)
  let padded := List.replicate (places - digits.length) '0' ++ digits
  let kept := (padded.reverse.dropWhile (· == '0')).reverse
  if kept.isEmpty then "" else "." ++ String.ofList kept

/-- The largest unit that does not exceed the length, with as many decimals as are needed. -/
def text (d : Span) : String :=
  let (unit, places, name) :=
    if d.nanos ≥ 1000000000 then (1000000000, 9, "s")
    else if d.nanos ≥ 1000000 then (1000000, 6, "ms")
    else if d.nanos ≥ 1000 then (1000, 3, "µs")
    else (1, 0, "ns")
  toString (d.nanos / unit) ++ (if places = 0 then "" else fraction (d.nanos % unit) places) ++ name

theorem ceilMillis_pos (d : Span) : 0 < d.ceilMillis ↔ d.isZero = false := by
  simp only [ceilMillis, isZero, beq_eq_false_iff_ne]
  omega

end Span
end StreamClient
