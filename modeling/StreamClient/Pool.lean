import StreamClient.Quoted
import StreamClient.Span
import StreamClient.Topology

/-!
Idle connections to one broker, kept for reuse until their time is up.

The timers are those of a queue with a range: a timer that is due more than 2^36 - 1 milliseconds
after the queue was last looked at, some two years, is a panic. That is not modelled; what is said of
a pool here is said of a `keepAlive` within the range of the timer queue.
-/

namespace StreamClient

abbrev Conn := Nat

structure Pool where
  address : Address
  /-- Most idle connections kept; 0 is no limit. -/
  capacity : Nat
  /-- Zero is for ever; else within the range of the timer queue. -/
  keepAlive : Span
  /-- Idle connections under the number of their release, the oldest in front. -/
  idle : List (Nat × Conn) := []
  /-- When a release runs out, for those that do. -/
  timers : List (Nat × Nat) := []
  nextKey : Nat := 0
  closed : Bool := false
  deriving DecidableEq, Repr

namespace Pool

def idleCount (p : Pool) : Nat := p.idle.length

def conns (p : Pool) : List Conn := p.idle.map Prod.snd

def isFull (p : Pool) : Bool := p.capacity != 0 && decide (p.capacity ≤ p.idle.length)

/-- Takes a connection back at time `now`, with the connections closed by this. Only a release that
is `timed` runs out, which takes a `keepAlive` within the range of the timer queue. -/
def release (p : Pool) (now : Nat) (timed : Bool) (c : Conn) : Pool × List Conn :=
  if p.closed || p.isFull then (p, [c])
  else
    ({ p with
        idle := p.idle ++ [(p.nextKey, c)]
        timers :=
          if timed && !p.keepAlive.isZero then
            p.timers ++ [(now + p.keepAlive.ceilMillis, p.nextKey)]
          else p.timers
        nextKey := p.nextKey + 1 }, [])

def take? (p : Pool) : Option (Conn × Pool) :=
  match p.idle with
  | [] => none
  | (k, c) :: r => some (c, { p with idle := r, timers := p.timers.filter fun t => t.2 ≠ k })

/-- Closes every idle connection; later releases are closed at once. -/
def close (p : Pool) : Pool × List Conn :=
  ({ p with idle := [], timers := [], closed := true }, p.conns)

def expired (p : Pool) (now : Nat) : List Nat :=
  (p.timers.filter fun t => decide (t.1 ≤ now)).map Prod.snd

def expire (p : Pool) (now : Nat) : Pool × List Conn :=
  ({ p with
      idle := p.idle.filter fun e => !(p.expired now).contains e.1
      timers := p.timers.filter fun t => decide (now < t.1) },
   (p.idle.filter fun e => (p.expired now).contains e.1).map Prod.snd)

def due? (p : Pool) : Option Nat := (p.timers.map Prod.fst).min?

/-- Lets the clock run on to `time`, with the moment at which each connection is closed; every round
ends the time of one release at least, so the number of timers bounds the rounds. -/
def elapse (p : Pool) (time : Nat) : Pool × List (Nat × Conn) :=
  go p.timers.length p
where
  go : Nat → Pool → Pool × List (Nat × Conn)
    | 0, p => (p, [])
    | n + 1, p =>
      match p.due? with
      | none => (p, [])
      | some due =>
        if due ≤ time then
          let (p, closes) := p.expire due
          let (p, later) := go n p
          (p, closes.map (due, ·) ++ later)
        else (p, [])

def text (p : Pool) : String :=
  "ConnectionPool \x7b addr: " ++ Quoted.text p.address ++ ", max_conns: " ++ toString p.capacity
    ++ ", keep_alive: " ++ p.keepAlive.text ++ ", .. \x7d"

end Pool
end StreamClient
