import StreamClient.Fault
import StreamClient.Pool

/-! One pool on its own, with callers that follow a plan. -/

namespace StreamClient.Sim

structure Factory where
  delay : Nat := 0
  fault : Option Fault := none

inductive PoolStep where
  | release (c : Conn) (timed : Bool)
  | acquire (factory : Factory)
  | close
  /-- The pool is given up; nothing is closed by this. -/
  | drop
  | sleep (millis : Nat)
  | describe
  | address

namespace PoolStep

def name : PoolStep → String
  | release .. => "release"
  | acquire _ => "acquire"
  | close => "close"
  | drop => "drop"
  | sleep _ => "sleep"
  | describe => "debug"
  | address => "addr"

end PoolStep

inductive PoolResult where
  | nothing
  | acquired (c : Conn) (isNew : Bool)
  | failed (f : Fault)
  | text (s : String)
  | refused (step : String)

structure PoolReport where
  result : PoolResult
  idle : Option Nat
  closes : List Conn
  time : Nat

structure PoolBench where
  pool : Option Pool
  now : Nat := 0
  seen : List Conn := []

namespace PoolBench

def wait (b : PoolBench) (millis : Nat) : PoolBench × List Conn :=
  let now := Span.pauseEnd b.now millis
  match b.pool with
  | none => ({ b with now }, [])
  | some p =>
    let (p, closes) := p.elapse now
    ({ b with now, pool := some p }, closes.map Prod.snd)

def sight (b : PoolBench) (c : Conn) : PoolBench :=
  if b.seen.contains c then b else { b with seen := c :: b.seen }

def act (b : PoolBench) (p : Pool) : PoolStep → PoolResult × List Conn × PoolBench
  | .release c timed =>
    let (p, closes) := p.release b.now timed c
    (.nothing, closes, { b with pool := some p }.sight c)
  | .acquire factory =>
    match p.take? with
    | some (c, p) => (.acquired c (!b.seen.contains c), [], { b with pool := some p }.sight c)
    | none =>
      let c := b.seen.foldl max 0 + 1
      let (b, closes) := b.wait factory.delay
      match factory.fault with
      | some f => (.failed f, closes, b)
      | none => (.acquired c (!b.seen.contains c), closes, b.sight c)
  | .close =>
    let (p, closes) := p.close
    (.nothing, closes, { b with pool := some p })
  | .drop => (.nothing, [], { b with pool := none })
  | .sleep millis =>
    let (b, closes) := b.wait millis
    (.nothing, closes, b)
  | .describe => (.text p.text, [], b)
  | .address => (.text p.address, [], b)

def step (b : PoolBench) (s : PoolStep) : PoolReport × PoolBench :=
  let (result, closes, b) :=
    match b.pool, s with
    | some p, s => b.act p s
    | none, .sleep millis =>
      let (b, closes) := b.wait millis
      (.nothing, closes, b)
    | none, s => (.refused s.name, [], b)
  let (b, late) := b.wait 0
  ({ result
     idle := b.pool.map Pool.idleCount
     closes := (closes ++ late).mergeSort
     time := b.now },
   b)

def run (b : PoolBench) : List PoolStep → List PoolReport
  | [] => []
  | s :: r =>
    let (report, b) := b.step s
    report :: b.run r

end PoolBench
end StreamClient.Sim
