import StreamClient.Client.Step
import StreamClient.Sim.Cluster
import StreamClient.Sim.Plan

/-! A client among scripted brokers, with callers that follow a plan. -/

namespace StreamClient.Sim

open Client (Consultation Party)

inductive Note where
  | dial (address : Address)
  | call (conn : Conn) (address : Address) (request : Request)
  | consulted (question : Consultation)

inductive Delivery where
  | message (m : Message)
  | error (e : CallError)

/-- What happened since the last answer, the latest in front. -/
structure Logs where
  trace : List Note := []
  closes : List Conn := []
  dropped : List Nat := []
  deliveries : List (String × Delivery) := []
  deriving Inhabited

structure Sampling where
  stream : String
  options : SubscribeOptions
  count : Nat
  left : Nat
  round : CallId := 0
  ending : Bool := false
  server : Option Address := none
  served : List Address := []
  before : Logs

abbrev TaskId := Nat

inductive Work where
  | delayed (due : Nat)
  | calling (id : CallId)
  | resting (due : Nat)
  | watching (id : CallId)
  | joining (parts : List TaskId)
  | sampling (s : Sampling)
  | finished (r : Result)

structure Task where
  step : Step
  giveUp : Option Nat := none
  work : Work
  limit : Option Nat := none

def Task.dues (task : Task) : List Nat :=
  match task.work with
  | .finished _ => []
  | .delayed due | .resting due => due :: task.limit.toList
  | _ => task.limit.toList

structure Subscriber where
  label : Option String
  limit : Option Nat
  received : Nat := 0
  bound : Bool := false

structure Handle where
  id : CallId
  stream : String
  partition : Int32

inductive Ask where
  | dial (id : CallId) (address : Address)
  | call (who : Party) (conn : Conn) (request : Request)

def Ask.party : Ask → Party
  | dial id _ => .caller id
  | call who _ _ => who

inductive Arrival where
  | answer (ask : Ask) (cue : Option Cue)
  | rouse (reader : CallId) (feed : Nat)

def Arrival.party : Arrival → Party
  | answer ask _ => ask.party
  | rouse reader _ => .session reader

structure Pending where
  due : Nat
  arrival : Arrival

inductive Worker where
  | pools
  | session (id : CallId)
  deriving DecidableEq, Repr

/-- What is to be done before anybody else gets a turn. -/
inductive Chore where
  | event (e : Client.Event)
  | arrival (a : Arrival)
  | collect (party : Party)
  | feed (id : CallId)
  | begin (t : TaskId)
  | proceed (t : TaskId)
  | giveUp (t : TaskId)
  | drop (t : TaskId)
  | join (t : TaskId)

def Worker.chores : Worker → List Chore
  | .pools => [.event .expire]
  | .session id => [.event (.run (.session id)), .collect (.session id)]

structure World where
  client : Client
  cluster : Cluster
  draws : Nat := 0
  agenda : List Chore := []
  /-- Who of the workers can go on, the one that waits longest in front. -/
  ready : List Worker := []
  /-- Whether the callers can go on. They share one turn and leave the workers theirs before it. -/
  summoned : Bool := false
  pending : List Pending := []
  tasks : Table TaskId Task := ∅
  nextTask : TaskId := 0
  nextCall : CallId := 0
  subscribers : Table CallId Subscriber := ∅
  handles : Table String Handle := ∅
  saved : Table String Snapshot := ∅
  counters : Partitioner.Counters := ∅
  logs : Logs := {}

namespace World

def create (settings : Settings) (cluster : Cluster) (draws : Nat) : World where
  client := .fresh settings 0
  cluster
  draws

def now (w : World) : Nat := w.client.now

def urge (w : World) (chores : List Chore) : World := { w with agenda := chores ++ w.agenda }

def enqueue (w : World) (k : Worker) : World :=
  if w.ready.contains k then w else { w with ready := w.ready ++ [k] }

def note (w : World) (n : Note) : World :=
  { w with logs := { w.logs with trace := n :: w.logs.trace } }

/-- Numbers without a pattern, the same in every run. -/
def random (n : Nat) : Nat :=
  let z : UInt64 := (UInt64.ofNat n + 1) * 0x9e3779b97f4a7c15
  let z := (z ^^^ (z >>> 30)) * 0xbf58476d1ce4e5b9
  let z := (z ^^^ (z >>> 27)) * 0x94d049bb133111eb
  (z ^^^ (z >>> 31)).toNat

end World
end StreamClient.Sim
