import StreamClient.Client.Basic
import StreamClient.Sim.Script

/-! What callers do with a client, step by step, and what a step results in. -/

namespace StreamClient.Sim

open Client (Op Outcome)

structure Change where
  topology : Option Topology := none
  refuse : Option (List Address) := none
  down : Option (List Address) := none
  script : List (Slot × List Cue) := []

/-- When a step starts and how long it is waited for, in milliseconds. -/
structure Timing where
  after : Nat := 0
  giveUp : Option Nat := none

inductive Step where
  | call (op : Op)
  /-- The subscriber cancels the subscription itself after some messages, if a number is given. -/
  | subscribe (label stream : String) (options : SubscribeOptions) (limit : Option Nat)
  | unsubscribe (label : String)
  | waitTerminated (label : String)
  | status (label : String)
  | push (feed : Nat) (items : List Item)
  | metadata (saveAs : Option String)
  | saved (name : String)
  | sleep (millis : Nat)
  | describe
  | change (c : Change)
  | concurrent (steps : List (Step × Timing))
  /-- Subscribes and unsubscribes many times over. -/
  | sample (stream : String) (options : SubscribeOptions) (count : Nat)

instance : Inhabited Step := ⟨.describe⟩

inductive Missing where
  | label
  | name
  | feed

inductive Result where
  | nothing
  | call (r : Except CallError Outcome)
  | flag (b : Bool)
  | text (s : String)
  | snapshot (s : Snapshot)
  | status (stream : String) (partition : Int32) (terminated : Bool)
  | missing (what : Missing)
  | all (results : List Result)
  | sampled (addresses : List Address) (balanced : Bool)
  | gaveUp

instance : Inhabited Result := ⟨.nothing⟩

end StreamClient.Sim
