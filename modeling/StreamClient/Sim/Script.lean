import StreamClient.Fault
import StreamClient.Request
import StreamClient.Table

/-! What scripted brokers do with the dials and calls that come next. -/

namespace StreamClient.Sim

inductive Item where
  | message (m : Message)
  | fault (f : Fault)
  | wait (millis : Nat)
  | finish
  deriving DecidableEq, Repr

/-- A scripted success. Only a subscribe call uses the items. -/
structure Gift where
  reply : Reply := {}
  items : List Item := []
  deriving DecidableEq, Repr

structure Cue where
  delay : Nat := 0
  hang : Bool := false
  fault : Option Fault := none
  gift : Option Gift := none
  /-- How often the cue is taken; 0 counts as 1. -/
  times : Nat := 1
  deriving DecidableEq, Repr

inductive Slot where
  | dial
  | call (m : Method)
  deriving DecidableEq, Repr

abbrev Script := Table Slot (List Cue)

namespace Script

def next (s : Script) (slot : Slot) : Option Cue × Script :=
  match s.get? slot with
  | some (cue :: r) =>
    (some cue, s.put slot (if cue.times ≤ 1 then r else { cue with times := cue.times - 1 } :: r))
  | _ => (none, s)

end Script
end StreamClient.Sim
