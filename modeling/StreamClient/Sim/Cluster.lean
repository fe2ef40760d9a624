import StreamClient.Client.Basic
import StreamClient.Sim.Script

/-! Brokers that follow a script, and answer by simple rules where it is silent. -/

namespace StreamClient.Sim

open Client (Party)

structure Feed where
  reader : CallId
  items : List Item
  isOpen : Bool := true
  asleep : Bool := false
  deriving DecidableEq, Repr

structure Cluster where
  topology : Topology := {}
  refuse : List Address := []
  down : List Address := []
  script : Script := ∅
  acks : Nat := 0
  conns : Table Conn Address := ∅
  feeds : Table Nat Feed := ∅

namespace Cluster

def cue (k : Cluster) (slot : Slot) : Option Cue × Cluster :=
  let (cue, script) := k.script.next slot
  (cue, { k with script })

def address (k : Cluster) (c : Conn) : Address := (k.conns.get? c).getD ""

def connect (k : Cluster) (a : Address) : Conn × Cluster :=
  let c := k.conns.size + 1
  (c, { k with conns := k.conns.put c a })

def dial (k : Cluster) (a : Address) (cue : Option Cue) : Except Fault Conn × Cluster :=
  match cue.bind Cue.fault with
  | some f => (.error f, k)
  | none =>
    if (cue.bind Cue.gift).isNone && k.refuse.contains a then
      (.error (.unavailable ("cannot dial " ++ a)), k)
    else
      let (c, k) := k.connect a
      (.ok c, k)

def openFeed (k : Cluster) (reader : CallId) (items : List Item) : Cluster :=
  { k with feeds := k.feeds.put k.feeds.size { reader, items } }

def ack (k : Cluster) (stream subject : String) (p : Payload) : Reply × Cluster :=
  let ack : Ack :=
    { stream
      partitionSubject := subject
      messageSubject := subject
      offset := k.acks
      ackInbox := p.ackInbox.getD ""
      correlationId := p.correlationId.getD ""
      policy := p.ackPolicy }
  ({ ack := if p.ackPolicy = .none then none else some ack }, { k with acks := k.acks + 1 })

def serve (k : Cluster) : Request → Reply × Cluster
  | .fetchMetadata => ({ topology := k.topology }, k)
  | .publish stream _ p _ => k.ack stream stream p
  | .publishToSubject subject p _ => k.ack "" subject p
  | _ => ({}, k)

def call (k : Cluster) (who : Party) (c : Conn) (q : Request) (cue : Option Cue) :
    Except Fault Reply × Cluster :=
  match cue.bind Cue.fault, cue.bind Cue.gift with
  | some f, _ => (.error f, k)
  | none, some g =>
    match who with
    | .session id => (.ok g.reply, k.openFeed id g.items)
    | .caller _ => (.ok g.reply, k)
  | none, none =>
    if k.down.contains (k.address c) then (.error (.unavailable (k.address c ++ " is down")), k)
    else
      match who with
      | .session id => (.ok {}, k.openFeed id [.message {}])
      | .caller _ =>
        let (reply, k) := k.serve q
        (.ok reply, k)

def feedOf? (k : Cluster) (id : CallId) : Option (Nat × Feed) :=
  k.feeds.entries.find? fun e => e.2.reader = id && e.2.isOpen

def setFeed (k : Cluster) (n : Nat) (f : Feed) : Cluster := { k with feeds := k.feeds.put n f }

end Cluster
end StreamClient.Sim
