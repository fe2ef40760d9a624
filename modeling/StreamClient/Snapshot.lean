import StreamClient.Table
import StreamClient.Topology

/-!
A snapshot of the cluster: the reported topology with one entry for each thing and references looked
up.
-/

namespace StreamClient

namespace Snapshot

structure Partition where
  id : Int32
  leader : Option Broker
  replicas : List Broker
  isr : List Broker
  deriving DecidableEq, Repr

structure Stream where
  name : String
  subject : String
  partitions : Table Int32 Partition
  deriving DecidableEq, Repr

end Snapshot

structure Snapshot where
  brokers : Table String Broker := ∅
  streams : Table String Snapshot.Stream := ∅
  /-- Addresses that the client was given; no refresh changes them. -/
  bootstrap : List Address := []
  deriving DecidableEq, Repr, Inhabited

namespace Snapshot

def insertAddress (a : Address) : List Address → List Address
  | [] => [a]
  | b :: r => if a < b then a :: b :: r else if a = b then b :: r else b :: insertAddress a r

def distinctAddresses (l : List Address) : List Address := l.foldr insertAddress []

theorem mem_insertAddress {a x : Address} {l : List Address} :
    x ∈ insertAddress a l ↔ x = a ∨ x ∈ l := by
  induction l with
  | nil => simp [insertAddress]
  | cons b r ih => grind [insertAddress]

theorem mem_distinctAddresses {x : Address} {l : List Address} :
    x ∈ distinctAddresses l ↔ x ∈ l := by
  induction l with
  | nil => simp [distinctAddresses]
  | cons a r ih => simpa [distinctAddresses, mem_insertAddress] using or_congr_right ih

/-- The listed brokers of that name, where the last listing of a name counts. -/
def brokerTable (t : Topology) : Table String Broker :=
  .ofList (t.brokers.map fun b => (b.id, b))

/-- The known brokers among `ids`, each at its first mention. -/
def members (brokers : Table String Broker) (ids : List String) : List Broker :=
  ids.eraseDups.filterMap brokers.get?

def Partition.ofTopology (brokers : Table String Broker) (p : Topology.Partition) : Partition where
  id := p.id
  leader := p.leader.bind brokers.get?
  replicas := members brokers p.replicas
  isr := members brokers p.isr

def Stream.ofTopology (brokers : Table String Broker) (s : Topology.Stream) : Stream where
  name := s.name
  subject := s.subject
  partitions := .ofList (s.partitions.map fun p => (p.id, Partition.ofTopology brokers p))

def initial (bootstrap : List Address) : Snapshot := { bootstrap := distinctAddresses bootstrap }

def ofTopology (bootstrap : List Address) (t : Topology) : Snapshot where
  brokers := brokerTable t
  streams := .ofList (t.streams.map fun s => (s.name, Stream.ofTopology (brokerTable t) s))
  bootstrap := distinctAddresses bootstrap

def broker? (s : Snapshot) (id : String) : Option Broker := s.brokers.get? id

def stream? (s : Snapshot) (name : String) : Option Stream := s.streams.get? name

def partition? (s : Snapshot) (stream : String) (id : Int32) : Option Partition :=
  (s.stream? stream).bind fun x => x.partitions.get? id

def hasStream (s : Snapshot) (name : String) : Bool := s.streams.contains name

def partitionCount (s : Snapshot) (stream : String) : Nat :=
  match s.stream? stream with
  | some x => x.partitions.size
  | none => 0

/-- Where the client may turn to: the bootstrap addresses and those of the known brokers. -/
def addresses (s : Snapshot) : List Address :=
  distinctAddresses (s.bootstrap ++ s.brokers.values.map Broker.address)

def brokerList (s : Snapshot) : List Broker :=
  s.brokers.values.mergeSort fun a b => decide (a.id ≤ b.id)

def streamList (s : Snapshot) : List Stream :=
  s.streams.values.mergeSort fun a b => decide (a.name ≤ b.name)

def Stream.partitionList (s : Stream) : List Partition :=
  s.partitions.values.mergeSort fun a b => decide (a.id ≤ b.id)

end Snapshot
end StreamClient
