/-!
What a broker reports about its cluster: lists that may name a thing twice and refer to unknown
brokers.
-/

namespace StreamClient

abbrev Address := String

structure Broker where
  id : String
  host : String
  socket : UInt16
  deriving DecidableEq, Repr

def Broker.address (b : Broker) : Address := b.host ++ ":" ++ toString b.socket.toNat

/-- A broker with its identity in front, as in `b1@host:9292`. -/
def Broker.label (b : Broker) : String := b.id ++ "@" ++ b.address

namespace Topology

structure Partition where
  id : Int32
  leader : Option String := none
  replicas : List String := []
  isr : List String := []
  deriving DecidableEq, Repr

structure Stream where
  name : String
  subject : String
  partitions : List Partition
  deriving DecidableEq, Repr

end Topology

structure Topology where
  brokers : List Broker := []
  streams : List Topology.Stream := []
  deriving DecidableEq, Repr, Inhabited

end StreamClient
