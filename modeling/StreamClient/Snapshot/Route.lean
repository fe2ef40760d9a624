import StreamClient.Draw
import StreamClient.Snapshot

/-! Which broker serves a partition. -/

namespace StreamClient.Snapshot

/-- The leader, or a drawn member of the in-sync replicas if those are preferred and any is known. -/
def Partition.server (p : Partition) (preferIsr : Bool) (draw : Nat) : Option Broker :=
  if preferIsr then (choose draw p.isr).or p.leader else p.leader

def route (s : Snapshot) (stream : String) (partition : Int32) (preferIsr : Bool) (draw : Nat) :
    Option Address :=
  (s.partition? stream partition).bind fun p => (p.server preferIsr draw).map Broker.address

end StreamClient.Snapshot
