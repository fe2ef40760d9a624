import StreamClient.Client.Sessions
import StreamClient.Snapshot.Route

/-! From a partition to a connection to the broker that serves it. -/

namespace StreamClient.Client

def pool (c : Client) (address : Address) : Pool :=
  (c.pools.get? address).getD
    { address, capacity := c.settings.maxIdle, keepAlive := c.settings.keepAlive }

def join (c : Client) (id : CallId) (s : Subscription) (address : Address) : Move :=
  if c.closed then c.finish id (.error .closed)
  else
    match (c.pool address).take? with
    | some (conn, p) => { c with pools := c.pools.put address p }.launch id s address conn
    | none =>
      ({ c with pools := c.pools.put address (c.pool address) }.put id (.joining s address),
       [.dial id address])

/-- Looks the partition up, with `left` more lookups to follow if it is unknown. -/
def lookup (draw : Nat) (c : Client) (id : CallId) (s : Subscription) (left : Nat) : Move :=
  match c.snapshot.route s.stream s.partition s.readIsrReplica draw with
  | some address => c.join id s address
  | none =>
    match left with
    | 0 => c.finish id (.error (.noSuchPartition s.stream s.partition none))
    | n + 1 => (c.put id (.pausing s n (Span.pauseEnd c.now c.settings.lookupDelay.ceilMillis)), [])

end StreamClient.Client
