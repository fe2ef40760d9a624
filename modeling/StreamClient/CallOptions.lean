import StreamClient.CallError
import StreamClient.Partitioning
import StreamClient.Request

/-! Settings that a single call of the client takes, and the requests they make. -/

namespace StreamClient

structure CreateOptions where
  /-- The stream is attached to its own name if this is missing or empty. -/
  subject : Option String := none
  /-- -1 stands for every broker of the cluster. -/
  replicationFactor : Int := 1
  group : String := ""
  partitions : Int := 1
  deriving DecidableEq, Repr, Inhabited

namespace CreateOptions

def creation (o : CreateOptions) (name : String) : Except CallError Creation :=
  if o.partitions < 0 then
    .error (.invalidArgument ("partitions cannot be negative, got " ++ toString o.partitions))
  else if o.replicationFactor = 0 ∨ o.replicationFactor < -1 then
    .error (.invalidArgument
      ("replication factor must be positive or -1, got " ++ toString o.replicationFactor))
  else
    .ok {
      name
      subject := if o.subject.getD "" = "" then name else o.subject.getD ""
      replicationFactor := o.replicationFactor
      group := o.group
      partitions := o.partitions }

end CreateOptions

structure PublishOptions where
  key : Option Bytes := none
  headers : Headers := []
  ackInbox : Option String := none
  correlationId : Option String := none
  ackPolicy : AckPolicy := .leader
  /-- Asked only if `partition` is missing. -/
  partitioner : Partitioner := .constant 0
  partition : Option Int32 := none
  ackDeadline : Option Span := none
  deriving DecidableEq, Repr, Inhabited

namespace PublishOptions

/-- No ack is waited for without an ack policy, and a deadline of zero is none. -/
def deadline (o : PublishOptions) : Option Span :=
  match o.ackPolicy with
  | .none => none
  | .leader | .all => o.ackDeadline.filter fun d => !d.isZero

def payload (o : PublishOptions) (value : Bytes) : Payload where
  key := o.key
  value
  headers := o.headers
  ackPolicy := o.ackPolicy
  ackInbox := o.ackInbox
  correlationId := o.correlationId

end PublishOptions

structure SubscribeOptions where
  partition : Int32 := 0
  start : StartPosition := .newOnly
  readIsrReplica : Bool := false
  deriving DecidableEq, Repr, Inhabited

def SubscribeOptions.subscription (o : SubscribeOptions) (stream : String) : Subscription where
  stream
  partition := o.partition
  start := o.start
  readIsrReplica := o.readIsrReplica

end StreamClient
