import StreamClient.Message
import StreamClient.Span
import StreamClient.Topology

/-! What is asked of a broker and what it answers. -/

namespace StreamClient

inductive Method where
  | fetchMetadata
  | createStream
  | deleteStream
  | publish
  | publishToSubject
  | subscribe
  deriving DecidableEq, Repr

namespace Method

def text : Method → String
  | fetchMetadata => "fetch_metadata"
  | createStream => "create_stream"
  | deleteStream => "delete_stream"
  | publish => "publish"
  | publishToSubject => "publish_to_subject"
  | subscribe => "subscribe"

end Method

structure Creation where
  name : String
  subject : String
  replicationFactor : Int
  group : String
  partitions : Int
  deriving DecidableEq, Repr

structure Payload where
  key : Option Bytes
  value : Bytes
  headers : Headers
  ackPolicy : AckPolicy
  ackInbox : Option String
  correlationId : Option String
  deriving DecidableEq, Repr

structure Subscription where
  stream : String
  partition : Int32
  start : StartPosition
  readIsrReplica : Bool
  deriving DecidableEq, Repr

inductive Request where
  | fetchMetadata
  | createStream (creation : Creation)
  | deleteStream (name : String)
  | publish (stream : String) (partition : Int32) (payload : Payload) (deadline : Option Span)
  | publishToSubject (subject : String) (payload : Payload) (deadline : Option Span)
  | subscribe (subscription : Subscription)
  deriving DecidableEq, Repr

namespace Request

def method : Request → Method
  | fetchMetadata => .fetchMetadata
  | createStream _ => .createStream
  | deleteStream _ => .deleteStream
  | publish .. => .publish
  | publishToSubject .. => .publishToSubject
  | subscribe _ => .subscribe

def deadline : Request → Option Span
  | publish _ _ _ d | publishToSubject _ _ d => d
  | _ => none

end Request

/-- A good answer. Only a metadata fetch fills the topology, only a publish the ack. -/
structure Reply where
  topology : Topology := {}
  ack : Option Ack := none
  deriving DecidableEq, Repr, Inhabited

end StreamClient
