import StreamClient.Instant

/-! Messages of a stream partition and the acknowledgement of a published one. -/

namespace StreamClient

abbrev Bytes := List UInt8

abbrev Headers := List (String × Bytes)

inductive AckPolicy where
  | leader
  | all
  | none
  deriving DecidableEq, Repr

instance : Inhabited AckPolicy := ⟨.leader⟩

inductive StartPosition where
  | newOnly
  | offset (n : Int)
  | earliest
  | latest
  | timestamp (t : Instant)
  deriving DecidableEq, Repr

instance : Inhabited StartPosition := ⟨.newOnly⟩

structure Message where
  offset : Int := 0
  key : Option Bytes := none
  value : Bytes := []
  timestamp : Instant := ⟨0⟩
  stream : String := ""
  partition : Int32 := 0
  subject : String := ""
  replySubject : String := ""
  headers : Headers := []
  deriving DecidableEq, Repr, Inhabited

structure Ack where
  stream : String
  partitionSubject : String
  messageSubject : String
  offset : Int
  ackInbox : String
  correlationId : String
  policy : AckPolicy
  deriving DecidableEq, Repr

end StreamClient
