import StreamClient.Link
import StreamClient.CallOptions
import StreamClient.Session
import StreamClient.Settings

/-! The state of a client, what can happen to it and what it asks for. -/

namespace StreamClient

namespace Client

inductive Op where
  /-- Dials the bootstrap addresses and fetches the first snapshot. -/
  | connect
  | createStream (name : String) (options : CreateOptions)
  | deleteStream (name : String)
  | publish (stream : String) (value : Bytes) (options : PublishOptions)
  | publishToSubject (subject : String) (value : Bytes) (options : PublishOptions)
  | subscribe (stream : String) (options : SubscribeOptions)
  | fetchMetadata
  | close
  deriving DecidableEq, Repr

inductive Outcome where
  | done
  | acked (ack : Option Ack)
  | refreshed (snapshot : Snapshot)
  deriving DecidableEq, Repr

/-- Who asks for something: a call, or the session that a subscribe call started. -/
inductive Party where
  | caller (id : CallId)
  | session (id : CallId)
  deriving DecidableEq, Repr

structure Consultation where
  partitioner : Partitioner
  stream : String
  key : Option Bytes
  value : Bytes
  ackPolicy : AckPolicy
  snapshot : Snapshot
  deriving DecidableEq, Repr

inductive Effect where
  | dial (id : CallId) (address : Address)
  | call (who : Party) (conn : Conn) (request : Request)
  /-- The open dial or call is of no use any more. -/
  | withdraw (who : Party)
  | close (conn : Conn)
  | dropStream (id : CallId)
  | consult (id : CallId) (question : Consultation)
  | wake (who : Party)
  | deliver (id : CallId) (message : Message)
  | report (id : CallId) (error : CallError)
  | terminated (id : CallId)
  | finish (id : CallId) (result : Except CallError Outcome)

inductive Event where
  | start (id : CallId) (op : Op)
  | dialed (id : CallId) (result : Except Fault Conn)
  | answered (who : Party) (result : Except Fault Reply)
  | chosen (id : CallId) (partition : Int32)
  | run (who : Party)
  | item (id : CallId) (item : Except Fault Message)
  | ended (id : CallId)
  | unsubscribe (id : CallId)
  | abandon (id : CallId)
  /-- The time of a call is up. -/
  | lapse (id : CallId)
  | tick (now : Nat)
  | expire

/-- What a call wants from the link, and so what follows from the answer. -/
inductive Goal where
  | connect
  | create (name : String)
  /-- The refresh after a stream was created. -/
  | created
  | delete (name : String)
  | publish
  | fetch
  /-- A refresh between two lookups, with `left` lookups to follow. -/
  | resolve (s : Subscription) (left : Nat)
  deriving DecidableEq, Repr

structure Draft where
  stream : String
  payload : Payload
  deadline : Option Span
  deriving DecidableEq, Repr

/-- Where a call stands. -/
inductive Stage where
  /-- Dialing a bootstrap address, with others to follow. -/
  | probing (rest : List Address)
  | choosing (draft : Draft)
  /-- On the link; `due` is when the answer is no longer waited for. -/
  | linking (goal : Goal) (due : Option Nat)
  | pausing (s : Subscription) (left : Nat) (due : Nat)
  /-- Dialing the broker that serves the partition. -/
  | joining (s : Subscription) (address : Address)
  /-- The session runs and has possibly told whether the broker accepted. -/
  | greeting (s : Subscription) (verdict : Option (Except Fault Unit)) (due : Option Nat)
  | closing

end Client

structure Client where
  settings : Settings
  now : Nat := 0
  snapshot : Snapshot
  link : Link Request
  /-- One pool for each broker that ever served a subscription. -/
  pools : Table Address Pool := ∅
  closed : Bool := false
  calls : Table CallId Client.Stage := ∅
  sessions : Table CallId Session := ∅

namespace Client

def fresh (settings : Settings) (now : Nat) : Client where
  settings
  now
  snapshot := .initial settings.bootstrap
  link := .start settings.attempts

def text (c : Client) : String :=
  "Client \x7b dispatcher: Dispatcher \x7b max_attempts: " ++ toString c.link.attempts
    ++ ", .. \x7d, closed: " ++ toString c.closed ++ ", .. \x7d"

def Stage.due? : Stage → Option Nat
  | linking _ due | greeting _ _ due => due
  | pausing _ _ due => some due
  | _ => none

def lapsing (c : Client) : List CallId :=
  c.calls.entries.filterMap fun (id, stage) =>
    if stage.due?.any (· ≤ c.now) then some id else none

def poolDue? (c : Client) : Option Nat := (c.pools.values.filterMap Pool.due?).min?

def due? (c : Client) : Option Nat :=
  (c.calls.values.filterMap Stage.due? ++ c.poolDue?.toList).min?

/-- Whether the session that the call started is still running. -/
def isRunning (c : Client) (id : CallId) : Bool := c.sessions.contains id

def isHeard (c : Client) (id : CallId) : Bool :=
  match c.calls.get? id with
  | some (.greeting ..) => true
  | _ => false

end Client
end StreamClient
