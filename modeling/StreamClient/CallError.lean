import StreamClient.Fault

/-! What a caller of the client, or a subscriber, is told when something fails. -/

namespace StreamClient

inductive CallError where
  | rpc (fault : Fault)
  | streamExists (stream : String) (fault : Fault)
  | noSuchStream (stream : String) (fault : Fault)
  | noSuchPartition (stream : String) (partition : Int32) (fault : Option Fault)
  | streamDeleted (stream : String) (partition : Int32) (fault : Fault)
  | partitionPaused (stream : String) (partition : Int32) (fault : Fault)
  | deadlineExceeded (fault : Fault)
  | invalidArgument (message : String)
  | noBrokers
  | closed
  deriving DecidableEq, Repr

namespace CallError

/-- The fault behind the error, whether or not the text mentions it. -/
def fault? : CallError → Option Fault
  | rpc f | streamExists _ f | noSuchStream _ f | streamDeleted _ _ f | partitionPaused _ _ f
  | deadlineExceeded f => some f
  | noSuchPartition _ _ f => f
  | invalidArgument _ | noBrokers | closed => none

def status? (e : CallError) : Option Status := e.fault?.map Fault.status

/-- The fault named as the cause. An exceeded deadline is its own cause and names none. -/
def cause? : CallError → Option Fault
  | deadlineExceeded _ => none
  | e => e.fault?

private def place (stream : String) (partition : Int32) : String :=
  "stream \"" ++ stream ++ "\" partition " ++ toString partition.toInt

def text : CallError → String
  | rpc f => "RPC error: " ++ f.text
  | streamExists s _ => "Stream already exists: " ++ s
  | noSuchStream s _ => "Stream does not exist: " ++ s
  | noSuchPartition s p _ => "No such partition: " ++ place s p
  | streamDeleted s p _ => "Stream was deleted: " ++ place s p
  | partitionPaused s p _ => "Partition was paused: " ++ place s p
  | deadlineExceeded f => "Deadline exceeded: " ++ f.text
  | invalidArgument m => "Invalid argument: " ++ m
  | noBrokers => "No bootstrap brokers given"
  | closed => "Client is closed"

def ofCreate (stream : String) (f : Fault) : CallError :=
  if f.status = .alreadyExists then streamExists stream f else rpc f

def ofDelete (stream : String) (f : Fault) : CallError :=
  if f.status = .notFound then noSuchStream stream f else rpc f

def ofPublish (f : Fault) : CallError :=
  if f.status = .deadlineExceeded then deadlineExceeded f else rpc f

/-- Why a subscription was not accepted. -/
def ofHandshake (stream : String) (partition : Int32) (f : Fault) : CallError :=
  match f.status with
  | .notFound => noSuchPartition stream partition (some f)
  | .deadlineExceeded => deadlineExceeded f
  | _ => rpc f

/-- What the subscriber is told when an accepted subscription fails: nothing if it was cancelled. -/
def ofDelivery (stream : String) (partition : Int32) (f : Fault) : Option CallError :=
  match f.status with
  | .cancelled => none
  | .notFound => some (streamDeleted stream partition f)
  | .failedPrecondition => some (partitionPaused stream partition f)
  | _ => some (rpc f)

end CallError
end StreamClient
