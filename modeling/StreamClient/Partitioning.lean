import StreamClient.Hash
import StreamClient.Quoted
import StreamClient.Snapshot

/-! Strategies that pick the partition of a message that names none. -/

namespace StreamClient

inductive Partitioner where
  | constant (partition : Int32)
  | byKey
  /-- The partitions of each stream in turn, by the counters kept under a name. -/
  | roundRobin (counters : String)
  /-- Always the same partition, chosen by a strategy of the caller's own. -/
  | custom (partition : Int32)
  deriving DecidableEq, Repr

instance : Inhabited Partitioner := ⟨.constant 0⟩

/-- How often each stream was served, modulo the word size. -/
abbrev Rotation := Table String UInt64

namespace Rotation

/-- A stream without known partitions gets partition 0 and is not counted. -/
def pick (r : Rotation) (stream : String) (count : Nat) : Int32 × Rotation :=
  if count = 0 then (0, r)
  else
    let served := (r.get? stream).getD 0
    (Int32.ofNat (served.toNat % count), r.put stream (served + 1))

end Rotation

namespace Partitioner

/-- A message without a key, or for a stream without known partitions, goes to partition 0. -/
def keyPartition (key : Option Bytes) (count : Nat) : Int32 :=
  match key with
  | none => 0
  | some k =>
    let n := UInt32.ofNat count
    if n = 0 then 0 else (Hash.fnv1a k % n).toInt32

abbrev Counters := Table String Rotation

def pick (p : Partitioner) (counters : Counters) (stream : String) (key : Option Bytes)
    (snapshot : Snapshot) : Int32 × Counters :=
  match p with
  | constant n | custom n => (n, counters)
  | byKey => (keyPartition key (snapshot.partitionCount stream), counters)
  | roundRobin name =>
    let rotation := (counters.get? name).getD ∅
    let (partition, rotation) := rotation.pick stream (snapshot.partitionCount stream)
    (partition, counters.put name rotation)

/-- A question to a partitioner, or the snapshot that the questions after it are about. -/
inductive Inquiry where
  | pick (stream : String) (key : Option Bytes)
  | replace (s : Snapshot)

def answers (p : Partitioner) (s : Snapshot) (l : List Inquiry) : List (Option Int32) :=
  go s ∅ l
where
  go (s : Snapshot) (counters : Counters) : List Inquiry → List (Option Int32)
    | [] => []
    | .replace s :: r => none :: go s counters r
    | .pick stream key :: r =>
      let (partition, counters) := p.pick counters stream key s
      some partition :: go s counters r

def text : Partitioner → String
  | constant n => "ConstantPartitioner(" ++ toString n.toInt ++ ")"
  | byKey => "KeyPartitioner"
  | roundRobin name => "RoundRobinPartitioner(" ++ Quoted.text name ++ ")"
  | custom n => "CustomPartitioner(" ++ toString n.toInt ++ ")"

end Partitioner
end StreamClient
