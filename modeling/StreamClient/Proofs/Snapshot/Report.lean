import StreamClient.Proofs.Bootstrap
import StreamClient.Proofs.Listing
import StreamClient.Proofs.Snapshot

/-! What a snapshot shows of the report that it was made of, where the report lists things more than
once and refers to brokers that it does not list. -/

namespace StreamClient

namespace Topology

def NamesBroker (t : Topology) (id : String) (b : Broker) : Prop :=
  LastListed (fun b => b.id = id) t.brokers b

def NamesStream (t : Topology) (name : String) (st : Stream) : Prop :=
  LastListed (fun st => st.name = name) t.streams st

def Stream.NamesPartition (st : Stream) (id : Int32) (p : Partition) : Prop :=
  LastListed (fun p => p.id = id) st.partitions p

/-- What an earlier entry of the same stream lists does not count. -/
def NamesPartition (t : Topology) (stream : String) (id : Int32) (p : Partition) : Prop :=
  ∃ st, t.NamesStream stream st ∧ st.NamesPartition id p

end Topology

namespace Snapshot

structure Gathers (t : Topology) (ids : List String) (found : List Broker) : Prop where
  mem : ∀ b, b ∈ found ↔ ∃ id ∈ ids, t.NamesBroker id b
  once : (found.map Broker.id).Nodup
  /-- They stand as their ids are first mentioned. -/
  order : found.Pairwise fun b b' => ids.idxOf b.id < ids.idxOf b'.id

structure Partition.Reflects (t : Topology) (p : Topology.Partition) (q : Partition) : Prop where
  id : q.id = p.id
  leader : ∀ b, q.leader = some b ↔ ∃ l, p.leader = some l ∧ t.NamesBroker l b
  replicas : Gathers t p.replicas q.replicas
  isr : Gathers t p.isr q.isr

structure Stream.Reflects (t : Topology) (st : Topology.Stream) (x : Stream) : Prop where
  name : x.name = st.name
  subject : x.subject = st.subject
  partition : ∀ id p, st.NamesPartition id p → ∃ q, x.partitions.get? id = some q ∧ q.Reflects t p
  unlisted : ∀ id, (∀ p ∈ st.partitions, p.id ≠ id) → x.partitions.get? id = none
  count : x.partitions.size = (st.partitions.map Topology.Partition.id).toFinset.card

section Report

variable {t : Topology} {bootstrap : List Address} {id name stream : String} {partition : Int32}
  {ids : List String} {b : Broker}

theorem get?_brokerTable : (brokerTable t).get? id = some b ↔ t.NamesBroker id b := by
  unfold brokerTable
  rw [Table.get?_ofList_map_eq_some_iff (f := fun b => b)]
  simp [Topology.NamesBroker]

theorem mem_members_brokerTable :
    b ∈ members (brokerTable t) ids ↔ ∃ id ∈ ids, t.NamesBroker id b := by
  rw [members, List.mem_filterMap]
  constructor
  · rintro ⟨id, hid, hb⟩
    exact ⟨id, List.mem_eraseDups.1 hid, get?_brokerTable.1 hb⟩
  · rintro ⟨id, hid, hb⟩
    exact ⟨id, List.mem_eraseDups.2 hid, get?_brokerTable.2 hb⟩

theorem gathers_members (t : Topology) (ids : List String) :
    Gathers t ids (members (brokerTable t) ids) := by
  have horder : (members (brokerTable t) ids).Pairwise
      fun b b' => ids.idxOf b.id < ids.idxOf b'.id := by
    refine (pairwise_eraseDups ids).filterMap _ fun id id' hlt b hb b' hb' => ?_
    -- a broker is known under its own id
    have hid : b.id = id := (get?_brokerTable.1 hb).holds
    have hid' : b'.id = id' := (get?_brokerTable.1 hb').holds
    rwa [hid, hid']
  refine ⟨fun b => mem_members_brokerTable, ?_, horder⟩
  refine List.pairwise_map.2 (horder.imp fun hlt heq => ?_)
  rw [heq] at hlt
  exact absurd hlt (Nat.lt_irrefl _)

theorem reflects_partition (t : Topology) (p : Topology.Partition) :
    (Partition.ofTopology (brokerTable t) p).Reflects t p where
  id := rfl
  leader b := by
    unfold Partition.ofTopology
    rw [Option.bind_eq_some_iff]
    exact exists_congr fun l => and_congr_right fun _ => get?_brokerTable
  replicas := gathers_members t p.replicas
  isr := gathers_members t p.isr

theorem get?_partitions {brokers : Table String Broker} {st : Topology.Stream} {q : Partition} :
    (Stream.ofTopology brokers st).partitions.get? partition = some q ↔
      ∃ p, st.NamesPartition partition p ∧ Partition.ofTopology brokers p = q :=
  Table.get?_ofList_map_eq_some_iff

theorem reflects_stream (t : Topology) (st : Topology.Stream) :
    (Stream.ofTopology (brokerTable t) st).Reflects t st where
  name := rfl
  subject := rfl
  partition id p hp := ⟨_, get?_partitions.2 ⟨p, hp, rfl⟩, reflects_partition t p⟩
  unlisted id hnone := by
    refine Option.eq_none_iff_forall_ne_some.2 fun q hq => ?_
    obtain ⟨p, hp, -⟩ := get?_partitions.1 hq
    exact hnone p hp.mem hp.holds
  count := by
    unfold Stream.ofTopology
    rw [Table.size_ofList, List.map_map]
    rfl

theorem stream?_ofTopology {x : Stream} :
    (ofTopology bootstrap t).stream? name = some x ↔
      ∃ st, t.NamesStream name st ∧ Stream.ofTopology (brokerTable t) st = x :=
  Table.get?_ofList_map_eq_some_iff

theorem stream?_ofTopology_eq_none :
    (ofTopology bootstrap t).stream? name = none ↔ ∀ st ∈ t.streams, st.name ≠ name := by
  rw [Option.eq_none_iff_forall_ne_some]
  constructor
  · intro hnone st hst hname
    have hnamed : ∃ last, t.NamesStream name last := exists_lastListed.2 ⟨st, hst, hname⟩
    obtain ⟨last, hlast⟩ := hnamed
    exact hnone _ (stream?_ofTopology.2 ⟨last, hlast, rfl⟩)
  · intro hunlisted x hx
    obtain ⟨st, hst, -⟩ := stream?_ofTopology.1 hx
    exact hunlisted st hst.mem hst.holds

theorem partition?_ofTopology {q : Partition} :
    (ofTopology bootstrap t).partition? stream partition = some q ↔
      ∃ p, t.NamesPartition stream partition p ∧ Partition.ofTopology (brokerTable t) p = q := by
  rw [partition?, Option.bind_eq_some_iff]
  constructor
  · rintro ⟨x, hx, hq⟩
    obtain ⟨st, hst, rfl⟩ := stream?_ofTopology.1 hx
    obtain ⟨p, hp, hpq⟩ := get?_partitions.1 hq
    exact ⟨p, ⟨st, hst, hp⟩, hpq⟩
  · rintro ⟨p, ⟨st, hst, hp⟩, hpq⟩
    exact ⟨_, stream?_ofTopology.2 ⟨st, hst, rfl⟩, get?_partitions.2 ⟨p, hp, hpq⟩⟩

theorem broker?_ofTopology :
    (ofTopology bootstrap t).broker? id = some b ↔ t.NamesBroker id b := get?_brokerTable

theorem mem_addresses_ofTopology {a : Address} :
    a ∈ (ofTopology bootstrap t).addresses ↔
      a ∈ bootstrap ∨ ∃ id b, t.NamesBroker id b ∧ b.address = a := by
  rw [mem_addresses]
  refine or_congr mem_distinctAddresses ?_
  exact exists_congr fun id => exists_congr fun b => and_congr_left' broker?_ofTopology

end Report

/-- What `s` shows of the report `t`. -/
structure Reflects (bootstrap : List Address) (t : Topology) (s : Snapshot) : Prop where
  broker : ∀ id b, s.broker? id = some b ↔ t.NamesBroker id b
  stream : ∀ name st, t.NamesStream name st → ∃ x, s.stream? name = some x ∧ x.Reflects t st
  unlisted : ∀ name, (∀ st ∈ t.streams, st.name ≠ name) → s.stream? name = none
  hasStream : ∀ name, s.hasStream name = true ↔ ∃ st ∈ t.streams, st.name = name
  count : ∀ name st, t.NamesStream name st →
    s.partitionCount name = (st.partitions.map Topology.Partition.id).toFinset.card
  noCount : ∀ name, (∀ st ∈ t.streams, st.name ≠ name) → s.partitionCount name = 0
  partition : ∀ name id p, t.NamesPartition name id p →
    ∃ q, s.partition? name id = some q ∧ q.Reflects t p
  noPartition : ∀ name id, (¬ ∃ p, t.NamesPartition name id p) → s.partition? name id = none
  /-- A partition has no picture of its own of its brokers. -/
  own : ∀ name id q, s.partition? name id = some q →
    ∀ b, q.leader = some b ∨ b ∈ q.replicas ∨ b ∈ q.isr → s.broker? b.id = some b
  addresses : ∀ a, a ∈ s.addresses ↔
    a ∈ bootstrap ∨ ∃ id b, t.NamesBroker id b ∧ b.host ++ ":" ++ toString b.socket.toNat = a
  ordered : s.addresses.Pairwise (· < ·)

/-- Whatever is listed more than once, and whether or not what is referred to is listed. -/
theorem reflects_ofTopology (bootstrap : List Address) (t : Topology) :
    Reflects bootstrap t (ofTopology bootstrap t) where
  broker id b := broker?_ofTopology
  stream name st hst := ⟨_, stream?_ofTopology.2 ⟨st, hst, rfl⟩, reflects_stream t st⟩
  unlisted name hnone := stream?_ofTopology_eq_none.2 hnone
  hasStream name := by
    have hcontains : (ofTopology bootstrap t).hasStream name =
        ((ofTopology bootstrap t).stream? name).isSome := rfl
    rw [hcontains, ← not_iff_not, Bool.not_eq_true, Option.isSome_eq_false_iff,
      Option.isNone_iff_eq_none, stream?_ofTopology_eq_none]
    simp
  count name st hst := by
    rw [partitionCount, stream?_ofTopology.2 ⟨st, hst, rfl⟩]
    exact (reflects_stream t st).count
  noCount name hnone := by rw [partitionCount, stream?_ofTopology_eq_none.2 hnone]
  partition name id p hp := ⟨_, partition?_ofTopology.2 ⟨p, hp, rfl⟩, reflects_partition t p⟩
  noPartition name id hnone := by
    refine Option.eq_none_iff_forall_ne_some.2 fun q hq => hnone ?_
    obtain ⟨p, hp, -⟩ := partition?_ofTopology.1 hq
    exact ⟨p, hp⟩
  own name id q hq b hb := by
    obtain ⟨p, -, rfl⟩ := partition?_ofTopology.1 hq
    have hshown := reflects_partition t p
    have hnamed : ∃ id, t.NamesBroker id b := by
      rcases hb with hleader | hreplica | hisr
      · obtain ⟨l, -, hl⟩ := (hshown.leader b).1 hleader
        exact ⟨l, hl⟩
      · obtain ⟨m, -, hm⟩ := (hshown.replicas.mem b).1 hreplica
        exact ⟨m, hm⟩
      · obtain ⟨m, -, hm⟩ := (hshown.isr.mem b).1 hisr
        exact ⟨m, hm⟩
    obtain ⟨id, hid⟩ := hnamed
    obtain rfl : b.id = id := hid.holds
    exact broker?_ofTopology.2 hid
  addresses a := mem_addresses_ofTopology
  ordered := sorted_distinctAddresses _

end Snapshot
end StreamClient
