import StreamClient.Proofs.Table
import StreamClient.Request
import StreamClient.Snapshot.Route

/-! The addresses of a snapshot, to which every route of it leads, and the brokers that routes lead
to. -/

namespace StreamClient.Snapshot

theorem mem_addresses {s : Snapshot} {a : Address} :
    a ∈ s.addresses ↔ a ∈ s.bootstrap ∨ ∃ id b, s.broker? id = some b ∧ b.address = a := by
  rw [addresses, mem_distinctAddresses, List.mem_append, List.mem_map]
  refine or_congr_right ⟨?_, ?_⟩
  · rintro ⟨b, hb, rfl⟩
    obtain ⟨id, hid⟩ := Table.mem_values_iff.1 hb
    exact ⟨id, b, hid, rfl⟩
  · rintro ⟨id, b, hid, rfl⟩
    exact ⟨b, Table.mem_values_iff.2 ⟨id, hid⟩, rfl⟩

def Grounded (s : Snapshot) : Prop :=
  ∀ stream partition p, s.partition? stream partition = some p →
    ∀ b, p.leader = some b ∨ b ∈ p.isr → ∃ id, s.broker? id = some b

theorem grounded_initial (bootstrap : List Address) : (initial bootstrap).Grounded :=
  fun stream partition p hp => by simp [partition?, stream?, initial] at hp

theorem mem_members {brokers : Table String Broker} {ids : List String} {b : Broker}
    (h : b ∈ members brokers ids) : ∃ id, brokers.get? id = some b := by
  obtain ⟨id, -, hid⟩ := List.mem_filterMap.1 h
  exact ⟨id, hid⟩

theorem grounded_ofTopology (bootstrap : List Address) (t : Topology) :
    (ofTopology bootstrap t).Grounded := by
  intro stream partition p hp b hb
  obtain ⟨st, hst, hpartition⟩ := Option.bind_eq_some_iff.1 hp
  -- the partition was read off a reported one with the table of brokers of the same report
  obtain ⟨s, -, hs⟩ := List.mem_map.1 (Table.mem_of_get?_ofList hst)
  obtain ⟨-, rfl⟩ := Prod.mk.inj hs
  obtain ⟨q, -, hq⟩ := List.mem_map.1 (Table.mem_of_get?_ofList hpartition)
  obtain ⟨-, rfl⟩ := Prod.mk.inj hq
  rcases hb with hleader | hisr
  · obtain ⟨id, -, hid⟩ := Option.bind_eq_some_iff.1 hleader
    exact ⟨id, hid⟩
  · exact mem_members hisr

theorem server_mem {p : Partition} {preferIsr : Bool} {draw : Nat} {b : Broker}
    (h : p.server preferIsr draw = some b) : p.leader = some b ∨ b ∈ p.isr := by
  unfold Partition.server at h
  split at h
  · rcases Option.or_eq_some_iff.1 h with hisr | ⟨-, hleader⟩
    · exact .inr (mem_of_choose hisr)
    · exact .inl hleader
  · exact .inl h

/-- The broker at `a` serves `q`: it is in sync with the leader of the partition if that is preferred
and such brokers are known, or else the leader. -/
def Serves (s : Snapshot) (q : Subscription) (a : Address) : Prop :=
  ∃ p b, s.partition? q.stream q.partition = some p ∧ b.address = a ∧
    if q.readIsrReplica = true ∧ p.isr ≠ [] then b ∈ p.isr else p.leader = some b

theorem Grounded.mem_addresses_of_route {s : Snapshot} (h : s.Grounded) {stream : String}
    {partition : Int32} {preferIsr : Bool} {draw : Nat} {a : Address}
    (hr : s.route stream partition preferIsr draw = some a) : a ∈ s.addresses := by
  obtain ⟨p, hp, hserver⟩ := Option.bind_eq_some_iff.1 hr
  obtain ⟨b, hb, rfl⟩ := Option.map_eq_some_iff.1 hserver
  obtain ⟨id, hid⟩ := h stream partition p hp b (server_mem hb)
  exact mem_addresses.2 (.inr ⟨id, b, hid, rfl⟩)

end StreamClient.Snapshot
