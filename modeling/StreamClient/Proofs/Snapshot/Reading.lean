import Mathlib.Data.Int.CardIntervalMod
import StreamClient.Client.Move
import StreamClient.Proofs.Snapshot.Report

/-! Where to read a partition, in terms of the report that was fetched last. -/

namespace StreamClient

/-- Each element of a list is chosen as often as any other. -/
theorem count_choose {α : Type} [DecidableEq α] {l : List α} {a : α} (h : l.Nodup) (ha : a ∈ l)
    (m : Nat) : Nat.count (fun draw => choose draw l = some a) (m * l.length) = m := by
  obtain ⟨i, hi, rfl⟩ := List.mem_iff_getElem.1 ha
  have hpos : 0 < l.length := Nat.zero_lt_of_lt hi
  have hchosen : ∀ draw, choose draw l = some l[i] ↔ draw ≡ i [MOD l.length] := fun draw => by
    have hlt : draw % l.length < l.length := Nat.mod_lt draw hpos
    rw [choose, List.getElem?_eq_getElem hlt, Option.some_inj, h.getElem_inj_iff, Nat.ModEq,
      Nat.mod_eq_of_lt hi]
  have hcount : Nat.count (fun draw => choose draw l = some l[i]) (m * l.length) =
      Nat.count (· ≡ i [MOD l.length]) (m * l.length) := by
    simp only [hchosen]
  rw [hcount, Nat.count_modEq_card _ hpos, Nat.mul_div_cancel _ hpos, Nat.mul_mod_left,
    if_neg (Nat.not_lt_zero _), Nat.add_zero]

namespace Snapshot

/-- What is answered to a draw is where the broker at that place of `ring` listens, and `ring` has
each broker that the report knows under one of `ids` once. -/
structure Spreads (t : Topology) (ids : List String) (ring : List Broker)
    (answer : Nat → Option Address) : Prop where
  mem : ∀ b, b ∈ ring ↔ ∃ id ∈ ids, t.NamesBroker id b
  once : (ring.map Broker.id).Nodup
  drawn : ∀ draw, ∃ b, ring[draw % ring.length]? = some b ∧ answer draw = some b.address
  even : ∀ b ∈ ring, ∀ m,
    Nat.count (fun draw => ring[draw % ring.length]? = some b) (m * ring.length) = m

/-- How `s` answers where to read, with and without preference for in-sync replicas. -/
structure Resolves (t : Topology) (s : Snapshot) : Prop where
  unlisted : ∀ stream id, (¬ ∃ p, t.NamesPartition stream id p) →
    ∀ preferIsr draw, s.route stream id preferIsr draw = none
  leader : ∀ stream id p, t.NamesPartition stream id p → ∀ draw a,
    s.route stream id false draw = some a ↔
      ∃ l b, p.leader = some l ∧ t.NamesBroker l b ∧ b.address = a
  spread : ∀ stream id p, t.NamesPartition stream id p → (∃ m ∈ p.isr, ∃ b, t.NamesBroker m b) →
    ∃ ring, Spreads t p.isr ring (s.route stream id true)
  fallback : ∀ stream id p, t.NamesPartition stream id p →
    (∀ m ∈ p.isr, ∀ b, ¬ t.NamesBroker m b) →
    ∀ draw draw', s.route stream id true draw = s.route stream id false draw'
  /-- A broker that is not in sync is turned to only as the leader, where nobody in sync is known. -/
  outside : ∀ stream id draw a, s.route stream id true draw = some a →
    ∃ p, t.NamesPartition stream id p ∧
      ((∃ m ∈ p.isr, ∃ b, t.NamesBroker m b ∧ b.address = a) ∨
        (∀ m ∈ p.isr, ∀ b, ¬ t.NamesBroker m b) ∧
          ∃ l b, p.leader = some l ∧ t.NamesBroker l b ∧ b.address = a)

section Reading

variable {t : Topology} {bootstrap : List Address} {stream : String} {id : Int32}
  {p : Topology.Partition} {preferIsr : Bool} {draw : Nat} {a : Address}

theorem route_of_namesPartition (h : t.NamesPartition stream id p) :
    (ofTopology bootstrap t).route stream id preferIsr draw =
      ((Partition.ofTopology (brokerTable t) p).server preferIsr draw).map Broker.address := by
  have hp : (ofTopology bootstrap t).partition? stream id =
      some (Partition.ofTopology (brokerTable t) p) := partition?_ofTopology.2 ⟨p, h, rfl⟩
  rw [route, hp, Option.bind_some]

theorem route_unlisted (h : ¬ ∃ p, t.NamesPartition stream id p) :
    (ofTopology bootstrap t).route stream id preferIsr draw = none := by
  have hp : (ofTopology bootstrap t).partition? stream id = none := by
    refine Option.eq_none_iff_forall_ne_some.2 fun q hq => h ?_
    obtain ⟨p, hp, -⟩ := partition?_ofTopology.1 hq
    exact ⟨p, hp⟩
  rw [route, hp, Option.bind_none]

theorem route_leader (h : t.NamesPartition stream id p) :
    (ofTopology bootstrap t).route stream id false draw = some a ↔
      ∃ l b, p.leader = some l ∧ t.NamesBroker l b ∧ b.address = a := by
  have hserver : (Partition.ofTopology (brokerTable t) p).server false draw =
      (Partition.ofTopology (brokerTable t) p).leader := rfl
  rw [route_of_namesPartition h, hserver, Option.map_eq_some_iff]
  constructor
  · rintro ⟨b, hb, ha⟩
    obtain ⟨l, hl, hbroker⟩ := ((reflects_partition t p).leader b).1 hb
    exact ⟨l, b, hl, hbroker, ha⟩
  · rintro ⟨l, b, hl, hbroker, ha⟩
    exact ⟨b, ((reflects_partition t p).leader b).2 ⟨l, hl, hbroker⟩, ha⟩

theorem isr_eq_nil_iff :
    (Partition.ofTopology (brokerTable t) p).isr = [] ↔ ∀ m ∈ p.isr, ∀ b, ¬ t.NamesBroker m b := by
  rw [List.eq_nil_iff_forall_not_mem]
  constructor
  · intro hnone m hm b hb
    exact hnone b (((reflects_partition t p).isr.mem b).2 ⟨m, hm, hb⟩)
  · intro hunknown b hb
    obtain ⟨m, hm, hbroker⟩ := ((reflects_partition t p).isr.mem b).1 hb
    exact hunknown m hm b hbroker

theorem route_fallback (h : t.NamesPartition stream id p)
    (hunknown : ∀ m ∈ p.isr, ∀ b, ¬ t.NamesBroker m b) (draw' : Nat) :
    (ofTopology bootstrap t).route stream id true draw =
      (ofTopology bootstrap t).route stream id false draw' := by
  have hnobody : choose draw (Partition.ofTopology (brokerTable t) p).isr = none :=
    (choose_eq_none_iff _ _).2 (isr_eq_nil_iff.2 hunknown)
  rw [route_of_namesPartition h, route_of_namesPartition h, Partition.server, if_pos rfl, hnobody,
    Option.none_or]
  rfl

theorem spreads_isr (bootstrap : List Address) (h : t.NamesPartition stream id p)
    (hknown : ∃ m ∈ p.isr, ∃ b, t.NamesBroker m b) :
    Spreads t p.isr (Partition.ofTopology (brokerTable t) p).isr
      ((ofTopology bootstrap t).route stream id true) where
  mem := (reflects_partition t p).isr.mem
  once := (reflects_partition t p).isr.once
  drawn draw := by
    have hsome : (Partition.ofTopology (brokerTable t) p).isr ≠ [] := by
      obtain ⟨m, hm, b, hb⟩ := hknown
      exact fun hnil => isr_eq_nil_iff.1 hnil m hm b hb
    obtain ⟨b, hb⟩ :=
      Option.ne_none_iff_exists'.1 fun hnone => hsome ((choose_eq_none_iff draw _).1 hnone)
    refine ⟨b, hb, ?_⟩
    rw [route_of_namesPartition h, Partition.server, if_pos rfl, hb]
    rfl
  even b hb m := count_choose (reflects_partition t p).isr.once.of_map hb m

theorem resolves_ofTopology (bootstrap : List Address) (t : Topology) :
    Resolves t (ofTopology bootstrap t) where
  unlisted stream id h preferIsr draw := route_unlisted h
  leader stream id p h draw a := route_leader h
  spread stream id p h hknown := ⟨_, spreads_isr bootstrap h hknown⟩
  fallback stream id p h hunknown draw draw' := route_fallback h hunknown draw'
  outside stream id draw a ha := by
    have hlisted : ∃ p, t.NamesPartition stream id p := by
      by_contra hunlisted
      rw [route_unlisted hunlisted] at ha
      cases ha
    obtain ⟨p, h⟩ := hlisted
    refine ⟨p, h, ?_⟩
    by_cases hunknown : ∀ m ∈ p.isr, ∀ b, ¬ t.NamesBroker m b
    · rw [route_fallback h hunknown 0] at ha
      exact .inr ⟨hunknown, (route_leader h).1 ha⟩
    · push Not at hunknown
      have hspread := spreads_isr bootstrap h hunknown
      obtain ⟨b, hb, hanswer⟩ := hspread.drawn draw
      obtain ⟨m, hm, hbroker⟩ := (hspread.mem b).1 (List.mem_of_getElem? hb)
      rw [ha] at hanswer
      exact .inl ⟨m, hm, b, hbroker, (Option.some.inj hanswer).symm⟩

end Reading

end Snapshot

/-- Whatever the client knew before. -/
theorem Client.resolves_install (c : Client) (t : Topology) :
    (c.install t).snapshot.Resolves t := Snapshot.resolves_ofTopology c.settings.bootstrap t

end StreamClient
