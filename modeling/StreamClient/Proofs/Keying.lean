import StreamClient.Proofs.Rotation
import StreamClient.Proofs.Snapshot.Report

/-! The partitions that go with keys: the hash of a key by exact arithmetic, and the partition by the
number of partitions that the stream was last listed with. -/

namespace StreamClient

namespace Hash

/-- The recurrence of the hash over the natural numbers, with nothing cut off. -/
def exact (data : Bytes) : Nat := data.foldl (fun h b => (h ^^^ b.toNat) * 16777619) 2166136261

/-- The recurrence with every step reduced to 32 bits. -/
def reduced (data : Bytes) : Nat :=
  data.foldl (fun h b => (h ^^^ b.toNat) * 16777619 % 2 ^ 32) 2166136261

theorem exact_concat (data : Bytes) (b : UInt8) :
    exact (data ++ [b]) = (exact data ^^^ b.toNat) * 16777619 := by
  rw [exact, exact, List.foldl_append, List.foldl_cons, List.foldl_nil]

theorem reduced_concat (data : Bytes) (b : UInt8) :
    reduced (data ++ [b]) = (reduced data ^^^ b.toNat) * 16777619 % 2 ^ 32 := by
  rw [reduced, reduced, List.foldl_append, List.foldl_cons, List.foldl_nil]

theorem toNat_mix (h : UInt32) (b : UInt8) :
    (mix h b).toNat = (h.toNat ^^^ b.toNat) * 16777619 % 2 ^ 32 := by
  rw [mix, UInt32.toNat_mul, UInt32.toNat_xor, UInt8.toNat_toUInt32]
  rfl

theorem toNat_fnv1a (data : Bytes) : (fnv1a data).toNat = reduced data := by
  induction data using List.reverseRecOn with
  | nil => rfl
  | append_singleton data b ih => rw [fnv1a_concat, toNat_mix, ih, reduced_concat]

/-- The reference value of the hash for the text `foobar`. -/
example : fnv1a [102, 111, 111, 98, 97, 114] = 0xbf9cf968 := by decide

/-- What is cut off on the way is not missed at the end: a byte has no more than the last eight bits
of the number, and those above them only grow out of those below. -/
theorem reduced_eq (data : Bytes) : reduced data = exact data % 2 ^ 32 := by
  induction data using List.reverseRecOn with
  | nil => rfl
  | append_singleton data b ih =>
    have hbyte : b.toNat % 2 ^ 32 = b.toNat := Nat.mod_eq_of_lt (b.toNat_lt.trans (by decide))
    have hxor : exact data % 2 ^ 32 ^^^ b.toNat = (exact data ^^^ b.toNat) % 2 ^ 32 := by
      rw [Nat.xor_mod_two_pow, hbyte]
    rw [reduced_concat, exact_concat, ih, hxor, Nat.mod_mul_mod]

end Hash

namespace Topology.Stream

def distinct (st : Stream) : Nat := (st.partitions.map Partition.id).toFinset.card

end Topology.Stream

namespace Snapshot

variable {bootstrap : List Address} {t : Topology} {name : String} {st : Topology.Stream}

theorem partitionCount_of_named (h : t.NamesStream name st) :
    (ofTopology bootstrap t).partitionCount name = st.distinct := by
  rw [partitionCount, stream?_ofTopology.2 ⟨st, h, rfl⟩]
  exact (reflects_stream t st).count

theorem partitionCount_of_unnamed (h : ∀ st ∈ t.streams, st.name ≠ name) :
    (ofTopology bootstrap t).partitionCount name = 0 := by
  rw [partitionCount, stream?_ofTopology_eq_none.2 h]

theorem exists_partition (h : t.NamesStream name st) {id : Int32}
    (hid : id ∈ st.partitions.map Topology.Partition.id) :
    ∃ q, (ofTopology bootstrap t).partition? name id = some q := by
  have hlast : ∃ p, st.NamesPartition id p := exists_lastListed.2 (by simpa using hid)
  obtain ⟨p, hp⟩ := hlast
  exact ⟨_, partition?_ofTopology.2 ⟨p, ⟨st, h, hp⟩, rfl⟩⟩

end Snapshot

namespace Partitioner

open Client (Consultation)

section Keyed

variable {counters : Counters} {q : Consultation} {n : Nat}

theorem toInt_toInt32 {x : UInt32} (h : x.toNat < 2 ^ 31) : x.toInt32.toInt = x.toNat := by
  have hbits : x.toInt32.toInt = x.toBitVec.toInt :=
    congrArg BitVec.toInt (UInt32.toBitVec_toInt32 x)
  rw [hbits, BitVec.toInt_eq_toNat_of_lt]
  · rfl
  · show 2 * x.toNat < 2 ^ 32
    omega

theorem toInt_keyPartition (key : Bytes) (hpos : n ≠ 0) (hn : n ≤ 2 ^ 31) :
    (keyPartition (some key) n).toInt = (Hash.reduced key % n : Nat) := by
  have hcount : (UInt32.ofNat n).toNat = n := UInt32.toNat_ofNat_of_lt' (hn.trans_lt (by decide))
  have hne : UInt32.ofNat n ≠ 0 := fun hzero => hpos (by rw [← hcount, hzero]; rfl)
  have hmod : (Hash.fnv1a key % UInt32.ofNat n).toNat = Hash.reduced key % n := by
    rw [UInt32.toNat_mod, hcount, Hash.toNat_fnv1a]
  have hlt : Hash.reduced key % n < n := Nat.mod_lt _ (Nat.pos_of_ne_zero hpos)
  simp only [keyPartition, if_neg hne]
  rw [toInt_toInt32 (by omega), hmod]

theorem keyPartition_zero (key : Option Bytes) : keyPartition key 0 = 0 := by
  cases key <;> rfl

theorem answer_byKey (counters : Counters) (h : q.partitioner = .byKey) :
    (q.answer counters).1 = keyPartition q.key q.count := by
  rw [Consultation.answer, h]
  rfl

theorem answer_byKey_lt (counters : Counters) (h : q.partitioner = .byKey) (hpos : q.count ≠ 0)
    (hle : q.count ≤ 2 ^ 31) :
    0 ≤ (q.answer counters).1.toInt ∧ (q.answer counters).1.toInt < q.count := by
  rw [answer_byKey counters h]
  cases q.key with
  | none =>
    have hzero : (keyPartition none q.count).toInt = 0 := rfl
    rw [hzero]
    exact ⟨Int.le_refl 0, Int.natCast_pos.2 (Nat.pos_of_ne_zero hpos)⟩
  | some key =>
    rw [toInt_keyPartition key hpos hle]
    exact ⟨Int.natCast_nonneg _, Int.ofNat_lt.2 (Nat.mod_lt _ (Nat.pos_of_ne_zero hpos))⟩

theorem count_of_named {bootstrap : List Address} {t : Topology} {st : Topology.Stream}
    (hs : q.snapshot = .ofTopology bootstrap t) (h : t.NamesStream q.stream st) :
    q.count = st.distinct := by
  rw [Consultation.count, hs]
  exact Snapshot.partitionCount_of_named h

end Keyed

/-- How the partitioner by key answers, whatever turns others have taken. -/
structure SpreadsByKey (counters : Counters) : Prop where
  unkeyed : ∀ q : Consultation, q.partitioner = .byKey → q.key = none ∨ q.count = 0 →
    (q.answer counters).1 = 0
  hashed : ∀ (q : Consultation) (key : Bytes), q.partitioner = .byKey → q.key = some key →
    q.count ≠ 0 → q.count ≤ 2 ^ 31 →
      (q.answer counters).1.toInt = ((Hash.exact key % 2 ^ 32 % q.count : Nat) : Int) ∧
      0 ≤ (q.answer counters).1.toInt ∧ (q.answer counters).1.toInt < q.count
  /-- It makes no difference whether the recurrence is reduced in each step or at the end. -/
  reduced : ∀ key, Hash.exact key % 2 ^ 32 = Hash.reduced key
  /-- Of a question only the key and the number of known partitions count. -/
  alike : ∀ (counters' : Counters) (q q' : Consultation), q.partitioner = .byKey →
    q'.partitioner = .byKey → q.key = q'.key → q.count = q'.count →
      (q.answer counters).1 = (q'.answer counters').1
  counted : ∀ (q : Consultation) (bootstrap : List Address) (t : Topology),
    q.snapshot = .ofTopology bootstrap t →
      (∀ st, t.NamesStream q.stream st → q.count = st.distinct) ∧
      ((∀ st ∈ t.streams, st.name ≠ q.stream) → q.count = 0)
  reported : ∀ (counters' : Counters) (q q' : Consultation) (bootstrap bootstrap' : List Address)
    (t t' : Topology) (st st' : Topology.Stream), q.partitioner = .byKey →
      q'.partitioner = .byKey → q.key = q'.key → q.snapshot = .ofTopology bootstrap t →
      q'.snapshot = .ofTopology bootstrap' t' → t.NamesStream q.stream st →
      t'.NamesStream q'.stream st' → st.distinct = st'.distinct →
        (q.answer counters).1 = (q'.answer counters').1
  /-- A stream whose partitions are numbered from zero on has the one that is answered. -/
  present : ∀ (q : Consultation) (bootstrap : List Address) (t : Topology) (st : Topology.Stream),
    q.partitioner = .byKey → q.snapshot = .ofTopology bootstrap t → t.NamesStream q.stream st →
      q.count ≠ 0 → q.count ≤ 2 ^ 31 →
      (∀ id : Int32, 0 ≤ id.toInt → id.toInt < st.distinct →
        id ∈ st.partitions.map Topology.Partition.id) →
          ∃ x, q.snapshot.partition? q.stream (q.answer counters).1 = some x

/-- For keys of any length and every stream, whatever the message is otherwise. -/
theorem spreads_by_key (counters : Counters) : SpreadsByKey counters where
  unkeyed q hq hnone := by
    rw [answer_byKey counters hq]
    rcases hnone with hnone | hnone
    · rw [hnone]
      rfl
    · rw [hnone, keyPartition_zero]
  hashed q key hq hkey hpos hle := by
    refine ⟨?_, answer_byKey_lt counters hq hpos hle⟩
    rw [answer_byKey counters hq, hkey, toInt_keyPartition key hpos hle, Hash.reduced_eq]
  reduced key := (Hash.reduced_eq key).symm
  alike counters' q q' hq hq' hkey hcount := by
    rw [answer_byKey counters hq, answer_byKey counters' hq', hkey, hcount]
  counted q bootstrap t hs := by
    refine ⟨fun st hst => count_of_named hs hst, fun hnone => ?_⟩
    rw [Consultation.count, hs]
    exact Snapshot.partitionCount_of_unnamed hnone
  reported counters' q q' bootstrap bootstrap' t t' st st' hq hq' hkey hs hs' hst hst' hsame := by
    have hcount : q.count = q'.count := by
      rw [count_of_named hs hst, count_of_named hs' hst', hsame]
    rw [answer_byKey counters hq, answer_byKey counters' hq', hkey, hcount]
  present q bootstrap t st hq hs hst hpos hle hnumbered := by
    obtain ⟨hnonneg, hlt⟩ := answer_byKey_lt counters hq hpos hle
    rw [count_of_named hs hst] at hlt
    rw [hs]
    exact Snapshot.exists_partition hst (hnumbered _ hnonneg hlt)

/-- The stream has three partitions, of which one is listed twice. -/
example : (pick .byKey ∅ "s" (some [102, 111, 111, 98, 97, 114]) (.ofTopology []
    { streams := [⟨"s", "s", [{ id := 2 }, { id := 0 }, { id := 2 }, { id := 1 }]⟩] })).1 = 1 := by
  decide +kernel

end Partitioner
end StreamClient
