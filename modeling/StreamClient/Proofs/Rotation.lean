import Mathlib.Order.Interval.Finset.Nat
import StreamClient.Proofs.Client.Publication

/-! The partitions that a round-robin partitioner answers with: each stream has turns of its own, and
questions about other streams do not move them. -/

namespace StreamClient

namespace Client.Consultation

def count (q : Consultation) : Nat := q.snapshot.partitionCount q.stream

def isFor (name stream : String) (q : Consultation) : Bool :=
  q.partitioner == .roundRobin name && q.stream == stream

def takesTurn (name stream : String) (q : Consultation) : Bool :=
  q.isFor name stream && q.count != 0

def answer (counters : Partitioner.Counters) (q : Consultation) : Int32 × Partitioner.Counters :=
  q.partitioner.pick counters q.stream q.key q.snapshot

theorem isFor_iff {name stream : String} {q : Consultation} :
    q.isFor name stream = true ↔ q.partitioner = .roundRobin name ∧ q.stream = stream := by
  simp [isFor]

theorem takesTurn_iff {name stream : String} {q : Consultation} :
    q.takesTurn name stream = true ↔
      q.partitioner = .roundRobin name ∧ q.stream = stream ∧ q.count ≠ 0 := by
  simp [takesTurn, isFor, and_assoc]

end Client.Consultation

namespace Partitioner

open Client (Consultation turns turns_pick)

/-- The questions, asked one after another, with the answers to them. -/
def asked (counters : Counters) : List Consultation → List (Consultation × Int32)
  | [] => []
  | q :: rest => (q, (q.answer counters).1) :: asked (q.answer counters).2 rest

section Asked

variable {name stream : String} {counters counters' : Counters} {q : Consultation} {p : Int32}
  {questions : List Consultation} {before after : List (Consultation × Int32)}

theorem fst_pick (r : Rotation) (stream : String) (count : Nat) :
    (r.pick stream count).1 =
      if count = 0 then 0 else Int32.ofNat (((r.get? stream).getD 0).toNat % count) := by
  rw [Rotation.pick]
  split <;> rfl

theorem answer_roundRobin (counters : Counters) (h : q.partitioner = .roundRobin name) :
    (q.answer counters).1 =
      if q.count = 0 then 0 else Int32.ofNat ((turns counters name q.stream).toNat % q.count) := by
  rw [Consultation.answer, h]
  exact fst_pick _ q.stream q.count

theorem turns_of_takesTurn (counters : Counters) (h : q.takesTurn name stream = true) :
    turns (q.answer counters).2 name stream = turns counters name stream + 1 := by
  obtain ⟨hp, hstream, hcount⟩ := Consultation.takesTurn_iff.1 h
  rw [Consultation.answer, turns_pick, if_pos ⟨hstream, hp, hcount⟩]

theorem turns_of_not_takesTurn (counters : Counters) (h : q.takesTurn name stream = false) :
    turns (q.answer counters).2 name stream = turns counters name stream := by
  have hnot : ¬ (q.stream = stream ∧ q.partitioner = .roundRobin name ∧
      q.snapshot.partitionCount q.stream ≠ 0) := by
    rintro ⟨hstream, hp, hcount⟩
    have htakes := Consultation.takesTurn_iff.2 ⟨hp, hstream, hcount⟩
    rw [h] at htakes
    cases htakes
  rw [Consultation.answer, turns_pick, if_neg hnot, UInt64.add_zero]

theorem map_fst_asked (counters : Counters) (questions : List Consultation) :
    (asked counters questions).map Prod.fst = questions := by
  induction questions generalizing counters with
  | nil => rfl
  | cons q rest ih => rw [asked, List.map_cons, ih]

theorem turn_of_filter (h : (asked counters questions).filter
      (fun x => x.1.takesTurn name stream) = before ++ (q, p) :: after) :
    p = Int32.ofNat (((turns counters name stream).toNat + before.length) % 2 ^ 64 % q.count) := by
  induction questions generalizing counters before with
  | nil => simp [asked] at h
  | cons q' rest ih =>
    rw [asked] at h
    cases hq' : q'.takesTurn name stream with
    | false =>
      rw [List.filter_cons, if_neg (by simp [hq'])] at h
      have hp := ih h
      rwa [turns_of_not_takesTurn counters hq'] at hp
    | true =>
      rw [List.filter_cons, if_pos hq'] at h
      cases before with
      | nil =>
        obtain ⟨hhead, -⟩ := List.cons.inj h
        obtain ⟨rfl, rfl⟩ := Prod.mk.inj hhead
        obtain ⟨hround, rfl, hcount⟩ := Consultation.takesTurn_iff.1 hq'
        have hlt : (turns counters name q'.stream).toNat < 2 ^ 64 :=
          (turns counters name q'.stream).toNat_lt
        rw [answer_roundRobin counters hround, if_neg hcount, List.length_nil, Nat.add_zero,
          Nat.mod_eq_of_lt hlt]
      | cons x before =>
        obtain ⟨-, htail⟩ := List.cons.inj h
        have hp := ih htail
        rw [turns_of_takesTurn counters hq', UInt64.toNat_add] at hp
        rw [hp, Nat.mod_add_mod, List.length_cons, Nat.add_comm before.length, ← Nat.add_assoc]
        rfl

theorem zero_of_asked (h : (q, p) ∈ asked counters questions)
    (hround : q.partitioner = .roundRobin name) (hcount : q.count = 0) : p = 0 := by
  induction questions generalizing counters with
  | nil => simp [asked] at h
  | cons q' rest ih =>
    rcases List.mem_cons.1 h with heq | h
    · obtain ⟨rfl, rfl⟩ := Prod.mk.inj heq
      rw [answer_roundRobin counters hround, if_pos hcount]
    · exact ih h

/-- What is asked about other streams, or of others, makes no difference. -/
theorem filter_asked (h : turns counters name stream = turns counters' name stream) :
    (asked counters questions).filter (fun x => x.1.isFor name stream) =
      asked counters' (questions.filter fun q => q.isFor name stream) := by
  induction questions generalizing counters counters' with
  | nil => rfl
  | cons q rest ih =>
    rw [asked]
    cases hq : q.isFor name stream with
    | false =>
      have htakes : q.takesTurn name stream = false := by simp [Consultation.takesTurn, hq]
      rw [List.filter_cons, if_neg (by simp [hq]), List.filter_cons, if_neg (by simp [hq])]
      apply ih
      rw [turns_of_not_takesTurn counters htakes, h]
    | true =>
      obtain ⟨hround, rfl⟩ := Consultation.isFor_iff.1 hq
      rw [List.filter_cons, if_pos hq, List.filter_cons, if_pos hq, asked]
      have hanswer : (q.answer counters).1 = (q.answer counters').1 := by
        rw [answer_roundRobin counters hround, answer_roundRobin counters' hround, h]
      have hnext : turns (q.answer counters).2 name q.stream =
          turns (q.answer counters').2 name q.stream := by
        rw [Consultation.answer, Consultation.answer, turns_pick, turns_pick, h]
      rw [hanswer, ih hnext]

theorem turn_of_asked (h : asked ∅ questions = before ++ (q, p) :: after)
    (hround : q.partitioner = .roundRobin name) (hcount : q.count ≠ 0) :
    p = Int32.ofNat
      (before.countP (fun x => x.1.takesTurn name q.stream) % 2 ^ 64 % q.count) := by
  have hq : q.takesTurn name q.stream = true :=
    Consultation.takesTurn_iff.2 ⟨hround, rfl, hcount⟩
  have hfilter := congrArg (List.filter fun x => x.1.takesTurn name q.stream) h
  rw [List.filter_append, List.filter_cons, if_pos hq] at hfilter
  have hnone : turns ∅ name q.stream = 0 := rfl
  have hp := turn_of_filter hfilter
  rwa [hnone, UInt64.toNat_zero, Nat.zero_add, ← List.countP_eq_length_filter] at hp

theorem toInt_remainder {n : Nat} (m : Nat) (hpos : n ≠ 0) (hn : n ≤ 2 ^ 31) :
    (Int32.ofNat (m % n)).toInt = (m % n : Nat) := by
  have hlt : m % n < n := Nat.mod_lt m (Nat.pos_of_ne_zero hpos)
  exact Int32.toInt_ofNat_of_lt (hlt.trans_le hn)

theorem answers_of_filter {n : Nat} {window : List (Consultation × Int32)} (hn : n ≤ 2 ^ 31)
    (hcount : ∀ x ∈ window, x.1.count = n) (hfew : before.length + window.length ≤ 2 ^ 64)
    (h : (asked ∅ questions).filter (fun x => x.1.takesTurn name stream) =
      before ++ window ++ after) :
    window.map (fun x => x.2.toInt) =
      (List.range' before.length window.length).map fun m => ((m % n : Nat) : Int) := by
  induction window generalizing before with
  | nil => rfl
  | cons x rest ih =>
    obtain ⟨q, p⟩ := x
    rw [List.length_cons] at hfew
    have hsplit : (asked ∅ questions).filter (fun x => x.1.takesTurn name stream) =
        (before ++ [(q, p)]) ++ rest ++ after := by simpa using h
    have hrest := ih (fun x hx => hcount x (List.mem_cons_of_mem _ hx))
      (by rw [List.length_append, List.length_singleton]; omega) hsplit
    have hq : q.takesTurn name stream = true := by
      have hmem : (q, p) ∈ (asked ∅ questions).filter (fun x => x.1.takesTurn name stream) := by
        rw [h]
        simp
      exact (List.mem_filter.1 hmem).2
    have hone : q.count = n := hcount _ (List.mem_cons_self ..)
    have hpos : n ≠ 0 := hone ▸ (Consultation.takesTurn_iff.1 hq).2.2
    have hp : p = Int32.ofNat (before.length % n) := by
      have hnone : turns ∅ name stream = 0 := rfl
      have hturn := turn_of_filter
        (show (asked ∅ questions).filter (fun x => x.1.takesTurn name stream) =
          before ++ (q, p) :: (rest ++ after) by simpa using h)
      rwa [hnone, UInt64.toNat_zero, Nat.zero_add, hone,
        Nat.mod_eq_of_lt (show before.length < 2 ^ 64 by omega)] at hturn
    rw [List.length_append, List.length_singleton] at hrest
    rw [List.map_cons, List.length_cons, List.range'_succ, List.map_cons, hrest, hp,
      toInt_remainder _ hpos hn]

theorem remainders_perm (k n : Nat) :
    ((List.range' k n).map (· % n)).Perm (List.range n) := by
  have hmod := Nat.multiset_Ico_map_mod k n
  have hlist : (Finset.Ico k (k + n)).val = (List.range' k n : Multiset Nat) := by
    rw [Nat.Ico_eq_range', Nat.add_sub_cancel_left]
  rw [show Multiset.Ico k (k + n) = _ from hlist, Multiset.map_coe] at hmod
  exact Quotient.exact hmod

end Asked

/-- How the partitioner `name` answers when partitioners are asked these questions one after
another. -/
structure TakesTurns (name : String) (questions : List Consultation) : Prop where
  every : (asked ∅ questions).map Prod.fst = questions
  unknown : ∀ q p, (q, p) ∈ asked ∅ questions → q.partitioner = .roundRobin name → q.count = 0 →
    p = 0
  /-- Only the questions that found partitions known have taken turns, and each stream has its own
  turns, up to where the counter starts over. -/
  turn : ∀ before q p after, asked ∅ questions = before ++ (q, p) :: after →
    q.partitioner = .roundRobin name → q.count ≠ 0 → q.count ≤ 2 ^ 31 →
      p.toInt =
        ((before.countP (fun x => x.1.takesTurn name q.stream) % 2 ^ 64 % q.count : Nat) : Int) ∧
      0 ≤ p.toInt ∧ p.toInt < q.count
  alone : ∀ stream, (asked ∅ questions).filter (fun x => x.1.isFor name stream) =
    asked ∅ (questions.filter fun q => q.isFor name stream)
  /-- As many turns in a row as there are partitions all the time go to each of them once, whatever
  the counter stands at, unless it starts over in between. -/
  window : ∀ stream before window after,
    (asked ∅ questions).filter (fun x => x.1.takesTurn name stream) = before ++ window ++ after →
    (∀ x ∈ window, x.1.count = window.length) → window.length ≤ 2 ^ 31 →
    before.length + window.length ≤ 2 ^ 64 →
      (window.map fun x => x.2.toInt).Perm ((List.range window.length).map fun j : Nat => (j : Int))

/-- Whatever streams the questions are about, whatever keys and values they have and however the
snapshots change between them, also if other partitioners are asked in between. -/
theorem takes_turns (name : String) (questions : List Consultation) :
    TakesTurns name questions where
  every := map_fst_asked ∅ questions
  unknown q p hmem hround hcount := zero_of_asked hmem hround hcount
  turn before q p after hsplit hround hcount hle := by
    have hp := turn_of_asked hsplit hround hcount
    have hlt := Nat.mod_lt (before.countP (fun x => x.1.takesTurn name q.stream) % 2 ^ 64)
      (Nat.pos_of_ne_zero hcount)
    rw [hp, toInt_remainder _ hcount hle]
    exact ⟨rfl, Int.natCast_nonneg _, Int.ofNat_lt.2 hlt⟩
  alone stream := filter_asked rfl
  window stream before window after hsplit hcount hle hfew := by
    have hanswers := answers_of_filter hle hcount hfew hsplit
    have hperm := (remainders_perm before.length window.length).map fun j : Nat => (j : Int)
    rw [List.map_map] at hperm
    rw [hanswers]
    exact hperm

end Partitioner
end StreamClient
