import Mathlib.Data.List.Nodup
import StreamClient.Pool

/-! A pool as a queue of connections with deadlines, the oldest release in front. -/

namespace StreamClient

/-- Idle connections with the moment at which each is closed, if it ever is. -/
structure Shelf where
  address : Address
  capacity : Nat
  keepAlive : Span
  entries : List (Conn × Option Nat) := []
  closed : Bool := false

namespace Shelf

def release (q : Shelf) (now : Nat) (timed : Bool) (c : Conn) : Shelf × List Conn :=
  if q.closed ∨ (q.capacity ≠ 0 ∧ q.capacity ≤ q.entries.length) then (q, [c])
  else
    let deadline :=
      if timed ∧ q.keepAlive.isZero = false then some (now + q.keepAlive.ceilMillis) else none
    ({ q with entries := q.entries ++ [(c, deadline)] }, [])

def take? (q : Shelf) : Option (Conn × Shelf) :=
  match q.entries with
  | [] => none
  | (c, _) :: rest => some (c, { q with entries := rest })

def close (q : Shelf) : Shelf × List Conn :=
  ({ q with entries := [], closed := true }, q.entries.map Prod.fst)

def closing? (time : Nat) (e : Conn × Option Nat) : Option (Nat × Conn) :=
  (e.2.filter fun d => decide (d ≤ time)).map fun d => (d, e.1)

def elapse (q : Shelf) (time : Nat) : Shelf × List (Nat × Conn) :=
  ({ q with entries := q.entries.filter fun e => (closing? time e).isNone },
   q.entries.filterMap (closing? time))

end Shelf

namespace Pool

structure Slot where
  key : Nat
  conn : Conn
  deadline : Option Nat

namespace Slot

def entry (s : Slot) : Conn × Option Nat := (s.conn, s.deadline)

def timer? (s : Slot) : Option (Nat × Nat) := s.deadline.map fun d => (d, s.key)

def dueBy (time : Nat) (s : Slot) : Bool := s.deadline.any fun d => decide (d ≤ time)

theorem filter_timers {slots : List Slot} {P : Nat × Nat → Bool} {K : Slot → Bool}
    (h : ∀ s ∈ slots, ∀ d ∈ s.deadline, P (d, s.key) = K s) :
    (slots.filterMap timer?).filter P = (slots.filter K).filterMap timer? := by
  induction slots with
  | nil => rfl
  | cons s rest ih =>
    have hrest := ih fun s' hs' => h s' (List.mem_cons_of_mem _ hs')
    have hs := h s (List.mem_cons_self ..)
    cases hd : s.deadline with
    | none => cases hk : K s <;> simp [timer?, hd, hk, hrest]
    | some d =>
      have hp := hs d hd
      cases hk : K s <;> simp [timer?, hd, hk, hp, hrest]

end Slot

/-- A pool that holds `slots` at time `now`: its keys and its timers are those of the slots, in the
order of their release. -/
structure Holds (p : Pool) (now : Nat) (slots : List Slot) : Prop where
  idle : p.idle = slots.map fun s => (s.key, s.conn)
  timers : p.timers = slots.filterMap Slot.timer?
  ascending : (slots.map Slot.key).Pairwise (· < ·)
  fresh : ∀ s ∈ slots, s.key < p.nextKey
  sorted : (slots.filterMap Slot.deadline).Pairwise (· ≤ ·)
  ahead : ∀ s ∈ slots, ∀ d ∈ s.deadline, now < d ∧ d ≤ now + p.keepAlive.ceilMillis

theorem Holds.length {p : Pool} {now : Nat} {slots : List Slot} (h : p.Holds now slots) :
    p.idle.length = slots.length := by
  rw [h.idle, List.length_map]

theorem Holds.sublist {p p' : Pool} {now now' : Nat} {slots rest : List Slot} (h : p.Holds now slots)
    (hr : rest.Sublist slots) (hi : p'.idle = rest.map fun s => (s.key, s.conn))
    (ht : p'.timers = rest.filterMap Slot.timer?)
    (hk : p'.nextKey = p.nextKey) (ha : p'.keepAlive = p.keepAlive) (hn : now ≤ now')
    (hd : ∀ s ∈ rest, ∀ d ∈ s.deadline, now' < d) : p'.Holds now' rest where
  idle := hi
  timers := ht
  ascending := h.ascending.sublist (hr.map _)
  fresh s hs := by
    rw [hk]
    exact h.fresh s (hr.subset hs)
  sorted := h.sorted.sublist (hr.filterMap _)
  ahead s hs d hm := by
    have hle := (h.ahead s (hr.subset hs) d hm).2
    rw [ha]
    exact ⟨hd s hs d hm, by omega⟩

theorem Holds.push {p : Pool} {now : Nat} {slots : List Slot} (h : p.Holds now slots) (c : Conn)
    (deadline : Option Nat) (hd : ∀ d ∈ deadline, now < d ∧ d = now + p.keepAlive.ceilMillis) :
    Holds { p with
      idle := p.idle ++ [(p.nextKey, c)]
      timers := p.timers ++ (deadline.map fun d => (d, p.nextKey)).toList
      nextKey := p.nextKey + 1 } now (slots ++ [⟨p.nextKey, c, deadline⟩]) where
  idle := by simp [h.idle]
  timers := by simp [h.timers, List.filterMap_eq_flatMap_toList, Slot.timer?]
  ascending := by
    rw [List.map_append, List.pairwise_append]
    refine ⟨h.ascending, List.pairwise_singleton _ _, fun k hk k' hk' => ?_⟩
    obtain ⟨s, hs, rfl⟩ := List.mem_map.1 hk
    obtain rfl := List.mem_singleton.1 hk'
    exact h.fresh s hs
  fresh s hs := by
    rcases List.mem_append.1 hs with hs | hs
    · exact Nat.lt_succ_of_lt (h.fresh s hs)
    · obtain rfl := List.mem_singleton.1 hs
      exact Nat.lt_succ_self _
  sorted := by
    rw [List.filterMap_append, List.pairwise_append]
    refine ⟨h.sorted, ?_, fun d hm d' hm' => ?_⟩
    · cases deadline <;> simp
    · obtain ⟨s, hs, hsd⟩ := List.mem_filterMap.1 hm
      have hle := (h.ahead s hs d hsd).2
      have heq : d' ∈ deadline := by simpa using hm'
      -- nothing is further ahead than the keep alive, which the new deadline is
      rw [(hd d' heq).2]
      exact hle
  ahead s hs d hm := by
    rcases List.mem_append.1 hs with hs | hs
    · exact h.ahead s hs d hm
    · obtain rfl := List.mem_singleton.1 hs
      exact ⟨(hd d hm).1, Nat.le_of_eq (hd d hm).2⟩

theorem Holds.eq_of_key {p : Pool} {now : Nat} {slots : List Slot} (h : p.Holds now slots)
    {s t : Slot} (hs : s ∈ slots) (ht : t ∈ slots) (hk : s.key = t.key) : s = t := by
  have hinj := List.inj_on_of_nodup_map (h.ascending.imp Nat.ne_of_lt)
  exact hinj hs ht hk

structure Shows (p : Pool) (now : Nat) (q : Shelf) : Prop where
  address : q.address = p.address
  capacity : q.capacity = p.capacity
  keepAlive : q.keepAlive = p.keepAlive
  closed : q.closed = p.closed
  entries : ∃ slots, p.Holds now slots ∧ q.entries = slots.map Slot.entry

theorem Shows.idleCount {p : Pool} {now : Nat} {q : Shelf} (h : p.Shows now q) :
    p.idleCount = q.entries.length := by
  obtain ⟨slots, hs, he⟩ := h.entries
  rw [Pool.idleCount, hs.length, he, List.length_map]

theorem Shows.text {p : Pool} {now : Nat} {q : Shelf} (h : p.Shows now q) :
    p.text = Pool.text
      { address := q.address, capacity := q.capacity, keepAlive := q.keepAlive } := by
  obtain ⟨address, capacity, keepAlive, idle, timers, nextKey, closed⟩ := p
  obtain ⟨address', capacity', keepAlive', entries, closed'⟩ := q
  obtain ⟨rfl, rfl, rfl, -, -⟩ := h
  unfold Pool.text
  rfl

theorem Shows.conns {p : Pool} {now : Nat} {q : Shelf} (h : p.Shows now q) :
    p.conns = q.entries.map Prod.fst := by
  obtain ⟨slots, hs, he⟩ := h.entries
  simp [Pool.conns, hs.idle, he, Slot.entry]

theorem shows_new (address : Address) (capacity : Nat) (keepAlive : Span) (now : Nat) :
    Shows { address, capacity, keepAlive } now { address, capacity, keepAlive } :=
  ⟨rfl, rfl, rfl, rfl, [], ⟨rfl, rfl, .nil, by simp, .nil, by simp⟩, rfl⟩

theorem Shows.release {p : Pool} {now : Nat} {q : Shelf} (h : p.Shows now q) (timed : Bool)
    (c : Conn) :
    (p.release now timed c).2 = (q.release now timed c).2 ∧
      (p.release now timed c).1.Shows now (q.release now timed c).1 := by
  obtain ⟨slots, hs, he⟩ := h.entries
  have hlen : q.entries.length = p.idle.length := h.idleCount.symm
  by_cases hfull : q.closed ∨ (q.capacity ≠ 0 ∧ q.capacity ≤ q.entries.length)
  · have hp : (p.closed || p.isFull) = true := by
      simpa [isFull, ← h.closed, ← h.capacity, ← hlen] using hfull
    simp only [Pool.release, Shelf.release, hp, hfull, if_true]
    exact ⟨trivial, h⟩
  · have hp : ¬ (p.closed || p.isFull) = true := by
      simpa [isFull, ← h.closed, ← h.capacity, ← hlen] using hfull
    rw [Pool.release, Shelf.release, if_neg hp, if_neg hfull]
    refine ⟨rfl, h.address, h.capacity, h.keepAlive, h.closed, ?_⟩
    let deadline : Option Nat :=
      if timed ∧ q.keepAlive.isZero = false then some (now + q.keepAlive.ceilMillis) else none
    -- rounded up, a keep alive that is not zero is at least a millisecond
    have hd : ∀ d ∈ deadline, now < d ∧ d = now + p.keepAlive.ceilMillis := by
      intro d hd
      obtain ⟨ht, rfl⟩ : (timed ∧ q.keepAlive.isZero = false) ∧ now + q.keepAlive.ceilMillis = d := by
        simpa [deadline] using hd
      have hpos := (Span.ceilMillis_pos _).2 ht.2
      rw [h.keepAlive] at hpos ⊢
      exact ⟨by omega, rfl⟩
    refine ⟨slots ++ [⟨p.nextKey, c, deadline⟩], ?_, by simp [he, Slot.entry, deadline]⟩
    have ht : (if (timed && !p.keepAlive.isZero) = true then
        p.timers ++ [(now + p.keepAlive.ceilMillis, p.nextKey)] else p.timers) =
        p.timers ++ (deadline.map fun d => (d, p.nextKey)).toList := by
      by_cases hz : timed ∧ p.keepAlive.isZero = false <;> simp [deadline, h.keepAlive, hz]
    rw [ht]
    exact hs.push c deadline hd

theorem Shows.take? {p : Pool} {now : Nat} {q : Shelf} (h : p.Shows now q) :
    (p.take? = none ∧ q.take? = none) ∨
      ∃ c p' q', p.take? = some (c, p') ∧ q.take? = some (c, q') ∧ p'.Shows now q' := by
  obtain ⟨slots, hs, he⟩ := h.entries
  cases slots with
  | nil => exact .inl ⟨by simp [Pool.take?, hs.idle], by simp [Shelf.take?, he]⟩
  | cons s rest =>
    have hp : p.take? = some (s.conn, { p with
        idle := rest.map fun s => (s.key, s.conn)
        timers := p.timers.filter fun t => t.2 ≠ s.key }) := by
      simp [Pool.take?, hs.idle]
    have hq : q.take? = some (s.conn, { q with entries := rest.map Slot.entry }) := by
      simp [Shelf.take?, he, Slot.entry]
    refine .inr ⟨_, _, _, hp, hq, h.address, h.capacity, h.keepAlive, h.closed, rest, ?_, rfl⟩
    refine hs.sublist (List.sublist_cons_self _ _) rfl ?_ rfl rfl (Nat.le_refl _)
      fun s' hs' d hd => (hs.ahead s' (List.mem_cons_of_mem _ hs') d hd).1
    -- keys ascend, so the timer of no other slot is cancelled
    have hne : ∀ s' ∈ rest, s'.key ≠ s.key := by
      have hasc := hs.ascending
      rw [List.map_cons, List.pairwise_cons] at hasc
      exact fun s' hs' => Nat.ne_of_gt (hasc.1 _ (List.mem_map_of_mem hs'))
    have hrest : (s :: rest).filter (fun s' => decide (s'.key ≠ s.key)) = rest := by
      simpa using hne
    rw [hs.timers, Slot.filter_timers (K := fun s' => decide (s'.key ≠ s.key)) (fun _ _ _ _ => rfl),
      hrest]

theorem Shows.close {p : Pool} {now : Nat} {q : Shelf} (h : p.Shows now q) :
    p.close.2 = q.close.2 ∧ p.close.1.Shows now q.close.1 := by
  obtain ⟨slots, hs, he⟩ := h.entries
  refine ⟨?_, h.address, h.capacity, h.keepAlive, rfl, [], ?_, rfl⟩
  · exact h.conns
  · exact hs.sublist (List.nil_sublist _) rfl rfl rfl rfl (Nat.le_refl _) (by simp)

theorem Holds.expired {p : Pool} {now : Nat} {slots : List Slot} (h : p.Holds now slots) (time : Nat)
    {s : Slot} (hs : s ∈ slots) : (p.expired time).contains s.key = s.dueBy time := by
  have hmem : s.key ∈ p.expired time ↔ s.dueBy time = true := by
    simp only [Pool.expired, h.timers, List.mem_map, List.mem_filter, List.mem_filterMap]
    constructor
    · rintro ⟨t, ⟨⟨s', hs', ht⟩, hle⟩, hk⟩
      obtain ⟨d, hd, rfl⟩ := Option.map_eq_some_iff.1 ht
      obtain rfl := h.eq_of_key hs' hs hk
      simpa [Slot.dueBy, hd] using hle
    · intro hdue
      obtain ⟨d, hd, hle⟩ : ∃ d, s.deadline = some d ∧ d ≤ time := by
        cases hd : s.deadline <;> simp_all [Slot.dueBy]
      exact ⟨(d, s.key), ⟨⟨s, hs, by simp [Slot.timer?, hd]⟩, by simpa using hle⟩, rfl⟩
  rw [Bool.eq_iff_iff, List.contains_iff_mem, hmem]

theorem Holds.expire {p : Pool} {now : Nat} {slots : List Slot} (h : p.Holds now slots) {time : Nat}
    (hn : now ≤ time) :
    (p.expire time).2 = (slots.filter (Slot.dueBy time)).map Slot.conn ∧
      (p.expire time).1.Holds time (slots.filter fun s => !s.dueBy time) := by
  have hfilter (b : Bool → Bool) :
      p.idle.filter (fun e => b ((p.expired time).contains e.1)) =
        (slots.filter fun s => b (s.dueBy time)).map fun s => (s.key, s.conn) := by
    rw [h.idle, List.filter_map]
    refine congrArg _ (List.filter_congr fun s hs => ?_)
    simp only [Function.comp_apply, h.expired time hs]
  constructor
  · simp only [Pool.expire]
    rw [hfilter fun b => b, List.map_map]
    rfl
  · refine h.sublist List.filter_sublist (hfilter fun b => !b) ?_ rfl rfl hn ?_
    · simp only [Pool.expire, h.timers]
      refine Slot.filter_timers fun s _ d hd => ?_
      simp [Slot.dueBy, Option.mem_def.1 hd, ← decide_not]
    · intro s hs d hd
      have hdue := (List.mem_filter.1 hs).2
      simpa [Slot.dueBy, Option.mem_def.1 hd] using hdue

theorem closings_of_first {slots : List Slot} {due time : Nat} (hle : due ≤ time)
    (hs : (slots.filterMap Slot.deadline).Pairwise (· ≤ ·))
    (hd : ∀ s ∈ slots, ∀ d ∈ s.deadline, due ≤ d) :
    (slots.map Slot.entry).filterMap (Shelf.closing? time) =
      (slots.filter (Slot.dueBy due)).map (fun s => (due, s.conn)) ++
        ((slots.filter fun s => !s.dueBy due).map Slot.entry).filterMap (Shelf.closing? time) := by
  induction slots with
  | nil => rfl
  | cons s rest ih =>
    have hrest := fun s' hs' => hd s' (List.mem_cons_of_mem s hs')
    cases hsd : s.deadline with
    | none =>
      have hskip : Shelf.closing? time s.entry = none := by simp [Shelf.closing?, Slot.entry, hsd]
      have hkeep : s.dueBy due = false := by simp [Slot.dueBy, hsd]
      rw [List.filterMap_cons_none hsd] at hs
      simp [hskip, hkeep, ih hs hrest]
    | some d =>
      rw [List.filterMap_cons_some hsd, List.pairwise_cons] at hs
      by_cases hdd : d = due
      · subst hdd
        have hclose : Shelf.closing? time s.entry = some (d, s.conn) := by
          simp [Shelf.closing?, Slot.entry, hsd, hle]
        have hdrop : s.dueBy d = true := by simp [Slot.dueBy, hsd]
        simp [hclose, hdrop, ih hs.2 hrest]
      · -- The deadlines ascend, so none in the rest is due either.
        have hlt : due < d := Nat.lt_of_le_of_ne (hd s (List.mem_cons_self ..) d hsd) (Ne.symm hdd)
        have hnone : ∀ s' ∈ s :: rest, s'.dueBy due = false := by
          intro s' hs'
          cases hsd' : s'.deadline with
          | none => simp [Slot.dueBy, hsd']
          | some d' =>
            rcases List.mem_cons.1 hs' with rfl | hmem
            · simp [Slot.dueBy, hsd, hlt]
            · have hdd' := hs.1 d' (List.mem_filterMap.2 ⟨s', hmem, hsd'⟩)
              simp [Slot.dueBy, hsd']
              omega
        have hempty : (s :: rest).filter (Slot.dueBy due) = [] := by
          simpa [List.filter_eq_nil_iff] using hnone
        have hall : (s :: rest).filter (fun s' => !s'.dueBy due) = s :: rest := by
          simpa [List.filter_eq_self] using hnone
        rw [hempty, hall]
        rfl

theorem closings_of_none {slots : List Slot} {time : Nat}
    (hd : ∀ s ∈ slots, ∀ d ∈ s.deadline, time < d) :
    (slots.map Slot.entry).filterMap (Shelf.closing? time) = [] := by
  simp only [List.filterMap_eq_nil_iff, List.mem_map]
  rintro _ ⟨s, hs, rfl⟩
  cases hsd : s.deadline with
  | none => simp [Shelf.closing?, Slot.entry, hsd]
  | some d => simpa [Shelf.closing?, Slot.entry, hsd] using hd s hs d hsd

theorem Holds.due?_eq_some {p : Pool} {now : Nat} {slots : List Slot} (h : p.Holds now slots)
    {due : Nat} (hd : p.due? = some due) :
    (∃ s ∈ slots, s.deadline = some due) ∧ ∀ s ∈ slots, ∀ d ∈ s.deadline, due ≤ d := by
  have htimers : p.timers.map Prod.fst = slots.filterMap Slot.deadline := by
    rw [h.timers, List.map_filterMap]
    refine List.filterMap_congr fun s _ => ?_
    cases hsd : s.deadline <;> simp [Slot.timer?, hsd]
  rw [Pool.due?, htimers, List.min?_eq_some_iff] at hd
  refine ⟨by simpa using hd.1, fun s hs d hm => hd.2 d ?_⟩
  exact List.mem_filterMap.2 ⟨s, hs, hm⟩

theorem Holds.due?_eq_none {p : Pool} {now : Nat} {slots : List Slot} (h : p.Holds now slots)
    (hd : p.due? = none) : ∀ s ∈ slots, s.deadline = none := by
  rw [Pool.due?, List.min?_eq_none_iff, List.map_eq_nil_iff, h.timers,
    List.filterMap_eq_nil_iff] at hd
  intro s hs
  simpa [Slot.timer?] using hd s hs

theorem Holds.still {p : Pool} {now : Nat} {slots : List Slot} (h : p.Holds now slots) {time : Nat}
    (hn : now ≤ time) (hd : ∀ s ∈ slots, ∀ d ∈ s.deadline, time < d) :
    [] = (slots.map Slot.entry).filterMap (Shelf.closing? time) ∧
      p.Holds time (slots.filter fun s => !s.dueBy time) := by
  have hkeep : slots.filter (fun s => !s.dueBy time) = slots := by
    refine List.filter_eq_self.2 fun s hs => ?_
    cases hsd : s.deadline with
    | none => simp [Slot.dueBy, hsd]
    | some d => simpa [Slot.dueBy, hsd] using hd s hs d hsd
  rw [closings_of_none hd, hkeep]
  exact ⟨rfl, h.sublist (List.Sublist.refl _) h.idle h.timers rfl rfl hn hd⟩

theorem Holds.rounds {time : Nat} (n : Nat) : ∀ {p : Pool} {now : Nat} {slots : List Slot},
    p.Holds now slots → now ≤ time → p.timers.length ≤ n →
      (Pool.elapse.go time n p).2 = (slots.map Slot.entry).filterMap (Shelf.closing? time) ∧
        (Pool.elapse.go time n p).1.Holds time (slots.filter fun s => !s.dueBy time) := by
  induction n with
  | zero =>
    intro p now slots h hn hlen
    have htimers : p.timers = [] := List.eq_nil_of_length_eq_zero (Nat.le_zero.1 hlen)
    have hnone := h.due?_eq_none (by simp [Pool.due?, htimers])
    exact h.still hn fun s hs d hd => by simp [hnone s hs] at hd
  | succ n ih =>
    intro p now slots h hn hlen
    cases hdue : p.due? with
    | none =>
      have hnone := h.due?_eq_none hdue
      rw [Pool.elapse.go, hdue]
      exact h.still hn fun s hs d hd => by simp [hnone s hs] at hd
    | some due =>
      obtain ⟨⟨s, hs, hsd⟩, hfirst⟩ := h.due?_eq_some hdue
      by_cases hle : due ≤ time
      · obtain ⟨hcloses, hrest⟩ := h.expire (Nat.le_of_lt (h.ahead s hs due hsd).1)
        -- the timer that is due goes, so as many rounds as there are timers are enough
        have hfewer : (p.expire due).1.timers.length < p.timers.length := by
          refine List.length_filter_lt_length_iff_exists.2 ⟨(due, s.key), ?_, by simp⟩
          rw [h.timers]
          exact List.mem_filterMap.2 ⟨s, hs, by simp [Slot.timer?, hsd]⟩
        obtain ⟨hlater, hend⟩ := ih hrest hle (by omega)
        -- what is due by the first deadline is due by the end as well
        have hkeep : (slots.filter fun s => !s.dueBy due).filter (fun s => !s.dueBy time) =
            slots.filter fun s => !s.dueBy time := by
          rw [List.filter_filter]
          refine List.filter_congr fun s' _ => ?_
          cases hsd' : s'.deadline with
          | none => simp [Slot.dueBy, hsd']
          | some d => simp [Slot.dueBy, hsd']; omega
        rw [Pool.elapse.go, hdue]
        simp only [hle, if_true]
        refine ⟨?_, hkeep ▸ hend⟩
        rw [hcloses, hlater, closings_of_first hle h.sorted hfirst, List.map_map]
        rfl
      · rw [Pool.elapse.go, hdue]
        simp only [hle, if_false]
        exact h.still hn fun s' hs' d hd => by
          have hge := hfirst s' hs' d hd
          omega

theorem Holds.elapse {p : Pool} {now : Nat} {slots : List Slot} (h : p.Holds now slots) {time : Nat}
    (hn : now ≤ time) :
    (p.elapse time).2 = (slots.map Slot.entry).filterMap (Shelf.closing? time) ∧
      (p.elapse time).1.Holds time (slots.filter fun s => !s.dueBy time) :=
  h.rounds _ hn (Nat.le_refl _)

theorem rounds_frame (time n : Nat) (p : Pool) :
    (Pool.elapse.go time n p).1.address = p.address ∧
      (Pool.elapse.go time n p).1.capacity = p.capacity ∧
      (Pool.elapse.go time n p).1.keepAlive = p.keepAlive ∧
      (Pool.elapse.go time n p).1.closed = p.closed := by
  induction n generalizing p with
  | zero => exact ⟨rfl, rfl, rfl, rfl⟩
  | succ n ih =>
    rw [Pool.elapse.go]
    split
    · exact ⟨rfl, rfl, rfl, rfl⟩
    · split
      · exact ih (p.expire _).1
      · exact ⟨rfl, rfl, rfl, rfl⟩

theorem Shows.elapse {p : Pool} {now : Nat} {q : Shelf} (h : p.Shows now q) {time : Nat}
    (hn : now ≤ time) :
    (p.elapse time).2 = (q.elapse time).2 ∧ (p.elapse time).1.Shows time (q.elapse time).1 := by
  obtain ⟨slots, hs, he⟩ := h.entries
  obtain ⟨hcloses, hrest⟩ := hs.elapse hn
  obtain ⟨haddress, hcapacity, hkeepAlive, hclosed⟩ := rounds_frame time p.timers.length p
  refine ⟨by rw [hcloses, Shelf.elapse, he], ?_⟩
  refine ⟨h.address.trans haddress.symm, h.capacity.trans hcapacity.symm,
    h.keepAlive.trans hkeepAlive.symm, h.closed.trans hclosed.symm, _, hrest, ?_⟩
  rw [Shelf.elapse, he, List.filter_map]
  refine congrArg _ (List.filter_congr fun s _ => ?_)
  cases hsd : s.deadline with
  | none => simp [Shelf.closing?, Slot.entry, Slot.dueBy, hsd]
  | some d =>
    by_cases hd : d ≤ time <;> simp [Shelf.closing?, Slot.entry, Slot.dueBy, hsd, hd]

end Pool
end StreamClient
