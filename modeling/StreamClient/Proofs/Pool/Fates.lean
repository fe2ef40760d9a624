import Mathlib.Data.List.Range
import Mathlib.Data.List.Count
import StreamClient.Pool

/-! What becomes of every release to a pool, whatever its callers and the clock do. -/

namespace StreamClient

namespace Pool

theorem count_release (p : Pool) (now : Nat) (timed : Bool) (c x : Conn) :
    (p.release now timed c).1.conns.count x + (p.release now timed c).2.count x =
      p.conns.count x + [c].count x := by
  by_cases h : p.closed || p.isFull
  · simp [release, h]
  · simp [release, h, conns]

theorem count_take? {p p' : Pool} {c : Conn} (h : p.take? = some (c, p')) (x : Conn) :
    p'.conns.count x + [c].count x = p.conns.count x := by
  cases hi : p.idle with
  | nil => simp [take?, hi] at h
  | cons e r =>
    obtain ⟨rfl, rfl⟩ : e.2 = c ∧ _ = p' := by simpa [take?, hi] using h
    simp [conns, hi, List.count_cons]

theorem count_expire (p : Pool) (now : Nat) (x : Conn) :
    (p.expire now).1.conns.count x + (p.expire now).2.count x = p.conns.count x := by
  simp only [expire, conns]
  induction p.idle with
  | nil => rfl
  | cons e r ih =>
    cases he : (p.expired now).contains e.1 <;>
      simp only [List.filter_cons, he, Bool.not_true, Bool.not_false, if_true, List.map_cons,
        List.count_cons, Bool.false_eq_true, if_false] at ih ⊢ <;> omega

theorem count_close (p : Pool) (x : Conn) :
    p.close.1.conns.count x + p.close.2.count x = p.conns.count x := by
  simp [close, conns]

def Fits (p : Pool) : Prop := p.capacity ≠ 0 → p.idleCount ≤ p.capacity

theorem Fits.release {p : Pool} (h : p.Fits) (now : Nat) (timed : Bool) (c : Conn) :
    (p.release now timed c).1.Fits := by
  by_cases hr : (p.closed || p.isFull) = true
  · rw [Pool.release, if_pos hr]
    exact h
  · rw [Pool.release, if_neg hr]
    intro hc
    -- a pool that takes the connection back has room for it
    have hroom : p.idle.length < p.capacity := by
      simp only [isFull, Bool.or_eq_true, Bool.and_eq_true, bne_iff_ne, decide_eq_true_eq] at hr
      exact Nat.lt_of_not_le fun hle => hr (.inr ⟨hc, hle⟩)
    simpa [idleCount] using Nat.succ_le_of_lt hroom

theorem Fits.of_le {p p' : Pool} (h : p.Fits) (hc : p'.capacity = p.capacity)
    (hi : p'.idleCount ≤ p.idleCount) : p'.Fits := by
  intro hne
  rw [hc] at hne ⊢
  exact hi.trans (h hne)

theorem take?_frame {p p' : Pool} {c : Conn} (h : p.take? = some (c, p')) :
    p'.capacity = p.capacity ∧ p'.idleCount ≤ p.idleCount := by
  cases hi : p.idle with
  | nil => simp [take?, hi] at h
  | cons e r =>
    obtain ⟨-, rfl⟩ : e.2 = c ∧ _ = p' := by simpa [take?, hi] using h
    exact ⟨rfl, by simp [idleCount, hi]⟩

def rename (f : Conn → Conn) (p : Pool) : Pool :=
  { p with idle := p.idle.map fun e => (e.1, f e.2) }

section Rename
variable (f : Conn → Conn) (p : Pool)

theorem conns_rename : (p.rename f).conns = p.conns.map f := by
  simp [rename, conns]

theorem rename_release (now : Nat) (timed : Bool) (c : Conn) :
    (p.rename f).release now timed (f c) =
      ((p.release now timed c).1.rename f, (p.release now timed c).2.map f) := by
  by_cases h : (p.closed || p.isFull) = true
  · have h' : ((p.rename f).closed || (p.rename f).isFull) = true := by
      simpa [rename, isFull] using h
    rw [Pool.release, if_pos h', Pool.release, if_pos h]
    rfl
  · have h' : ¬ ((p.rename f).closed || (p.rename f).isFull) = true := by
      simpa [rename, isFull] using h
    rw [Pool.release, if_neg h', Pool.release, if_neg h]
    simp [rename]

theorem rename_take? :
    (p.rename f).take? = p.take?.map fun r => (f r.1, r.2.rename f) := by
  cases hi : p.idle with
  | nil => simp [take?, rename, hi]
  | cons e r => simp [take?, rename, hi]

theorem rename_expire (now : Nat) :
    (p.rename f).expire now = ((p.expire now).1.rename f, (p.expire now).2.map f) := by
  have h : (p.rename f).expired now = p.expired now := rfl
  simp only [expire, h]
  simp [rename, List.filter_map, Function.comp_def]

theorem rename_close : (p.rename f).close = (p.close.1.rename f, p.close.2.map f) := by
  simp [close, rename, conns]

end Rename

inductive Act where
  | release (now : Nat) (timed : Bool) (c : Conn)
  | acquire
  | made (c : Conn)
  | expire (now : Nat)
  | close
  deriving DecidableEq, Repr

/-- A pool with what has become of the connections so far. -/
structure Account where
  pool : Pool
  released : List Conn := []
  /-- Handed out without the factory, in order. -/
  handed : List Conn := []
  /-- The close calls of the pool, in order. -/
  closed : List Conn := []
  made : List Conn := []
  /-- Made or handed out, and not released since. -/
  owned : List Conn := []

namespace Account

def opened (address : Address) (capacity : Nat) (keepAlive : Span) : Account :=
  { pool := { address, capacity, keepAlive } }

def gives? (a : Account) : Act → Option Conn
  | .acquire => a.pool.take?.map Prod.fst
  | .made c => some c
  | _ => none

def step (a : Account) : Act → Account
  | .release now timed c =>
    let (pool, closes) := a.pool.release now timed c
    { a with
      pool, released := a.released ++ [c], closed := a.closed ++ closes, owned := a.owned.erase c }
  | .acquire =>
    match a.pool.take? with
    | some (c, pool) => { a with pool, handed := a.handed ++ [c], owned := c :: a.owned }
    | none => a
  | .made c => { a with made := c :: a.made, owned := c :: a.owned }
  | .expire now =>
    let (pool, closes) := a.pool.expire now
    { a with pool, closed := a.closed ++ closes }
  | .close =>
    let (pool, closes) := a.pool.close
    { a with pool, closed := a.closed ++ closes }

def run (a : Account) (acts : List Act) : Account := acts.foldl step a

/-- Only an owner releases a connection, and the factory makes a new one every time. -/
def Allows (a : Account) : Act → Prop
  | .release _ _ c => c ∈ a.owned
  | .made c => c ∉ a.made
  | _ => True

def Fair : Account → List Act → Prop
  | _, [] => True
  | a, act :: rest => a.Allows act ∧ (a.step act).Fair rest

instance (a : Account) : DecidablePred a.Allows
  | .release _ _ c => inferInstanceAs (Decidable (c ∈ a.owned))
  | .acquire => .isTrue trivial
  | .made c => inferInstanceAs (Decidable (c ∉ a.made))
  | .expire _ => .isTrue trivial
  | .close => .isTrue trivial

instance decidableFair : (a : Account) → (acts : List Act) → Decidable (a.Fair acts)
  | _, [] => .isTrue trivial
  | a, act :: rest =>
    have : Decidable ((a.step act).Fair rest) := decidableFair (a.step act) rest
    inferInstanceAs (Decidable (a.Allows act ∧ (a.step act).Fair rest))

def Balanced (a : Account) : Prop :=
  ∀ x, a.pool.conns.count x + a.handed.count x + a.closed.count x = a.released.count x

theorem Balanced.step {a : Account} (h : a.Balanced) (act : Act) : (a.step act).Balanced := by
  intro x
  have hx := h x
  cases act with
  | release now timed c =>
    have hpool := a.pool.count_release now timed c x
    simp only [Account.step, List.count_append]
    omega
  | acquire =>
    cases ht : a.pool.take? with
    | none => simpa [Account.step, ht] using hx
    | some r =>
      have hpool := count_take? ht x
      simp only [Account.step, ht, List.count_append]
      omega
  | made c => exact hx
  | expire now =>
    have hpool := a.pool.count_expire now x
    simp only [Account.step, List.count_append]
    omega
  | close =>
    have hpool := a.pool.count_close x
    simp only [Account.step, List.count_append]
    omega

theorem Balanced.run {a : Account} (h : a.Balanced) (acts : List Act) : (a.run acts).Balanced := by
  induction acts generalizing a with
  | nil => exact h
  | cons act rest ih => exact ih (h.step act)

theorem Balanced.perm {a : Account} (h : a.Balanced) :
    (a.pool.conns ++ a.handed ++ a.closed).Perm a.released := by
  rw [List.perm_iff_count]
  intro x
  rw [List.count_append, List.count_append]
  exact h x

theorem step_fits {a : Account} (h : a.pool.Fits) (act : Act) : (a.step act).pool.Fits := by
  cases act with
  | release now timed c => exact h.release now timed c
  | acquire =>
    cases ht : a.pool.take? with
    | none => simpa [step, ht] using h
    | some r =>
      obtain ⟨hcapacity, hidle⟩ := take?_frame ht
      simpa only [step, ht] using h.of_le hcapacity hidle
  | made c => exact h
  | expire now =>
    refine h.of_le rfl ?_
    simpa [step, Pool.expire, idleCount] using List.length_filter_le _ _
  | close => exact h.of_le rfl (Nat.zero_le _)

theorem run_fits {a : Account} (h : a.pool.Fits) (acts : List Act) : (a.run acts).pool.Fits := by
  induction acts generalizing a with
  | nil => exact h
  | cons act rest ih => exact ih (step_fits h act)

@[simp] theorem step_capacity (a : Account) (act : Act) :
    (a.step act).pool.capacity = a.pool.capacity := by
  cases act with
  | release now timed c =>
    simp only [step, Pool.release]
    split <;> rfl
  | acquire =>
    cases ht : a.pool.take? with
    | none => simp [step, ht]
    | some r => simpa only [step, ht] using (take?_frame ht).1
  | made c => rfl
  | expire now => rfl
  | close => rfl

theorem run_capacity (a : Account) (acts : List Act) :
    (a.run acts).pool.capacity = a.pool.capacity := by
  induction acts generalizing a with
  | nil => rfl
  | cons act rest ih => rw [← step_capacity a act, ← ih (a.step act)]; rfl

structure Parted (a : Account) : Prop where
  fresh : a.made.Nodup
  parts : ∀ x, a.pool.conns.count x + a.owned.count x + a.closed.count x = a.made.count x

theorem Parted.step {a : Account} (h : a.Parted) {act : Act} (ha : a.Allows act) :
    (a.step act).Parted := by
  cases act with
  | release now timed c =>
    refine ⟨h.fresh, fun x => ?_⟩
    have hx := h.parts x
    have hpool := a.pool.count_release now timed c x
    -- the owner has one less of what goes back
    have howned : (a.owned.erase c).count x + [c].count x = a.owned.count x := by
      rw [(List.perm_cons_erase ha).count_eq x, List.count_cons, List.count_cons]
      simp
    simp only [Account.step, List.count_append]
    omega
  | acquire =>
    cases ht : a.pool.take? with
    | none => simpa only [Account.step, ht] using h
    | some r =>
      simp only [Account.step, ht]
      refine ⟨h.fresh, fun x => ?_⟩
      have hx := h.parts x
      have hpool := count_take? ht x
      simp only [List.count_cons, List.count_nil] at hpool ⊢
      omega
  | made c =>
    refine ⟨List.nodup_cons.2 ⟨ha, h.fresh⟩, fun x => ?_⟩
    have hx := h.parts x
    simp only [Account.step, List.count_cons]
    omega
  | expire now =>
    refine ⟨h.fresh, fun x => ?_⟩
    have hx := h.parts x
    have hpool := a.pool.count_expire now x
    simp only [Account.step, List.count_append]
    omega
  | close =>
    refine ⟨h.fresh, fun x => ?_⟩
    have hx := h.parts x
    have hpool := a.pool.count_close x
    simp only [Account.step, List.count_append]
    omega

theorem Parted.run {a : Account} (h : a.Parted) {acts : List Act} (hf : a.Fair acts) :
    (a.run acts).Parted := by
  induction acts generalizing a with
  | nil => exact h
  | cons act rest ih => exact ih (h.step hf.1) hf.2

theorem Parted.nodup {a : Account} (h : a.Parted) :
    (a.pool.conns ++ a.owned ++ a.closed).Nodup := by
  have hperm : (a.pool.conns ++ a.owned ++ a.closed).Perm a.made := by
    rw [List.perm_iff_count]
    intro x
    rw [List.count_append, List.count_append]
    exact h.parts x
  exact hperm.nodup_iff.2 h.fresh

theorem Parted.not_closed {a : Account} (h : a.Parted) {act : Act} {c : Conn} (ha : a.Allows act)
    (hg : a.gives? act = some c) : c ∉ a.closed := by
  cases act with
  | acquire =>
    obtain ⟨r, hr, rfl⟩ := Option.map_eq_some_iff.1 hg
    have hidle : r.1 ∈ a.pool.conns := by
      have hcount := count_take? hr r.1
      rw [List.count_singleton_self] at hcount
      exact List.count_pos_iff.1 (by omega)
    intro hclosed
    exact (List.nodup_append.1 h.nodup).2.2 r.1 (List.mem_append_left _ hidle) r.1 hclosed rfl
  | made c' =>
    obtain rfl : c' = c := by simpa [gives?] using hg
    -- what is closed was made before
    intro hmem
    have hpos := List.count_pos_iff.2 hmem
    have hparts := h.parts c'
    exact ha (List.count_pos_iff.1 (by omega))
  | release _ _ _ => cases hg
  | expire _ => cases hg
  | close => cases hg

end Account

/-- The same acts, with the number of the release in place of the connection; the next release is
number `n`. -/
def numbered (n : Nat) : List Act → List Act
  | [] => []
  | .release now timed _ :: rest => .release now timed n :: numbered (n + 1) rest
  | act :: rest => act :: numbered n rest

def releases (acts : List Act) : List Conn :=
  acts.filterMap fun
    | .release _ _ c => some c
    | _ => none

theorem releases_numbered (n : Nat) (acts : List Act) :
    releases (numbered n acts) = List.range' n (releases acts).length := by
  induction acts generalizing n with
  | nil => rfl
  | cons act rest ih =>
    cases act <;> simp [numbered, releases] at ih ⊢ <;> simp [ih, List.range'_succ]

namespace Account

theorem released_run (a : Account) (acts : List Act) :
    (a.run acts).released = a.released ++ releases acts := by
  induction acts generalizing a with
  | nil => simp [run, releases]
  | cons act rest ih =>
    have hstep : (a.step act).released = a.released ++ releases [act] := by
      cases act with
      | acquire => cases ht : a.pool.take? <;> simp [step, ht, releases]
      | _ => simp [step, releases]
    have hrest := ih (a.step act)
    rw [hstep, List.append_assoc, releases, releases, ← List.filterMap_append] at hrest
    exact hrest

/-- `b` is `a` with other names for what goes through the pool. -/
structure Names (f : Conn → Conn) (a b : Account) : Prop where
  pool : b.pool = a.pool.rename f
  handed : b.handed = a.handed.map f
  closed : b.closed = a.closed.map f

theorem Names.release {f : Conn → Conn} {a b : Account} (h : Names f a b) (now : Nat) (timed : Bool)
    (c : Conn) : Names f (a.step (.release now timed c)) (b.step (.release now timed (f c))) := by
  have hrelease := a.pool.rename_release f now timed c
  rw [← h.pool] at hrelease
  exact ⟨by simp only [step, hrelease], h.handed, by simp [step, hrelease, h.closed]⟩

theorem Names.step {f : Conn → Conn} {a b : Account} (h : Names f a b) (act : Act)
    (ha : ∀ now timed c, act ≠ .release now timed c) : Names f (a.step act) (b.step act) := by
  cases act with
  | release now timed c => exact absurd rfl (ha now timed c)
  | acquire =>
    have htake := a.pool.rename_take? f
    rw [← h.pool] at htake
    cases ht : a.pool.take? with
    | none =>
      rw [ht, Option.map_none] at htake
      simpa only [Account.step, ht, htake] using h
    | some r =>
      rw [ht, Option.map_some] at htake
      simp only [Account.step, ht, htake]
      exact ⟨rfl, by simp [h.handed], h.closed⟩
  | made c => exact ⟨h.pool, h.handed, h.closed⟩
  | expire now =>
    have hexpire := a.pool.rename_expire f now
    rw [← h.pool] at hexpire
    exact ⟨by simp only [Account.step, hexpire], h.handed, by
      simp [Account.step, hexpire, h.closed]⟩
  | close =>
    have hclose := a.pool.rename_close f
    rw [← h.pool] at hclose
    exact ⟨by simp only [Account.step, hclose], h.handed, by
      simp [Account.step, hclose, h.closed]⟩

theorem Names.run {f : Conn → Conn} {a b : Account} (h : Names f a b) (acts : List Act) (n : Nat)
    (hf : ∀ i, ∀ c ∈ (releases acts)[i]?, f (n + i) = c) :
    Names f (a.run (numbered n acts)) (b.run acts) := by
  induction acts generalizing a b n with
  | nil => exact h
  | cons act rest ih =>
    cases act with
    | release now timed c =>
      have hc : f n = c := hf 0 c (by simp [releases])
      have hnext := h.release now timed n
      rw [hc] at hnext
      refine ih hnext (n + 1) fun i c' hc' => ?_
      rw [Nat.add_right_comm]
      exact hf (i + 1) c' (by simpa [releases] using hc')
    | acquire => exact ih (h.step .acquire nofun) n hf
    | made c => exact ih (h.step (.made c) nofun) n hf
    | expire now => exact ih (h.step (.expire now) nofun) n hf
    | close => exact ih (h.step .close nofun) n hf

/-- Every release has one fate: it is idle, or was handed out once, or closed once. The releases are
told apart by their numbers, by which the same acts are done to a second pool; it deals with number
`i` as the first does with the connection of release `i`. So the books balance, a limit is kept, and
as long as only owners release, no connection is at once idle, owned or closed, nor is a closed one
given to a caller. `keepAlive` is within the range of the timer queue. -/
theorem one_fate (address : Address) (capacity : Nat) (keepAlive : Span) (acts : List Act) :
    let a := (opened address capacity keepAlive).run acts
    let b := (opened address capacity keepAlive).run (numbered 0 acts)
    let f := fun i => (releases acts).getD i 0
    (a.pool.conns = b.pool.conns.map f ∧ a.handed = b.handed.map f ∧ a.closed = b.closed.map f) ∧
      (b.pool.conns ++ b.handed ++ b.closed).Perm (List.range (releases acts).length) ∧
      (releases acts).length = a.pool.idleCount + a.handed.length + a.closed.length ∧
      (capacity ≠ 0 → a.pool.idleCount ≤ capacity) ∧
      ((opened address capacity keepAlive).Fair acts →
        (a.pool.conns ++ a.owned ++ a.closed).Nodup ∧
          ∀ act c, a.Allows act → a.gives? act = some c → c ∉ a.closed) := by
  intro a b f
  have hbalanced : (opened address capacity keepAlive).Balanced := fun x => by
    simp [opened, conns]
  have hnames : Names f b a := by
    refine Names.run ⟨rfl, rfl, rfl⟩ acts 0 fun i c hc => ?_
    have hget : (releases acts).getD i 0 = c := by
      rw [List.getD_eq_getElem?_getD, Option.mem_def.1 hc, Option.getD_some]
    simpa [f] using hget
  refine ⟨⟨?_, hnames.handed, hnames.closed⟩, ?_, ?_, ?_, fun hfair => ?_⟩
  · rw [← conns_rename, ← hnames.pool]
  · have hperm := (hbalanced.run (numbered 0 acts)).perm
    rw [released_run, releases_numbered, ← List.range_eq_range'] at hperm
    exact hperm
  · have hlength := (hbalanced.run acts).perm.length_eq
    rw [released_run, List.length_append, List.length_append, Pool.conns, List.length_map] at hlength
    exact hlength.symm
  · have hfits : a.pool.Fits := run_fits (fun _ => Nat.zero_le _) acts
    have hcapacity : a.pool.capacity = capacity := run_capacity _ acts
    rwa [Fits, hcapacity] at hfits
  · have hopened : (opened address capacity keepAlive).Parted := ⟨.nil, fun x => by
      simp [opened, conns]⟩
    have hparted : a.Parted := hopened.run hfair
    exact ⟨hparted.nodup, fun act c ha hg => hparted.not_closed ha hg⟩

/-- A pool for one connection that closes some of each kind: over its limit, in time, and when it is
closed itself. -/
def crowded : List Act :=
  [.made 1, .made 2, .release 0 true 1, .release 0 true 2, .acquire, .release 5 true 1, .expire 15,
    .made 3, .release 16 true 3, .close, .made 4, .release 20 true 4]

theorem one_fate_crowded :
    let a := (opened "localhost:9292" 1 (.ofMillis 10)).run crowded
    a.handed = [1] ∧ a.closed = [2, 1, 3, 4] ∧ (a.pool.conns ++ a.owned ++ a.closed).Nodup ∧
      a.pool.idleCount ≤ 1 ∧
      ∀ act c, a.Allows act → a.gives? act = some c → c ∉ a.closed := by
  intro a
  obtain ⟨-, -, -, hlimit, hfair⟩ := one_fate "localhost:9292" 1 (.ofMillis 10) crowded
  obtain ⟨hnodup, hgives⟩ := hfair (by decide)
  exact ⟨by decide, by decide, hnodup, hlimit (by decide), hgives⟩

end Account
end Pool
end StreamClient
