import Mathlib.Data.Stream.Init
import StreamClient.Draw
import StreamClient.Proofs.Link.Turns

/-! A call that has the link for itself, as a list of attempts on one broker after another. -/

namespace StreamClient.Link

variable {Q A : Type}

/-- What one attempt of a call came to. -/
structure Attempt (A : Type) where
  /-- The connection that was cached when it began. -/
  found : Option Conn
  /-- The dial it made, and how that ended. -/
  dial : Option (Address × Except Fault Conn) := none
  /-- The call it made, and how that ended. -/
  call : Option (Conn × Except Fault A) := none

namespace Attempt

def conn? (a : Attempt A) : Option Conn := a.found.or (a.dial.bind fun d => d.2.toOption)

def result (a : Attempt A) : Except Fault A :=
  match a.call, a.dial with
  | some (_, r), _ => r
  | none, some (_, .error f) => .error f
  | none, _ => .error noAddress

def kept (a : Attempt A) : Option Conn :=
  if unreached a.result then none else a.call.map Prod.fst

def orders (id : CallId) (q : Q) (a : Attempt A) : List (Order Q) :=
  a.dial.toList.map (fun d => .dial id d.1) ++
    a.call.toList.flatMap fun p => .call id p.1 q :: if unreached p.2 then [.close p.1] else []

/-- It dials once, a known address, if it found nothing cached, and calls once if it has a
connection. -/
structure Regular (addresses : List Address) (a : Attempt A) : Prop where
  dials : a.dial.isSome ↔ a.found = none ∧ addresses ≠ []
  known : ∀ d ∈ a.dial, d.1 ∈ addresses
  calls : a.call.map Prod.fst = a.conn?

section Shapes

variable (id : CallId) (q : Q) (found : Option Conn) (dial : Option (Address × Except Fault Conn))
  (a : Address) (f : Fault) (c : Conn) (r : Except Fault A)

@[simp] theorem result_unknown : (⟨found, none, none⟩ : Attempt A).result = .error noAddress := rfl

@[simp] theorem result_refused :
    (⟨found, some (a, .error f), none⟩ : Attempt A).result = .error f := rfl

@[simp] theorem result_called : (⟨found, dial, some (c, r)⟩ : Attempt A).result = r := rfl

@[simp] theorem kept_uncalled : (⟨found, dial, none⟩ : Attempt A).kept = none := by simp [kept]

@[simp] theorem kept_called :
    (⟨found, dial, some (c, r)⟩ : Attempt A).kept = if unreached r then none else some c := rfl

@[simp] theorem orders_unknown : (⟨found, none, none⟩ : Attempt A).orders id q = [] := rfl

@[simp] theorem orders_refused (d : Except Fault Conn) :
    (⟨found, some (a, d), none⟩ : Attempt A).orders id q = [.dial id a] := rfl

@[simp] theorem orders_reusing : (⟨found, none, some (c, r)⟩ : Attempt A).orders id q =
    .call id c q :: if unreached r then [.close c] else [] := by simp [orders]

@[simp] theorem orders_dialing (d : Except Fault Conn) :
    (⟨found, some (a, d), some (c, r)⟩ : Attempt A).orders id q =
      .dial id a :: .call id c q :: if unreached r then [.close c] else [] := by simp [orders]

end Shapes

end Attempt

/-- What a call that is over has asked for, the link it leaves and its result. -/
structure Course (Q A : Type) where
  orders : List (Order Q)
  link : Link Q
  result : Except Fault A

/-- The rest of a call that has the link for itself, for at most so many turns. Each dial and each
call ends as the next element of `dials` and `calls` says; with a dial goes the number that is drawn
for its address. -/
def alone (addresses : List Address) (id : CallId) :
    Nat → Stream' (Nat × Except Fault Conn) → Stream' (Except Fault A) → Turn Q A →
      Option (Course Q A)
  | 0, _, _, _ => none
  | n + 1, dials, calls, t =>
    let next (dials : Stream' (Nat × Except Fault Conn)) (calls : Stream' (Except Fault A))
        (t' : Turn Q A) : Option (Course Q A) :=
      (alone addresses id n dials calls t').map fun s => { s with orders := t.orders ++ s.orders }
    match t.ending, t.link.jobs.get? id with
    | some (.reply r), _ => some ⟨t.orders, t.link, r⟩
    | none, some (.dialing _) =>
      next dials.tail calls (t.link.dialed (choose dials.tail.head.1 addresses) id dials.head.2)
    | none, some (.calling _ _) =>
      next dials calls.tail (t.link.answered (choose dials.head.1 addresses) id calls.head)
    | _, _ => none

def failover (addresses : List Address) :
    Nat → Option Conn → Stream' (Nat × Except Fault Conn) → Stream' (Except Fault A) →
      List (Attempt A)
  | 0, _, _, _ => []
  | n + 1, some c, dials, calls =>
    { found := some c, call := some (c, calls.head) } ::
      if unreached calls.head then failover addresses n none dials calls.tail else []
  | n + 1, none, dials, calls =>
    match choose dials.head.1 addresses, dials.head.2 with
    | none, _ => { found := none } :: failover addresses n none dials calls
    | some a, .error f =>
      { found := none, dial := some (a, .error f) } ::
        if f.isUnavailable then failover addresses n none dials.tail calls else []
    | some a, .ok c =>
      { found := none, dial := some (a, .ok c), call := some (c, calls.head) } ::
        if unreached calls.head then failover addresses n none dials.tail calls.tail else []

section Turns

variable {addresses : List Address} {id : CallId} {n : Nat} {t : Turn Q A}
  {dials : Stream' (Nat × Except Fault Conn)} {calls : Stream' (Except Fault A)}

theorem alone_of_reply {r : Except Fault A} (h : t.ending = some (.reply r)) :
    alone addresses id (n + 1) dials calls t = some ⟨t.orders, t.link, r⟩ := by
  rw [alone, h]

theorem alone_of_dialing {e : Errand Q} (h : t.ending = none)
    (hj : t.link.jobs.get? id = some (.dialing e)) :
    alone addresses id (n + 1) dials calls t =
      (alone addresses id n dials.tail calls
        (t.link.dialed (choose dials.tail.head.1 addresses) id dials.head.2)).map
          fun s => { s with orders := t.orders ++ s.orders } := by
  rw [alone, h, hj]

theorem alone_of_calling {e : Errand Q} {c : Conn} (h : t.ending = none)
    (hj : t.link.jobs.get? id = some (.calling e c)) :
    alone addresses id (n + 1) dials calls t =
      (alone addresses id n dials calls.tail
        (t.link.answered (choose dials.head.1 addresses) id calls.head)).map
          fun s => { s with orders := t.orders ++ s.orders } := by
  rw [alone, h, hj]

theorem alone_after (orders : List (Order Q)) :
    alone addresses id n dials calls (t.after orders) =
      (alone addresses id n dials calls t).map
        fun s => { s with orders := orders ++ s.orders } := by
  cases n with
  | zero => rfl
  | succ n =>
    simp only [alone, Turn.after]
    split <;> simp [Function.comp_def]

end Turns

section Free

variable {pick : Option Address} {id : CallId} {q : Q} {l : Link Q} {last : Option Fault} {n : Nat}
  {c : Conn}

theorem pursue_free_cached (hl : l.lock = {}) (hc : l.cached = some c) :
    pursue (A := A) pick id q l last (n + 1) =
      { link := l.put id (.calling ⟨q, n, last⟩ c), orders := [.call id c q] } := by
  obtain ⟨m, cached, lock, jobs⟩ := l
  subst hl hc
  rfl

theorem pursue_free_known {a : Address} (hl : l.lock = {}) (hc : l.cached = none) :
    pursue (A := A) (some a) id q l last (n + 1) =
      { link := { l with lock := { owner := some id } }.put id (.dialing ⟨q, n, last⟩)
        orders := [.dial id a] } := by
  obtain ⟨m, cached, lock, jobs⟩ := l
  subst hl hc
  rfl

theorem pursue_free_unknown (hl : l.lock = {}) (hc : l.cached = none) :
    pursue (A := A) none id q l last (n + 1) = pursue none id q l (some noAddress) n := by
  obtain ⟨m, cached, lock, jobs⟩ := l
  subst hl hc
  rfl

theorem answered_of_reached {e : Errand Q} {r : Except Fault A}
    (hj : l.jobs.get? id = some (.calling e c)) (hr : unreached r = false) :
    l.answered pick id r = l.finish id r := by
  cases r with
  | ok a => rw [answered, hj]
  | error f =>
    rw [unreached] at hr
    simp only [answered, hj, hr, Bool.false_eq_true, if_false]

theorem answered_of_unreached {e : Errand Q} {f : Fault} (hl : l.lock = {})
    (hc : l.cached = some c) (hj : l.jobs.get? id = some (.calling e c)) (hf : f.isUnavailable) :
    answered (A := A) pick l id (.error f) =
      (pursue pick id e.request { l with cached := none } (some f) e.left).after [.close c] := by
  obtain ⟨m, cached, lock, jobs⟩ := l
  subst hl hc
  simp [answered, hj, hf, retire, Lock.request, unlock, Lock.release, handover, proceed]

theorem dialed_free_ok {e : Errand Q} (hl : l.lock = { owner := some id })
    (hj : l.jobs.get? id = some (.dialing e)) :
    dialed (A := A) pick l id (.ok c) =
      { link := { l with lock := {}, cached := some c }.put id (.calling e c)
        orders := [.call id c e.request] } := by
  obtain ⟨m, cached, lock, jobs⟩ := l
  subst hl
  simp [dialed, hj, unlock, handover, Lock.release]

theorem dialed_free_error {e : Errand Q} {f : Fault} (hl : l.lock = { owner := some id })
    (hj : l.jobs.get? id = some (.dialing e)) :
    dialed (A := A) pick l id (.error f) =
      if f.isUnavailable then pursue pick id e.request { l with lock := {} } (some f) e.left
      else finish { l with lock := {} } id (.error f) := by
  obtain ⟨m, cached, lock, jobs⟩ := l
  subst hl
  simp [dialed, hj, unlock, handover, Lock.release, Turn.after, proceed]

end Free

theorem jobs_forget {l : Link Q} {id : CallId} (h : l.jobs.erase id = ∅) :
    l.forget id = { l with jobs := ∅ } := by
  rw [Link.forget, h]

section Course

variable {addresses : List Address} {id : CallId} {q : Q} {n : Nat}

/-- What remains to be proved of a course once the next call is made: the link makes the attempts in
order and asks for nothing else. -/
def Follows (A : Type) (addresses : List Address) (id : CallId) (q : Q) (n : Nat) : Prop :=
  ∀ (l : Link Q) (last : Option Fault) (dials : Stream' (Nat × Except Fault Conn))
    (calls : Stream' (Except Fault A)) (fuel : Nat),
    l.lock = {} → l.jobs.erase id = ∅ → 2 * n < fuel →
    alone addresses id fuel dials calls (pursue (choose dials.head.1 addresses) id q l last n) =
      some {
        orders := (failover addresses n l.cached dials calls).flatMap (Attempt.orders id q)
        link := { l with
          cached := (failover addresses n l.cached dials calls).foldl (fun _ a => a.kept) l.cached
          jobs := ∅ }
        result := (failover addresses n l.cached dials calls).foldl (fun _ a => a.result)
          (.error (last.getD noAttempt)) }

theorem Follows.call (h : Follows A addresses id q n) {l : Link Q} {last : Option Fault} {c : Conn}
    (dials : Stream' (Nat × Except Fault Conn)) (calls : Stream' (Except Fault A)) {fuel : Nat}
    (hl : l.lock = {}) (hc : l.cached = some c)
    (hj : l.jobs.get? id = some (.calling ⟨q, n, last⟩ c)) (he : l.jobs.erase id = ∅)
    (hf : 2 * n < fuel + 1) :
    alone addresses id (fuel + 2) dials calls { link := l, orders := [.call id c q] } =
      let rest := if unreached calls.head then failover addresses n none dials calls.tail else []
      some {
        orders := .call id c q ::
          ((if unreached calls.head then [.close c] else []) ++ rest.flatMap (Attempt.orders id q))
        link := { l with
          cached := rest.foldl (fun _ a => a.kept) (if unreached calls.head then none else some c)
          jobs := ∅ }
        result := rest.foldl (fun _ a => a.result) calls.head } := by
  rw [alone_of_calling rfl hj]
  cases hu : unreached calls.head with
  | false =>
    rw [answered_of_reached hj hu, alone_of_reply rfl]
    simp [finish, jobs_forget he, hc]
  | true =>
    cases hr : (calls.head : Except Fault A) with
    | ok a =>
      rw [hr] at hu
      exact absurd hu (by simp [unreached])
    | error f =>
      rw [hr] at hu
      have hrest := h { l with cached := none } (some f) dials calls.tail (fuel + 1) hl he hf
      rw [answered_of_unreached hl hc hj hu, alone_after]
      simp only [hrest]
      simp

theorem Follows.dial (h : Follows A addresses id q n) {l : Link Q} {last : Option Fault} {a : Address}
    (dials : Stream' (Nat × Except Fault Conn)) (calls : Stream' (Except Fault A)) {fuel : Nat}
    (hl : l.lock = { owner := some id }) (hc : l.cached = none)
    (hj : l.jobs.get? id = some (.dialing ⟨q, n, last⟩)) (he : l.jobs.erase id = ∅)
    (ha : choose dials.head.1 addresses = some a) (hf : 2 * n < fuel + 1) :
    alone addresses id (fuel + 3) dials calls { link := l, orders := [.dial id a] } =
      some {
        orders := (failover addresses (n + 1) none dials calls).flatMap (Attempt.orders id q)
        link := { l with
          cached := (failover addresses (n + 1) none dials calls).foldl (fun _ a => a.kept) none
          lock := {}
          jobs := ∅ }
        result := (failover addresses (n + 1) none dials calls).foldl (fun _ a => a.result)
          (.error (last.getD noAttempt)) } := by
  rw [alone_of_dialing rfl hj]
  cases hd : (dials.head.2 : Except Fault Conn) with
  | ok c =>
    -- the dial cached its connection, and the rest is a call on a cached one
    let m : Link Q := { l with lock := {}, cached := some c }.put id (.calling ⟨q, n, last⟩ c)
    have hself : m.jobs.get? id = some (.calling ⟨q, n, last⟩ c) := by
      simp [m]
    have herase : m.jobs.erase id = ∅ := by
      simp only [m, Link.put, Table.erase_put, he]
    rw [dialed_free_ok hl hj, h.call dials.tail calls rfl rfl hself herase hf]
    cases hu : unreached calls.head <;> simp [failover, ha, hd, hu, m, Link.put]
  | error f =>
    rw [dialed_free_error hl hj]
    cases hu : f.isUnavailable with
    | false =>
      rw [if_neg (by simp), alone_of_reply rfl]
      simp [failover, ha, hd, hu, finish, Link.forget, he, hc]
    | true =>
      have hrest := h { l with lock := {} } (some f) dials.tail calls (fuel + 2) rfl he (by omega)
      simp only [if_true, hrest]
      simp [failover, ha, hd, hu, hc]

theorem follows (addresses : List Address) (id : CallId) (q : Q) (n : Nat) :
    Follows A addresses id q n := by
  induction n with
  | zero =>
    intro l last dials calls fuel hl hj hf
    obtain ⟨fuel, rfl⟩ := Nat.exists_eq_add_one.2 hf
    rw [alone_of_reply rfl]
    simp [finish, failover, pursue, jobs_forget hj]
  | succ n ih =>
    intro l last dials calls fuel hl hj hf
    -- an attempt takes a dial and a call, so two turns of the fuel
    obtain ⟨fuel, rfl⟩ : ∃ m, fuel = m + 3 := ⟨fuel - 3, by omega⟩
    have hput (m : Link Q) (j : Job Q) : (m.put id j).jobs.get? id = some j := by
      simp
    have herase (m : Link Q) (j : Job Q) (hm : m.jobs = l.jobs) :
        (m.put id j).jobs.erase id = ∅ := by
      rw [Link.put, Table.erase_put, hm, hj]
    cases hc : l.cached with
    | some c =>
      rw [pursue_free_cached hl hc,
        ih.call dials calls (l := l.put id (.calling ⟨q, n, last⟩ c)) hl hc (hput _ _)
          (herase _ _ rfl) (by omega)]
      cases hu : unreached calls.head <;> simp [failover, hu, Link.put]
    | none =>
      cases ha : choose dials.head.1 addresses with
      | none =>
        have hrest := ih l (some noAddress) dials calls (fuel + 3) hl hj (by omega)
        rw [ha, hc] at hrest
        rw [pursue_free_unknown hl hc, hrest]
        simp [failover, ha]
      | some a =>
        let m : Link Q := { l with lock := { owner := some id } }
        rw [pursue_free_known hl hc,
          ih.dial dials calls (l := m.put id (.dialing ⟨q, n, last⟩)) rfl hc (hput _ _)
            (herase _ _ rfl) ha (by omega)]
        simp [m, Link.put, hl]

end Course

/-- The attempts of a call that may make `n`, of which all but `last` failed and led to another. -/
structure FailsOver (addresses : List Address) (n : Nat) (cached : Option Conn)
    (dials : Stream' (Nat × Except Fault Conn)) (calls : Stream' (Except Fault A))
    (failed : List (Attempt A)) (last : Attempt A) : Prop where
  bounded : failed.length + 1 ≤ n
  unreached : ∀ a ∈ failed, unreached a.result
  exhausted : Link.unreached last.result → failed.length + 1 = n
  /-- An attempt finds what the one before it left. -/
  found : (failed ++ [last]).map Attempt.found = cached :: failed.map Attempt.kept
  regular : ∀ a ∈ failed ++ [last], a.Regular addresses
  dialed : (failed ++ [last]).filterMap (fun a => a.dial.map Prod.snd) <+:
    (dials.map Prod.snd).take n
  called : (failed ++ [last]).filterMap (fun a => a.call.map Prod.snd) <+: calls.take n

inductive Taken {α : Type} : Option α → Stream' α → Stream' α → Prop where
  | nothing (s : Stream' α) : Taken none s s
  | head (s : Stream' α) : Taken (some s.head) s s.tail

theorem Taken.isPrefix {α : Type} {o : Option α} {s s' : Stream' α} {n : Nat} {l : List α}
    (h : Taken o s s') (hl : l <+: s'.take n) : o.toList ++ l <+: s.take (n + 1) := by
  cases h with
  | nothing => exact hl.trans (Stream'.take_prefix_take_left n (n + 1) s (Nat.le_succ n))
  | head => simpa [Stream'.take_succ] using hl

section FailsOver

variable {addresses : List Address} {n : Nat} {cached : Option Conn}
  {dials dials' : Stream' (Nat × Except Fault Conn)} {calls calls' : Stream' (Except Fault A)}
  {a : Attempt A}

theorem Attempt.kept_of_unreached (h : Link.unreached a.result) : a.kept = none := by
  simp [Attempt.kept, h]

theorem FailsOver.single (ha : a.Regular addresses) (hf : a.found = cached)
    (he : Link.unreached a.result → n = 0)
    (hd : Taken (a.dial.map Prod.snd) (dials.map Prod.snd) (dials'.map Prod.snd))
    (hc : Taken (a.call.map Prod.snd) calls calls') :
    FailsOver addresses (n + 1) cached dials calls [] a where
  bounded := Nat.succ_le_succ (Nat.zero_le n)
  unreached := by simp
  exhausted h := by rw [he h]; rfl
  found := by simp [hf]
  regular := by simpa using ha
  dialed := by
    have h := hd.isPrefix (List.nil_prefix (l := (dials'.map Prod.snd).take n))
    simpa [List.filterMap_eq_flatMap_toList] using h
  called := by
    have h := hc.isPrefix (List.nil_prefix (l := calls'.take n))
    simpa [List.filterMap_eq_flatMap_toList] using h

theorem FailsOver.cons {failed : List (Attempt A)} {last : Attempt A} (ha : a.Regular addresses)
    (hf : a.found = cached) (hu : Link.unreached a.result)
    (hd : Taken (a.dial.map Prod.snd) (dials.map Prod.snd) (dials'.map Prod.snd))
    (hc : Taken (a.call.map Prod.snd) calls calls')
    (h : FailsOver addresses n none dials' calls' failed last) :
    FailsOver addresses (n + 1) cached dials calls (a :: failed) last where
  bounded := Nat.succ_le_succ h.bounded
  unreached := by simpa [hu] using h.unreached
  exhausted hl := congrArg Nat.succ (h.exhausted hl)
  found := by
    rw [List.cons_append, List.map_cons, hf, h.found, List.map_cons, Attempt.kept_of_unreached hu]
  regular := by
    have hr := h.regular
    simp only [List.cons_append, List.forall_mem_cons]
    exact ⟨ha, hr⟩
  dialed := by
    have hp := hd.isPrefix h.dialed
    simpa [List.filterMap_eq_flatMap_toList] using hp
  called := by
    have hp := hc.isPrefix h.called
    simpa [List.filterMap_eq_flatMap_toList] using hp

end FailsOver

section Regular

variable {addresses : List Address} {a : Address} {c : Conn} {r : Except Fault A}

theorem Attempt.regular_reusing : (⟨some c, none, some (c, r)⟩ : Attempt A).Regular addresses where
  dials := by simp
  known := by simp
  calls := rfl

theorem Attempt.regular_unknown : (⟨none, none, none⟩ : Attempt A).Regular [] where
  dials := by simp
  known := by simp
  calls := rfl

theorem Attempt.regular_refused {f : Fault} (ha : a ∈ addresses) :
    (⟨none, some (a, .error f), none⟩ : Attempt A).Regular addresses where
  dials := by simpa using List.ne_nil_of_mem ha
  known := by simpa using ha
  calls := rfl

theorem Attempt.regular_dialing (ha : a ∈ addresses) :
    (⟨none, some (a, .ok c), some (c, r)⟩ : Attempt A).Regular addresses where
  dials := by simpa using List.ne_nil_of_mem ha
  known := by simpa using ha
  calls := rfl

end Regular

theorem failover_succ (addresses : List Address) (n : Nat) (cached : Option Conn)
    (dials : Stream' (Nat × Except Fault Conn)) (calls : Stream' (Except Fault A)) :
    ∃ (a : Attempt A) (dials' : Stream' (Nat × Except Fault Conn)) (calls' : Stream' (Except Fault A)),
      failover addresses (n + 1) cached dials calls =
        a :: (if unreached a.result then failover addresses n none dials' calls' else []) ∧
      a.Regular addresses ∧ a.found = cached ∧
      Taken (a.dial.map Prod.snd) (dials.map Prod.snd) (dials'.map Prod.snd) ∧
      Taken (a.call.map Prod.snd) calls calls' := by
  cases cached with
  | some c =>
    exact ⟨⟨some c, none, some (c, calls.head)⟩, dials, calls.tail, rfl, Attempt.regular_reusing, rfl,
      .nothing _, .head _⟩
  | none =>
    cases ha : choose dials.head.1 addresses with
    | none =>
      obtain rfl := (choose_eq_none_iff _ _).1 ha
      refine ⟨⟨none, none, none⟩, dials, calls, ?_, Attempt.regular_unknown, rfl, .nothing _,
        .nothing _⟩
      rw [failover, ha]
      rfl
    | some a =>
      have hm := mem_of_choose ha
      have htail : Taken (some dials.head.2) (dials.map Prod.snd) (dials.tail.map Prod.snd) :=
        .head (dials.map Prod.snd)
      cases hd : dials.head.2 with
      | error f =>
        refine ⟨⟨none, some (a, .error f), none⟩, dials.tail, calls, ?_, Attempt.regular_refused hm,
          rfl, hd ▸ htail, .nothing _⟩
        rw [failover, ha, hd]
        rfl
      | ok c =>
        refine ⟨⟨none, some (a, .ok c), some (c, calls.head)⟩, dials.tail, calls.tail, ?_,
          Attempt.regular_dialing hm, rfl, hd ▸ htail, .head _⟩
        rw [failover, ha, hd]
        rfl

theorem failover_failsOver (addresses : List Address) (n : Nat) :
    ∀ (cached : Option Conn) (dials : Stream' (Nat × Except Fault Conn))
      (calls : Stream' (Except Fault A)),
      ∃ failed last, failover addresses (n + 1) cached dials calls = failed ++ [last] ∧
        FailsOver addresses (n + 1) cached dials calls failed last := by
  induction n with
  | zero =>
    intro cached dials calls
    obtain ⟨a, dials', calls', heq, hr, hf, hd, hc⟩ := failover_succ addresses 0 cached dials calls
    exact ⟨[], a, by simp [heq, failover], .single hr hf (fun _ => rfl) hd hc⟩
  | succ n ih =>
    intro cached dials calls
    obtain ⟨a, dials', calls', heq, hr, hf, hd, hc⟩ :=
      failover_succ addresses (n + 1) cached dials calls
    cases hu : unreached a.result with
    | false => exact ⟨[], a, by simp [heq, hu], .single hr hf (by simp [hu]) hd hc⟩
    | true =>
      obtain ⟨failed, last, hs, h⟩ := ih none dials' calls'
      exact ⟨a :: failed, last, by simp [heq, hu, hs], h.cons hr hf hu hd hc⟩

/-- However the brokers behave, a call that has the link for itself comes to an end: it makes at
least one attempt and no more than it may, every attempt but the last fails as unreachable, and the
link is left as it was but for the connection that the last attempt kept. -/
theorem submit_alone (addresses : List Address) (n : Nat) (cached : Option Conn) (id : CallId) (q : Q)
    (dials : Stream' (Nat × Except Fault Conn)) (calls : Stream' (Except Fault A)) :
    ∃ failed last, FailsOver addresses (max n 1) cached dials calls failed last ∧
      alone addresses id (2 * max n 1 + 1) dials calls
          (submit (choose dials.head.1 addresses) { (start n : Link Q) with cached } id q) =
        some {
          orders := (failed ++ [last]).flatMap (Attempt.orders id q)
          link := { (start n : Link Q) with cached := last.kept }
          result := last.result } := by
  obtain ⟨m, hm⟩ : ∃ m, max n 1 = m + 1 := ⟨max n 1 - 1, by omega⟩
  obtain ⟨failed, last, hs, h⟩ := failover_failsOver addresses m cached dials calls
  refine ⟨failed, last, hm ▸ h, ?_⟩
  have hrun := follows addresses id q (m + 1) { (start n : Link Q) with cached } none dials calls
    (2 * (m + 1) + 1) rfl rfl (by omega)
  -- no attempts at all are raised to one when the link starts
  have hleft : ({ (start n : Link Q) with cached } : Link Q).attempts = m + 1 := hm
  rw [submit, proceed, hleft, hm, hrun, hs]
  simp only [List.foldl_append, List.foldl_cons, List.foldl_nil]
  rfl

end StreamClient.Link
