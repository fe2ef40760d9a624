import Mathlib.Data.List.Basic
import StreamClient.Link

/-! What one turn of the link does to the cached connection, to the jobs and to the lock. -/

namespace StreamClient

namespace Lock

theorem owner_of_granted {l : Lock} {id k : Nat} (hg : (l.request id).2 = true)
    (hk : l.owner = some k) : k = id := by
  have h := (request_owner l id).1 hg
  rw [request, hk] at h
  by_cases hki : k = id
  · exact hki
  · simp only [hki, if_false] at h
    exact absurd (Option.some.inj h) hki

theorem request_of_denied {l : Lock} {id : Nat} (hg : (l.request id).2 = false) :
    (l.request id).1.owner = l.owner := by
  rcases l with ⟨_ | o, q⟩
  · simp [request] at hg
  · by_cases ho : o = id <;> simp [request, ho] at hg ⊢

end Lock

namespace Link

variable {Q A : Type}

def unreached : Except Fault A → Bool
  | .ok _ => false
  | .error f => f.isUnavailable

def closed (orders : List (Order Q)) : List Conn :=
  orders.filterMap fun
    | .close c => some c
    | _ => none

@[simp] theorem closed_nil : closed ([] : List (Order Q)) = [] := rfl

@[simp] theorem closed_append (a b : List (Order Q)) : closed (a ++ b) = closed a ++ closed b :=
  List.filterMap_append ..

@[simp] theorem closed_handover (l : Link Q) : closed l.handover = [] := by
  simp [closed, handover, List.filterMap_map]

theorem call_notMem_handover (l : Link Q) (k : CallId) (c : Conn) (q : Q) :
    .call k c q ∉ l.handover := by
  simp [handover]

@[simp] theorem job_put (l : Link Q) (id k : CallId) (j : Job Q) :
    (l.put id j).jobs.get? k = if k = id then some j else l.jobs.get? k :=
  l.jobs.get?_put id k j

@[simp] theorem job_forget (l : Link Q) (id k : CallId) :
    (l.forget id).jobs.get? k = if k = id then none else l.jobs.get? k :=
  l.jobs.get?_erase id k

def SoundBut (id : CallId) (l : Link Q) : Prop :=
  ∀ k e, k ≠ id → l.jobs.get? k = some (.dialing e) → l.lock.owner = some k ∧ l.cached = none

/-- Whoever dials holds the lock, and nothing is cached meanwhile. -/
def Sound (l : Link Q) : Prop :=
  ∀ k e, l.jobs.get? k = some (.dialing e) → l.lock.owner = some k ∧ l.cached = none

theorem Sound.but {l : Link Q} (h : l.Sound) (id : CallId) : l.SoundBut id :=
  fun k e _ hk => h k e hk

theorem SoundBut.dialer_eq {l : Link Q} {id k : CallId} {e : Errand Q} (h : l.SoundBut id)
    (hg : (l.lock.request id).2 = true) (hk : l.jobs.get? k = some (.dialing e)) : k = id := by
  by_contra hne
  exact hne (Lock.owner_of_granted hg (h k e hne hk).1)

theorem soundBut_of_dialer {l : Link Q} {id : CallId}
    (h : ∀ k e, l.jobs.get? k = some (.dialing e) → k = id) : l.SoundBut id :=
  fun k e hne hk => absurd (h k e hk) hne

theorem SoundBut.put {l : Link Q} {id : CallId} {j : Job Q} (h : l.SoundBut id)
    (hj : ∀ e, j = .dialing e → l.lock.owner = some id ∧ l.cached = none) : (l.put id j).Sound := by
  intro k e hk
  rw [job_put] at hk
  by_cases hki : k = id
  · subst hki
    exact hj e (by simpa using hk)
  · exact h k e hki (by simpa [hki] using hk)

theorem SoundBut.forget {l : Link Q} {id : CallId} (h : l.SoundBut id) : (l.forget id).Sound := by
  intro k e hk
  rw [job_forget] at hk
  by_cases hki : k = id
  · simp [hki] at hk
  · exact h k e hki (by simpa [hki] using hk)

/-- Where `id` stands after a turn in which it asked for a connection, `cached` being the cached one. -/
inductive Pursuing (id : CallId) (cached : Option Conn) (t : Turn Q A) : Prop where
  | waiting (e : Errand Q) (running : t.ending = none)
      (job : t.link.jobs.get? id = some (.seeking e))
  | dialing (e : Errand Q) (running : t.ending = none)
      (job : t.link.jobs.get? id = some (.dialing e))
  | calling (e : Errand Q) (c : Conn) (running : t.ending = none) (known : cached = some c)
      (job : t.link.jobs.get? id = some (.calling e c))
  | failed (f : Fault) (ended : t.ending = some (.reply (.error f)))
      (job : t.link.jobs.get? id = none)

/-- A turn in which `id` asks for a connection: nothing is closed and the cached connection stays. -/
structure Pursued (id : CallId) (l : Link Q) (t : Turn Q A) : Prop where
  cached : t.link.cached = l.cached
  closed : closed t.orders = []
  others : ∀ k, k ≠ id → t.link.jobs.get? k = l.jobs.get? k
  calls : ∀ k c q, .call k c q ∈ t.orders → l.cached = some c ∧ t.ending = none
  stage : Pursuing id l.cached t
  sound : t.link.Sound

theorem Pursued.after {id : CallId} {l l' : Link Q} {t : Turn Q A} {orders : List (Order Q)}
    (h : Pursued id l' t) (hl : l'.cached = l.cached) (hj : l'.jobs = l.jobs)
    (hc : Link.closed orders = []) (hn : ∀ k c q, .call k c q ∉ orders) :
    Pursued id l (t.after orders) where
  cached := h.cached.trans hl
  closed := by rw [Turn.after, closed_append, hc, h.closed, List.nil_append]
  others k hk := by rw [← hj]; exact h.others k hk
  calls k c q hm := by
    rw [← hl]
    exact h.calls k c q ((List.mem_append.1 hm).resolve_left (hn k c q))
  stage := by
    rw [← hl]
    cases h.stage with
    | waiting e hr hj => exact .waiting e hr hj
    | dialing e hr hj => exact .dialing e hr hj
    | calling e c hr hk hj => exact .calling e c hr hk hj
    | failed f ho hj => exact .failed f ho hj
  sound := h.sound

theorem pursued_put {id : CallId} {l m : Link Q} {j : Job Q} {orders : List (Order Q)}
    (hm : m.jobs = l.jobs) (hc : m.cached = l.cached) (ho : Link.closed orders = [])
    (hn : ∀ k c q, .call k c q ∈ orders → l.cached = some c)
    (hj : (∃ e, j = .seeking e) ∨ (∃ e, j = .dialing e) ∨ ∃ e c, j = .calling e c ∧ l.cached = some c)
    (hs : (m.put id j).Sound) : Pursued (A := A) id l { link := m.put id j, orders } where
  cached := hc
  closed := ho
  others k hk := by simp [hk, hm]
  calls k c q hk := ⟨hn k c q hk, rfl⟩
  stage := by
    have hself : (m.put id j).jobs.get? id = some j := by simp
    rcases hj with ⟨e, rfl⟩ | ⟨e, rfl⟩ | ⟨e, c, rfl, hk⟩
    · exact .waiting e rfl hself
    · exact .dialing e rfl hself
    · exact .calling e c rfl hk hself
  sound := hs

section Granted

variable {pick : Option Address} {id : CallId} {q : Q} {l : Link Q} {last : Option Fault} {n : Nat}

theorem pursue_of_denied (hg : (l.lock.request id).2 = false) :
    pursue (A := A) pick id q l last (n + 1) =
      { link := { l with lock := (l.lock.request id).1 }.put id (.seeking ⟨q, n + 1, last⟩) } := by
  simp [pursue, hg]

theorem pursue_of_cached {c : Conn} (hg : (l.lock.request id).2 = true) (hc : l.cached = some c) :
    pursue (A := A) pick id q l last (n + 1) =
      { link := ({ l with lock := (l.lock.request id).1 } : Link Q).unlock.put id
          (.calling ⟨q, n, last⟩ c)
        orders := handover { l with lock := (l.lock.request id).1 } ++ [.call id c q] } := by
  simp [pursue, hg, hc]

theorem pursue_of_known {a : Address} (hg : (l.lock.request id).2 = true) (hc : l.cached = none) :
    pursue (A := A) (some a) id q l last (n + 1) =
      { link := { l with lock := (l.lock.request id).1 }.put id (.dialing ⟨q, n, last⟩)
        orders := [.dial id a] } := by
  simp [pursue, hg, hc]

theorem pursue_of_unknown (hg : (l.lock.request id).2 = true) (hc : l.cached = none) :
    pursue (A := A) none id q l last (n + 1) =
      (pursue none id q ({ l with lock := (l.lock.request id).1 } : Link Q).unlock
        (some noAddress) n).after (handover { l with lock := (l.lock.request id).1 }) := by
  simp [pursue, hg, hc]

end Granted

theorem pursue_pursued (pick : Option Address) (id : CallId) (q : Q) (n : Nat) :
    ∀ {l : Link Q} (last : Option Fault), l.SoundBut id →
      Pursued (A := A) id l (l.pursue pick id q last n) := by
  -- on the attempts left: the next one begins at once only if no address is known
  induction n with
  | zero =>
    intro l last hs
    exact {
      cached := rfl
      closed := rfl
      others := fun k hk => by simp [pursue, finish, hk]
      calls := fun k c q hm => by simp [pursue, finish] at hm
      stage := .failed _ rfl (by simp [pursue, finish])
      sound := hs.forget }
  | succ n ih =>
    intro l last hs
    let m : Link Q := { l with lock := (l.lock.request id).1 }
    cases hg : (l.lock.request id).2 with
    | false =>
      have hm : m.SoundBut id := fun k e hne hk => by
        rw [Lock.request_of_denied hg]
        exact hs k e hne hk
      rw [pursue_of_denied hg]
      exact pursued_put rfl rfl rfl (by simp) (.inl ⟨_, rfl⟩) (hm.put (by simp))
    | true =>
      -- the lock came to `id`, so nobody else is dialing and every change of lock is harmless
      have hs' (m : Link Q) (hm : m.jobs = l.jobs) : m.SoundBut id :=
        soundBut_of_dialer fun k e hk => hs.dialer_eq hg (hm ▸ hk)
      cases hc : l.cached with
      | some c =>
        rw [pursue_of_cached hg hc]
        refine pursued_put rfl rfl ?_ ?_ (.inr (.inr ⟨_, c, rfl, hc⟩))
          ((hs' m.unlock rfl).put (by simp))
        · rw [closed_append, closed_handover]
          rfl
        · intro k c' q' hk
          have h := (List.mem_append.1 hk).resolve_left (call_notMem_handover m k c' q')
          simp only [List.mem_singleton, Order.call.injEq] at h
          rw [hc, h.2.1]
      | none =>
        cases pick with
        | some a =>
          rw [pursue_of_known hg hc]
          exact pursued_put rfl rfl rfl (by simp) (.inr (.inl ⟨_, rfl⟩))
            ((hs' m rfl).put fun _ _ => ⟨(Lock.request_owner _ _).1 hg, hc⟩)
        | none =>
          rw [pursue_of_unknown hg hc]
          exact (ih (some noAddress) (hs' m.unlock rfl)).after rfl rfl (closed_handover m)
            (call_notMem_handover m)

end Link
end StreamClient
