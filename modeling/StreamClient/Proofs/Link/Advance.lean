import StreamClient.Proofs.Link.Turns

/-! What a call asks for in one turn on the link, and what it may still ask for after that. -/

namespace StreamClient.Link

variable {Q A : Type}

def asks (orders : List (Order Q)) : List (Order Q) :=
  orders.filter fun
    | .dial .. | .call .. => true
    | _ => false

@[simp] theorem asks_nil : asks ([] : List (Order Q)) = [] := rfl

@[simp] theorem asks_append (a b : List (Order Q)) : asks (a ++ b) = asks a ++ asks b :=
  List.filter_append ..

@[simp] theorem asks_handover (l : Link Q) : asks l.handover = [] := by
  simp [asks, handover, List.filter_eq_nil_iff]

@[simp] theorem asks_map_close (conns : List Conn) :
    asks (conns.map Order.close : List (Order Q)) = [] := by
  simp [asks, List.filter_eq_nil_iff]

structure Errand.Serves (q : Q) (e : Errand Q) : Prop where
  request : e.request = q
  last : ∀ f ∈ e.last, f.isUnavailable = true

/-- Where a turn leaves the call `id` for `q`, which may make so many dials and calls from the turn
on. It asks for one thing at most. It is told either `told` or that no broker can be reached. -/
inductive Advances (id : CallId) (q : Q) (dials calls : Nat) (told : Option (Except Fault A))
    (t : Turn Q A) : Prop where
  | waiting (e : Errand Q) (errand : e.Serves q) (room : e.left ≤ dials ∧ e.left ≤ calls)
      (running : t.ending = none)
      (job : t.link.jobs.get? id = some (.seeking e) ∨
        ∃ c, t.link.jobs.get? id = some (.retiring e c))
      (asked : asks t.orders = [])
  | dialing (e : Errand Q) (a : Address) (errand : e.Serves q)
      (room : e.left + 1 ≤ dials ∧ e.left + 1 ≤ calls) (running : t.ending = none)
      (job : t.link.jobs.get? id = some (.dialing e)) (asked : asks t.orders = [.dial id a])
  | calling (e : Errand Q) (c : Conn) (errand : e.Serves q)
      (room : e.left ≤ dials ∧ e.left + 1 ≤ calls) (running : t.ending = none)
      (job : t.link.jobs.get? id = some (.calling e c)) (asked : asks t.orders = [.call id c q])
  | returns (r : Except Fault A)
      (result : told = some r ∨ ∃ f, r = .error f ∧ f.isUnavailable = true)
      (ended : t.ending = some (.reply r)) (job : t.link.jobs.get? id = none)
      (asked : asks t.orders = [])

namespace Advances

variable {id : CallId} {q : Q} {dials calls dials' calls' : Nat} {told : Option (Except Fault A)}
  {t : Turn Q A}

theorem after {orders : List (Order Q)} (h : Advances id q dials calls told t)
    (ho : asks orders = []) : Advances id q dials calls told (t.after orders) := by
  have hasks : asks (t.after orders).orders = asks t.orders := by simp [Turn.after, ho]
  cases h with
  | waiting e he hroom hr hj ha => exact .waiting e he hroom hr hj (hasks.trans ha)
  | dialing e a he hroom hr hj ha => exact .dialing e a he hroom hr hj (hasks.trans ha)
  | calling e c he hroom hr hj ha => exact .calling e c he hroom hr hj (hasks.trans ha)
  | returns r hresult hend hj ha => exact .returns r hresult hend hj (hasks.trans ha)

theorem mono (h : Advances id q dials calls none t) (hd : dials ≤ dials') (hc : calls ≤ calls') :
    Advances id q dials' calls' told t := by
  cases h with
  | waiting e he hroom hr hj ha =>
    exact .waiting e he ⟨Nat.le_trans hroom.1 hd, Nat.le_trans hroom.2 hc⟩ hr hj ha
  | dialing e a he hroom hr hj ha =>
    exact .dialing e a he ⟨Nat.le_trans hroom.1 hd, Nat.le_trans hroom.2 hc⟩ hr hj ha
  | calling e c he hroom hr hj ha =>
    exact .calling e c he ⟨Nat.le_trans hroom.1 hd, Nat.le_trans hroom.2 hc⟩ hr hj ha
  | returns r hresult hend hj ha =>
    exact .returns r (.inr (hresult.resolve_left (by simp))) hend hj ha

end Advances

theorem pursue_advances (pick : Option Address) (id : CallId) (q : Q) (n : Nat) :
    ∀ {l : Link Q} {last : Option Fault}, (∀ f ∈ last, f.isUnavailable = true) →
      Advances (A := A) id q n n none (l.pursue pick id q last n) := by
  -- on the attempts left, as in the definition
  induction n with
  | zero =>
    intro l last hlast
    refine .returns _ (.inr ⟨_, rfl, ?_⟩) rfl (by simp [pursue, finish]) rfl
    cases last with
    | none => rfl
    | some f => exact hlast f rfl
  | succ n ih =>
    intro l last hlast
    cases hg : (l.lock.request id).2 with
    | false =>
      rw [pursue_of_denied hg]
      exact .waiting ⟨q, n + 1, last⟩ ⟨rfl, hlast⟩ ⟨Nat.le_refl _, Nat.le_refl _⟩ rfl
        (.inl (by simp)) rfl
    | true =>
      cases hc : l.cached with
      | some c =>
        rw [pursue_of_cached hg hc]
        refine .calling ⟨q, n, last⟩ c ⟨rfl, hlast⟩ ⟨Nat.le_succ n, Nat.le_refl _⟩ rfl (by simp) ?_
        rw [asks_append, asks_handover]
        rfl
      | none =>
        cases pick with
        | some a =>
          rw [pursue_of_known hg hc]
          exact .dialing ⟨q, n, last⟩ a ⟨rfl, hlast⟩ ⟨Nat.le_refl _, Nat.le_refl _⟩ rfl
            (by simp) rfl
        | none =>
          rw [pursue_of_unknown hg hc]
          have hlast' : ∀ f ∈ some noAddress, f.isUnavailable = true := by
            simp [noAddress, Fault.unavailable, Fault.isUnavailable]
          have hrest := ih (l := ({ l with lock := (l.lock.request id).1 } : Link Q).unlock) hlast'
          exact (hrest.mono (Nat.le_succ n) (Nat.le_succ n)).after (asks_handover _)

section Events

variable {id : CallId} {q : Q} {l : Link Q} {e : Errand Q} {c : Conn}

theorem proceed_advances (pick : Option Address) (l : Link Q) (id : CallId) (he : e.Serves q) :
    Advances (A := A) id q e.left e.left none (l.proceed pick id e) := by
  rw [proceed, he.request]
  exact pursue_advances pick id q e.left he.last

theorem retire_advances (pick : Option Address) (l : Link Q) (id : CallId) (c : Conn)
    (he : e.Serves q) : Advances (A := A) id q e.left e.left none (l.retire pick id e c) := by
  cases hg : (l.lock.request id).2 with
  | false =>
    simp only [retire, hg, Bool.false_eq_true, if_false]
    exact .waiting e he ⟨Nat.le_refl _, Nat.le_refl _⟩ rfl (.inr ⟨c, by simp⟩) rfl
  | true =>
    by_cases hc : l.cached = some c
    · simp only [retire, hg, if_true, hc]
      refine (proceed_advances pick _ id he).after ?_
      rw [asks_append, asks_handover]
      rfl
    · simp only [retire, hg, if_true, hc, if_false]
      exact (proceed_advances pick _ id he).after (asks_handover _)

theorem submit_advances (pick : Option Address) (l : Link Q) (id : CallId) (q : Q) :
    Advances (A := A) id q l.attempts l.attempts none (l.submit pick id q) :=
  proceed_advances (e := { request := q, left := l.attempts }) pick l id ⟨rfl, by simp⟩

theorem dialed_advances (pick : Option Address) (r : Except Fault Conn)
    (hj : l.jobs.get? id = some (.dialing e)) (he : e.Serves q) :
    Advances (A := A) id q e.left (e.left + 1)
      (match r with | .ok _ => none | .error f => some (.error f)) (l.dialed pick id r) := by
  cases r with
  | ok c =>
    simp only [dialed, hj]
    refine .calling e c he ⟨Nat.le_refl _, Nat.le_refl _⟩ rfl (by simp) ?_
    rw [asks_append, asks_handover, he.request]
    rfl
  | error f =>
    cases hf : f.isUnavailable with
    | true =>
      simp only [dialed, hj, hf, if_true]
      have hnext : Errand.Serves q { e with last := some f } := ⟨he.request, by simpa using hf⟩
      refine Advances.after ?_ (asks_handover _)
      exact (proceed_advances pick _ id hnext).mono (Nat.le_refl _) (Nat.le_succ _)
    | false =>
      simp only [dialed, hj, hf, Bool.false_eq_true, if_false]
      refine Advances.after (.returns (.error f) (.inl rfl) rfl ?_ rfl) (asks_handover _)
      simp [finish]

theorem answered_advances (pick : Option Address) (r : Except Fault A)
    (hj : l.jobs.get? id = some (.calling e c)) (he : e.Serves q) :
    Advances id q e.left e.left (some r) (l.answered pick id r) := by
  have hfinish (r : Except Fault A) : Advances id q e.left e.left (some r) (l.finish id r) :=
    .returns r (.inl rfl) rfl (by simp [finish]) rfl
  cases r with
  | ok a =>
    simp only [answered, hj]
    exact hfinish (.ok a)
  | error f =>
    cases hf : f.isUnavailable with
    | true =>
      simp only [answered, hj, hf, if_true]
      have hnext : Errand.Serves q { e with last := some f } := ⟨he.request, by simpa using hf⟩
      exact (retire_advances pick l id c hnext).mono (Nat.le_refl _) (Nat.le_refl _)
    | false =>
      simp only [answered, hj, hf, Bool.false_eq_true, if_false]
      exact hfinish (.error f)

theorem resume_advances (pick : Option Address)
    (hj : l.jobs.get? id = some (.seeking e) ∨ ∃ c, l.jobs.get? id = some (.retiring e c))
    (he : e.Serves q) : Advances (A := A) id q e.left e.left none (l.resume pick id) := by
  by_cases ho : l.lock.owner = some id
  · rcases hj with hj | ⟨c, hj⟩
    · simp only [resume, ho, if_true, hj]
      exact proceed_advances pick l id he
    · simp only [resume, ho, if_true, hj]
      exact retire_advances pick l id c he
  · simp only [resume, ho, if_false]
    exact .waiting e he ⟨Nat.le_refl _, Nat.le_refl _⟩ rfl hj rfl

theorem resume_idle (pick : Option Address) (hseeks : ∀ e, l.jobs.get? id ≠ some (.seeking e))
    (hretires : ∀ e c, l.jobs.get? id ≠ some (.retiring e c))
    (hshuts : l.jobs.get? id ≠ some .shutting) :
    (l.resume pick id : Turn Q A) = { link := l } := by
  rw [resume]
  split
  · split
    · next e hj => exact absurd hj (hseeks e)
    · next e c hj => exact absurd hj (hretires e c)
    · next hj => exact absurd hj hshuts
    · rfl
  · rfl

end Events

section NotShut

variable {id : CallId}

theorem pursue_not_shut (pick : Option Address) (id : CallId) (q : Q) (n : Nat) :
    ∀ (l : Link Q) (last : Option Fault),
      (l.pursue pick id q last n : Turn Q A).ending ≠ some .shut := by
  induction n with
  | zero => simp [pursue, finish]
  | succ n ih =>
    intro l last
    cases hg : (l.lock.request id).2 with
    | false => simp [pursue_of_denied hg]
    | true =>
      cases hc : l.cached with
      | some c => simp [pursue_of_cached hg hc]
      | none =>
        cases pick with
        | some a => simp [pursue_of_known hg hc]
        | none =>
          rw [pursue_of_unknown hg hc]
          exact ih _ _

theorem retire_not_shut (pick : Option Address) (l : Link Q) (id : CallId) (e : Errand Q)
    (c : Conn) :
    (l.retire pick id e c : Turn Q A).ending ≠ some .shut := by
  unfold retire
  dsimp only
  split
  · split
    · exact pursue_not_shut pick id _ _ _ _
    · exact pursue_not_shut pick id _ _ _ _
  · simp

theorem dialed_not_shut (pick : Option Address) (l : Link Q) (id : CallId) (r : Except Fault Conn) :
    (l.dialed pick id r : Turn Q A).ending ≠ some .shut := by
  unfold dialed
  split
  · cases r with
    | ok c => simp
    | error f =>
      dsimp only
      split
      · exact pursue_not_shut pick id _ _ _ _
      · simp [Turn.after, finish]
  · simp

theorem answered_not_shut (pick : Option Address) (l : Link Q) (id : CallId) (r : Except Fault A) :
    (l.answered pick id r).ending ≠ some .shut := by
  unfold answered
  split
  · cases r with
    | ok a => simp [finish]
    | error f =>
      dsimp only
      split
      · exact retire_not_shut pick l id _ _
      · simp [finish]
  · simp

theorem resume_not_shut (pick : Option Address) {l : Link Q}
    (h : l.jobs.get? id ≠ some .shutting) :
    (l.resume pick id : Turn Q A).ending ≠ some .shut := by
  unfold resume
  split
  · split
    · exact pursue_not_shut pick id _ _ _ _
    · exact retire_not_shut pick l id _ _
    · next hj => exact absurd hj h
    · simp
  · simp

end NotShut

section Others

variable {id k : CallId} {l : Link Q}

theorem pursue_others (pick : Option Address) (hk : k ≠ id) (q : Q) (n : Nat) :
    ∀ (l : Link Q) (last : Option Fault),
      (l.pursue pick id q last n : Turn Q A).link.jobs.get? k = l.jobs.get? k := by
  induction n with
  | zero => simp [pursue, finish, hk]
  | succ n ih =>
    intro l last
    cases hg : (l.lock.request id).2 with
    | false => simp [pursue_of_denied hg, hk]
    | true =>
      cases hc : l.cached with
      | some c => simp [pursue_of_cached hg hc, unlock, hk]
      | none =>
        cases pick with
        | some a => simp [pursue_of_known hg hc, hk]
        | none =>
          rw [pursue_of_unknown hg hc]
          exact ih _ _

theorem retire_others (pick : Option Address) (hk : k ≠ id) (e : Errand Q) (c : Conn) :
    (l.retire pick id e c : Turn Q A).link.jobs.get? k = l.jobs.get? k := by
  unfold retire
  dsimp only
  split
  · split
    · exact pursue_others pick hk _ _ _ _
    · exact pursue_others pick hk _ _ _ _
  · simp [hk]

theorem shut_others (hk : k ≠ id) :
    (l.shut id : Turn Q A).link.jobs.get? k = l.jobs.get? k := by
  unfold shut
  dsimp only
  split <;> simp [unlock, hk]

theorem resume_others (pick : Option Address) (hk : k ≠ id) :
    (l.resume pick id : Turn Q A).link.jobs.get? k = l.jobs.get? k := by
  unfold resume
  split
  · split
    · exact pursue_others pick hk _ _ _ _
    · exact retire_others pick hk _ _
    · exact shut_others hk
    · rfl
  · rfl

theorem dialed_others (pick : Option Address) (hk : k ≠ id) (r : Except Fault Conn) :
    (l.dialed pick id r : Turn Q A).link.jobs.get? k = l.jobs.get? k := by
  unfold dialed
  split
  · cases r with
    | ok c => simp [unlock, hk]
    | error f =>
      dsimp only
      split
      · exact pursue_others pick hk _ _ _ _
      · simp [Turn.after, finish, unlock, hk]
  · rfl

theorem answered_others (pick : Option Address) (hk : k ≠ id) (r : Except Fault A) :
    (l.answered pick id r).link.jobs.get? k = l.jobs.get? k := by
  unfold answered
  split
  · cases r with
    | ok a => simp [finish, hk]
    | error f =>
      dsimp only
      split
      · exact retire_others pick hk _ _
      · simp [finish, hk]
  · rfl

theorem abandon_others (hk : k ≠ id) :
    (l.abandon id : Turn Q A).link.jobs.get? k = l.jobs.get? k := by
  unfold abandon
  split <;> simp [unlock, hk]

end Others

end StreamClient.Link
