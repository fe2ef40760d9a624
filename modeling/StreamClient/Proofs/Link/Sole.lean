import StreamClient.Proofs.Link.Failover
import StreamClient.Proofs.Link.Dialing

/-! A call that has the link to itself: nobody else asks for the lock, so it never waits for it. -/

namespace StreamClient.Link

variable {Q A : Type}

/-- The call `id` is alone on the link. It holds the lock while it dials, and calls on the connection
that is cached. -/
inductive Sole (id : CallId) (l : Link Q) : Prop
  | off : l.jobs.get? id = none → l.lock = {} → Sole id l
  | dialing (e : Errand Q) : l.jobs.get? id = some (.dialing e) → l.lock = { owner := some id } →
    l.cached = none → Sole id l
  | calling (e : Errand Q) (c : Conn) : l.jobs.get? id = some (.calling e c) → l.lock = {} →
    l.cached = some c → Sole id l

structure SoleTurn (id : CallId) (t : Turn Q A) : Prop where
  sole : Sole id t.link
  ended : ∀ e, t.ending = some e → t.link.jobs.get? id = none

section Sole

variable {pick : Option Address} {id : CallId} {q : Q} {l : Link Q} {e : Errand Q} {c : Conn}

theorem Sole.lock_of_off (h : Sole id l) (hj : l.jobs.get? id = none) : l.lock = {} := by
  cases h with
  | off _ hl => exact hl
  | dialing e hj' => cases hj.symm.trans hj'
  | calling e c hj' => cases hj.symm.trans hj'

theorem Sole.of_dialing (h : Sole id l) (hj : l.jobs.get? id = some (.dialing e)) :
    l.lock = { owner := some id } ∧ l.cached = none := by
  cases h with
  | off hj' => cases hj.symm.trans hj'
  | dialing _ _ hl hc => exact ⟨hl, hc⟩
  | calling _ _ hj' => cases hj.symm.trans hj'

theorem Sole.of_calling (h : Sole id l) (hj : l.jobs.get? id = some (.calling e c)) :
    l.lock = {} ∧ l.cached = some c := by
  cases h with
  | off hj' => cases hj.symm.trans hj'
  | dialing _ hj' => cases hj.symm.trans hj'
  | calling _ _ hj' hl hc =>
    obtain ⟨-, rfl⟩ := Job.calling.inj (Option.some.inj (hj.symm.trans hj'))
    exact ⟨hl, hc⟩

theorem Sole.job (h : Sole id l) {j : Job Q} (hj : l.jobs.get? id = some j) :
    (∃ e, j = .dialing e) ∨ ∃ e c, j = .calling e c := by
  cases h with
  | off hj' => cases hj.symm.trans hj'
  | dialing e hj' => exact .inl ⟨e, Option.some.inj (hj.symm.trans hj')⟩
  | calling e c hj' => exact .inr ⟨e, c, Option.some.inj (hj.symm.trans hj')⟩

theorem SoleTurn.after {t : Turn Q A} (h : SoleTurn id t) (orders : List (Order Q)) :
    SoleTurn id (t.after orders) := ⟨h.sole, h.ended⟩

theorem soleTurn_finish (hl : l.lock = {}) (r : Except Fault A) : SoleTurn id (l.finish id r) :=
  ⟨.off (by simp [finish]) hl, fun _ _ => by simp [finish]⟩

theorem soleTurn_idle (h : Sole id l) : SoleTurn (A := A) id { link := l } := ⟨h, by simp⟩

theorem pursue_sole (pick : Option Address) (id : CallId) (q : Q) (n : Nat) :
    ∀ (l : Link Q) (last : Option Fault), l.lock = {} →
      SoleTurn (A := A) id (l.pursue pick id q last n) := by
  induction n with
  | zero => exact fun l last hl => soleTurn_finish hl _
  | succ n ih =>
    intro l last hl
    cases hc : l.cached with
    | some c =>
      rw [pursue_free_cached hl hc]
      exact ⟨.calling ⟨q, n, last⟩ c (by simp) hl hc, by simp⟩
    | none =>
      cases pick with
      | some a =>
        rw [pursue_free_known hl hc]
        exact ⟨.dialing ⟨q, n, last⟩ (by simp) rfl hc, by simp⟩
      | none =>
        rw [pursue_free_unknown hl hc]
        exact ih l (some noAddress) hl

inductive GoesOn (pick : Option Address) (id : CallId) (last : Fault) (t : Turn Q A) : Prop
  | dials (a : Address) : t.orders = [.dial id a] → t.ending = none → GoesOn pick id last t
  | fails (f : Fault) : f.isUnavailable = true → (pick ≠ none → f = last) → t.orders = [] →
    t.ending = some (.reply (.error f)) → GoesOn pick id last t

theorem pursue_uncached (pick : Option Address) (id : CallId) (q : Q) (hl : l.lock = {})
    (hc : l.cached = none) (n : Nat) :
    ∀ f : Fault, f.isUnavailable = true →
      GoesOn (A := A) pick id f (l.pursue pick id q (some f) n) := by
  induction n with
  | zero => exact fun f hf => .fails f hf (fun _ => rfl) rfl rfl
  | succ n ih =>
    intro f hf
    cases pick with
    | some a =>
      rw [pursue_free_known hl hc]
      exact .dials a rfl rfl
    | none =>
      rw [pursue_free_unknown hl hc]
      cases ih noAddress rfl with
      | dials a ho hend => exact .dials a ho hend
      | fails f' hf' _ ho hend => exact .fails f' hf' (fun hne => absurd rfl hne) ho hend

theorem pursue_cached (pick : Option Address) (id : CallId) (q : Q) (hl : l.lock = {})
    (hc : l.cached = none) (n : Nat) (last : Option Fault) :
    (l.pursue pick id q last n : Turn Q A).link.cached = none := by
  induction n generalizing last with
  | zero => exact hc
  | succ n ih =>
    cases pick with
    | some a =>
      rw [pursue_free_known hl hc]
      exact hc
    | none =>
      rw [pursue_free_unknown hl hc]
      exact ih (some noAddress)

theorem Sole.dialed_cached (h : Sole id l) (hj : l.jobs.get? id = some (.dialing e))
    (pick : Option Address) (f : Fault) :
    (l.dialed pick id (.error f) : Turn Q A).link.cached = none := by
  obtain ⟨hl, hc⟩ := h.of_dialing hj
  rw [dialed_free_error hl hj]
  split
  · exact pursue_cached (l := { l with lock := {} }) pick id _ rfl hc _ _
  · exact hc

theorem Sole.answered_cached (h : Sole id l) (hj : l.jobs.get? id = some (.calling e c))
    (pick : Option Address) (r : Except Fault A) :
    (l.answered pick id r).link.cached = if unreached r then none else some c := by
  obtain ⟨hl, hc⟩ := h.of_calling hj
  cases hr : unreached r with
  | false =>
    rw [answered_of_reached hj hr]
    exact hc
  | true =>
    cases r with
    | ok a => cases hr
    | error f =>
      rw [answered_of_unreached hl hc hj hr]
      exact pursue_cached (l := { l with cached := none }) pick id _ hl rfl _ _

theorem submit_sole (pick : Option Address) (q : Q) (hl : l.lock = {}) :
    SoleTurn (A := A) id (l.submit pick id q) :=
  pursue_sole pick id q l.attempts l none hl

theorem dialed_sole (pick : Option Address) (h : Sole id l) (r : Except Fault Conn) :
    SoleTurn (A := A) id (l.dialed pick id r) := by
  cases h with
  | off hj hl =>
    rw [show (l.dialed pick id r : Turn Q A) = { link := l } by simp [dialed, hj]]
    exact soleTurn_idle (.off hj hl)
  | calling e c hj hl hc =>
    rw [show (l.dialed pick id r : Turn Q A) = { link := l } by simp [dialed, hj]]
    exact soleTurn_idle (.calling e c hj hl hc)
  | dialing e hj hl hc =>
    cases r with
    | ok c =>
      rw [dialed_free_ok hl hj]
      exact ⟨.calling e c (by simp) rfl rfl, by simp⟩
    | error f =>
      rw [dialed_free_error hl hj]
      split
      · exact pursue_sole pick id _ _ _ _ rfl
      · exact soleTurn_finish rfl _

theorem answered_sole (pick : Option Address) (h : Sole id l) (r : Except Fault A) :
    SoleTurn id (l.answered pick id r) := by
  cases h with
  | off hj hl =>
    rw [show l.answered pick id r = { link := l } by simp [answered, hj]]
    exact soleTurn_idle (.off hj hl)
  | dialing e hj hl hc =>
    rw [show l.answered pick id r = { link := l } by simp [answered, hj]]
    exact soleTurn_idle (.dialing e hj hl hc)
  | calling e c hj hl hc =>
    cases hr : unreached r with
    | false =>
      rw [answered_of_reached hj hr]
      exact soleTurn_finish hl r
    | true =>
      cases r with
      | ok a => cases hr
      | error f =>
        rw [answered_of_unreached hl hc hj hr]
        exact (pursue_sole pick id e.request e.left { l with cached := none } (some f) hl).after _

theorem Sole.resume_idle (h : Sole id l) (pick : Option Address) :
    (l.resume pick id : Turn Q A) = { link := l } := by
  cases h with
  | off hj | dialing e hj | calling e c hj => simp [resume, hj]

theorem resume_sole (pick : Option Address) (h : Sole id l) :
    SoleTurn (A := A) id (l.resume pick id) := by
  rw [h.resume_idle pick]
  exact soleTurn_idle h

end Sole

end StreamClient.Link
