import StreamClient.Proofs.Link.Dialing
import StreamClient.Proofs.Link.Events

/-! How the attempts of a call add up while an address to dial is known: each attempt that is over
left the fault that ended it, and the call fails with the latest of these. -/

namespace StreamClient.Link

variable {Q A : Type}

def Job.turns : Job Q → Nat
  | seeking e | retiring e _ => e.left
  | dialing e | calling e _ => e.left + 1
  | shutting => 0

/-- The job makes `total` attempts. Those that are over ended with `faults`, the latest in front. -/
structure Job.Bears (total : Nat) (faults : List Fault) (j : Job Q) : Prop where
  balance : j.turns + faults.length = total
  last : ∃ e, j.errand? = some e ∧ e.last = faults.head?

inductive Fares (id : CallId) (total : Nat) (faults : List Fault) (t : Turn Q A) : Prop
  | goes (j : Job Q) : t.ending = none → t.link.jobs.get? id = some j → j.Bears total faults →
    Fares id total faults t
  | succeeds (a : A) : t.ending = some (.reply (.ok a)) → t.link.jobs.get? id = none →
    Fares id total faults t
  /-- Unless a broker refused, there is no attempt left. -/
  | fails (f : Fault) : faults.head? = some f → (f.isUnavailable = true → faults.length = total) →
    t.ending = some (.reply (.error f)) → t.link.jobs.get? id = none → Fares id total faults t

section Fares

variable {id : CallId} {total : Nat} {faults : List Fault} {l : Link Q} {j : Job Q} {e : Errand Q}

theorem Fares.after {t : Turn Q A} (h : Fares id total faults t) (orders : List (Order Q)) :
    Fares id total faults (t.after orders) := by
  cases h with
  | goes j hr hj hb => exact .goes j hr hj hb
  | succeeds a he hj => exact .succeeds a he hj
  | fails f hf hall he hj => exact .fails f hf hall he hj

theorem fares_put {orders : List (Order Q)} (h : j.Bears total faults) :
    Fares (A := A) id total faults { link := l.put id j, orders } :=
  .goes j rfl (by simp) h

theorem fares_still (hj : l.jobs.get? id = some j) (h : j.Bears total faults) :
    Fares (A := A) id total faults { link := l } :=
  .goes j rfl hj h

theorem pursue_fares (a : Address) (q : Q) {n : Nat} (h : n + faults.length = total)
    (hpos : 0 < total) :
    Fares (A := A) id total faults (l.pursue (some a) id q faults.head? n) := by
  cases n with
  | zero =>
    cases faults with
    | nil => simp at h; omega
    | cons f earlier =>
      exact .fails f rfl (fun _ => by simpa using h) rfl (by simp [pursue, finish])
  | succ n =>
    cases hg : (l.lock.request id).2 with
    | false =>
      rw [pursue_of_denied hg]
      exact fares_put ⟨h, _, rfl, rfl⟩
    | true =>
      cases hc : l.cached with
      | some c =>
        rw [pursue_of_cached hg hc]
        exact fares_put ⟨h, _, rfl, rfl⟩
      | none =>
        rw [pursue_of_known hg hc]
        exact fares_put ⟨h, _, rfl, rfl⟩

theorem proceed_fares (a : Address) (h : e.left + faults.length = total) (hpos : 0 < total)
    (hlast : e.last = faults.head?) :
    Fares (A := A) id total faults (l.proceed (some a) id e) := by
  rw [proceed, hlast]
  exact pursue_fares a e.request h hpos

theorem retire_fares (a : Address) (c : Conn) (h : e.left + faults.length = total)
    (hpos : 0 < total) (hlast : e.last = faults.head?) :
    Fares (A := A) id total faults (l.retire (some a) id e c) := by
  simp only [retire]
  split
  · split
    · exact (proceed_fares a h hpos hlast).after _
    · exact (proceed_fares a h hpos hlast).after _
  · exact fares_put ⟨h, e, rfl, hlast⟩

theorem submit_fares (a : Address) (q : Q) (hpos : 0 < l.attempts) :
    Fares (A := A) id l.attempts [] (l.submit (some a) id q) :=
  proceed_fares (e := { request := q, left := l.attempts }) a (Nat.add_zero _) hpos rfl

theorem resume_fares (a : Address) (hj : l.jobs.get? id = some j) (h : j.Bears total faults)
    (hpos : 0 < total) : Fares (A := A) id total faults (l.resume (some a) id) := by
  obtain ⟨e, he, hlast⟩ := h.last
  rw [resume]
  split
  · split
    · next e' hj' =>
      obtain rfl := Option.some.inj (hj.symm.trans hj')
      obtain rfl := Option.some.inj he
      exact proceed_fares a h.balance hpos hlast
    · next e' c hj' =>
      obtain rfl := Option.some.inj (hj.symm.trans hj')
      obtain rfl := Option.some.inj he
      exact retire_fares a c h.balance hpos hlast
    · next hj' =>
      obtain rfl := Option.some.inj (hj.symm.trans hj')
      cases he
    · exact fares_still hj h
  · exact fares_still hj h

theorem dialed_fares (a : Address) (hj : l.jobs.get? id = some (.dialing e))
    (h : (Job.dialing e).Bears total faults) (r : Except Fault Conn) :
    Fares (A := A) id total (match r with | .ok _ => faults | .error f => f :: faults)
      (l.dialed (some a) id r) := by
  have hbalance : e.left + 1 + faults.length = total := h.balance
  cases r with
  | ok c =>
    simp only [dialed, hj]
    exact fares_put ⟨hbalance, h.last⟩
  | error f =>
    simp only [dialed, hj]
    split
    · refine (proceed_fares a ?_ (by omega) rfl).after _
      simp only [List.length_cons]
      omega
    · next hf =>
      refine Fares.after (.fails f rfl (fun hf' => absurd hf' hf) rfl ?_) _
      simp [finish]

theorem answered_fares (a : Address) {c : Conn} (hj : l.jobs.get? id = some (.calling e c))
    (h : (Job.calling e c).Bears total faults) (r : Except Fault A) :
    Fares id total (match r with | .ok _ => faults | .error f => f :: faults)
      (l.answered (some a) id r) := by
  have hbalance : e.left + 1 + faults.length = total := h.balance
  cases r with
  | ok reply =>
    rw [answered_ok _ hj]
    exact .succeeds reply rfl (by simp)
  | error f =>
    simp only [answered, hj]
    split
    · refine retire_fares a c ?_ (by omega) rfl
      simp only [List.length_cons]
      omega
    · next hf => exact .fails f rfl (fun hf' => absurd hf' hf) rfl (by simp [finish])

end Fares

end StreamClient.Link
