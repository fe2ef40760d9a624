import StreamClient.Proofs.Link.Turns

/-! Which address a turn of the link dials and for which request, and that only an answer answers a
call. -/

namespace StreamClient.Link

variable {Q A : Type}

def Job.request? : Job Q → Option Q
  | .seeking e | .dialing e | .calling e _ | .retiring e _ => some e.request
  | .shutting => none

def Wants (l : Link Q) (id : CallId) (q : Q) : Prop :=
  ∀ j, l.jobs.get? id = some j → j.request? = some q

theorem wants_of_none {l : Link Q} {id : CallId} (h : l.jobs.get? id = none) (q : Q) :
    l.Wants id q := fun j hj => by
  rw [h] at hj
  cases hj

theorem wants_put {l : Link Q} {id : CallId} {j : Job Q} {q : Q} (h : j.request? = some q) :
    (l.put id j).Wants id q := fun j' hj => by
  obtain rfl : j = j' := by simpa using hj
  exact h

theorem Wants.request {l : Link Q} {id : CallId} {j : Job Q} {q q' : Q} (h : l.Wants id q)
    (hj : l.jobs.get? id = some j) (hq : j.request? = some q') : q' = q :=
  Option.some.inj (hq.symm.trans (h j hj))

def Silent (orders : List (Order Q)) : Prop :=
  ∀ o ∈ orders, (∀ k a, o ≠ .dial k a) ∧ ∀ k c q, o ≠ .call k c q

theorem silent_nil : Silent ([] : List (Order Q)) := fun o ho => by cases ho

theorem silent_handover (l : Link Q) : Silent l.handover := by
  intro o ho
  obtain ⟨n, -, rfl⟩ := List.mem_map.1 ho
  simp

theorem Silent.append {a b : List (Order Q)} (ha : Silent a) (hb : Silent b) : Silent (a ++ b) :=
  fun o ho => (List.mem_append.1 ho).elim (ha o) (hb o)

theorem silent_close (c : Conn) : Silent ([.close c] : List (Order Q)) := by
  intro o ho
  obtain rfl := List.mem_singleton.1 ho
  simp

theorem Silent.dial_notMem {orders : List (Order Q)} (h : Silent orders) (k : CallId) (a : Address) :
    .dial k a ∉ orders := fun ho => (h _ ho).1 k a rfl

theorem Silent.call_notMem {orders : List (Order Q)} (h : Silent orders) (k : CallId) (c : Conn)
    (q : Q) : .call k c q ∉ orders := fun ho => (h _ ho).2 k c q rfl

/-- The answer that `id` waits for after a turn on `l` is to a request that it made then or before. -/
def Asks (l : Link Q) (id : CallId) (t : Turn Q A) : Prop :=
  ∀ e c, t.link.jobs.get? id = some (.calling e c) →
    l.jobs.get? id = some (.calling e c) ∨ .call id c e.request ∈ t.orders

/-- A turn of `id` for `q` that dials the picked address if any, and then goes on; it brings no
answer. -/
structure Seeks (pick : Option Address) (l : Link Q) (id : CallId) (q : Q) (t : Turn Q A) :
    Prop where
  wants : t.link.Wants id q
  asks : Asks l id t
  calls : ∀ k c q', .call k c q' ∈ t.orders → k = id ∧ q' = q
  dials : ∀ k a, .dial k a ∈ t.orders → k = id ∧ pick = some a ∧ t.ending = none
  ending : ∀ e, t.ending = some e → ∃ f, e = .reply (.error f)

section Seeks

variable {pick : Option Address} {id : CallId} {q : Q} {l : Link Q}

theorem asks_put {j : Job Q} {orders : List (Order Q)} {ending : Option (Ending A)} {l' : Link Q}
    (h : ∀ e c, j = .calling e c → .call id c e.request ∈ orders) :
    Asks l id { link := l'.put id j, orders, ending } := by
  intro e c hj
  obtain rfl : j = .calling e c := by simpa using hj
  exact .inr (h e c rfl)

theorem asks_of_none {t : Turn Q A} (h : t.link.jobs.get? id = none) : Asks l id t := by
  intro e c hj
  cases h.symm.trans hj

theorem asks_of_same {t : Turn Q A} (h : t.link.jobs.get? id = l.jobs.get? id) : Asks l id t :=
  fun _ _ hj => .inl (h ▸ hj)

theorem Asks.after {t : Turn Q A} {orders : List (Order Q)} {l' : Link Q} (h : Asks l' id t)
    (hl : l'.jobs.get? id = l.jobs.get? id) : Asks l id (t.after orders) := fun e c hj =>
  (h e c hj).imp (fun hj' => hl ▸ hj') (List.mem_append_right _)

theorem Seeks.after {t : Turn Q A} {orders : List (Order Q)} {l' : Link Q}
    (h : Seeks pick l' id q t) (ho : Silent orders) (hl : l'.jobs.get? id = l.jobs.get? id) :
    Seeks pick l id q (t.after orders) where
  wants := h.wants
  asks := h.asks.after hl
  calls k c q' hc := h.calls k c q' ((List.mem_append.1 hc).resolve_left (ho.call_notMem k c q'))
  dials k a hd := h.dials k a ((List.mem_append.1 hd).resolve_left (ho.dial_notMem k a))
  ending := h.ending

theorem Seeks.unshut {t : Turn Q A} (h : Seeks pick l id q t) : t.ending ≠ some .shut := by
  intro he
  obtain ⟨f, hf⟩ := h.ending _ he
  cases hf

theorem Seeks.unanswered {t : Turn Q A} (h : Seeks pick l id q t) (a : A) :
    t.ending ≠ some (.reply (.ok a)) := by
  intro he
  obtain ⟨f, hf⟩ := h.ending _ he
  cases hf

theorem seeks_waiting {t : Turn Q A} (hq : t.link.Wants id q) (ha : Asks l id t)
    (ho : Silent t.orders) (he : t.ending = none) : Seeks pick l id q t :=
  ⟨hq, ha, fun k c q' hc => absurd hc (ho.call_notMem k c q'),
    fun k a hd => absurd hd (ho.dial_notMem k a), by simp [he]⟩

theorem seeks_calling (l l' : Link Q) {e : Errand Q} (c : Conn) {orders : List (Order Q)}
    (ho : Silent orders) : Seeks (A := A) pick l id e.request
      { link := l'.put id (.calling e c), orders := orders ++ [.call id c e.request] } where
  wants := wants_put rfl
  asks := asks_put fun e' c' heq => by
    obtain ⟨rfl, rfl⟩ := Job.calling.inj heq
    simp
  calls k c' q' hc := by
    have hlast := (List.mem_append.1 hc).resolve_left (ho.call_notMem k c' q')
    obtain ⟨rfl, -, rfl⟩ := Order.call.inj (List.mem_singleton.1 hlast)
    exact ⟨rfl, rfl⟩
  dials k a hd := by
    have hlast := (List.mem_append.1 hd).resolve_left (ho.dial_notMem k a)
    cases List.mem_singleton.1 hlast
  ending e he := by cases he

theorem seeks_finish (l l' : Link Q) (f : Fault) :
    Seeks (A := A) pick l id q (l'.finish id (.error f)) where
  wants := wants_of_none (by simp [finish]) q
  asks := asks_of_none (by simp [finish])
  calls k c q' hc := by cases hc
  dials k a hd := by cases hd
  ending e he := ⟨f, (Option.some.inj he).symm⟩

theorem pursue_seeks (pick : Option Address) (id : CallId) (q : Q) (n : Nat) :
    ∀ (l : Link Q) (last : Option Fault),
      Seeks (A := A) pick l id q (l.pursue pick id q last n) := by
  induction n with
  | zero => exact fun l last => seeks_finish l l _
  | succ n ih =>
    intro l last
    cases hg : (l.lock.request id).2 with
    | false =>
      rw [pursue_of_denied hg]
      exact seeks_waiting (wants_put rfl) (asks_put (by simp)) silent_nil rfl
    | true =>
      cases hc : l.cached with
      | some c =>
        rw [pursue_of_cached hg hc]
        exact seeks_calling (e := ⟨q, n, last⟩) l _ c (silent_handover _)
      | none =>
        cases pick with
        | some a =>
          rw [pursue_of_known hg hc]
          exact ⟨wants_put rfl, asks_put (by simp), by simp, by simp, by simp⟩
        | none =>
          rw [pursue_of_unknown hg hc]
          exact (ih _ _).after (silent_handover _) rfl

theorem proceed_seeks (pick : Option Address) (l : Link Q) (id : CallId) {e : Errand Q}
    (he : e.request = q) : Seeks (A := A) pick l id q (l.proceed pick id e) :=
  he ▸ pursue_seeks pick id e.request e.left l e.last

theorem retire_seeks (pick : Option Address) (l : Link Q) (id : CallId) {e : Errand Q} (c : Conn)
    (he : e.request = q) : Seeks (A := A) pick l id q (l.retire pick id e c) := by
  simp only [retire]
  split
  · split
    · exact (proceed_seeks pick _ id he).after ((silent_handover _).append (silent_close c)) rfl
    · exact (proceed_seeks pick _ id he).after (silent_handover _) rfl
  · exact seeks_waiting (wants_put (congrArg some he)) (asks_put (by simp)) silent_nil rfl

theorem submit_seeks (pick : Option Address) (l : Link Q) (id : CallId) (q : Q) :
    Seeks (A := A) pick l id q (l.submit pick id q) :=
  proceed_seeks pick l id rfl

theorem resume_seeks (pick : Option Address) (h : l.Wants id q) :
    Seeks (A := A) pick l id q (l.resume pick id) := by
  rw [resume]
  split
  · split
    · next e hj => exact proceed_seeks pick l id (h.request hj rfl)
    · next e c hj => exact retire_seeks pick l id c (h.request hj rfl)
    · next hj => cases h _ hj
    · exact seeks_waiting h (asks_of_same rfl) silent_nil rfl
  · exact seeks_waiting h (asks_of_same rfl) silent_nil rfl

theorem dialed_seeks (pick : Option Address) (h : l.Wants id q) (r : Except Fault Conn) :
    Seeks (A := A) pick l id q (l.dialed pick id r) := by
  rw [dialed]
  split
  · next e hj =>
    obtain rfl : e.request = q := h.request hj rfl
    cases r with
    | ok c => exact seeks_calling l _ c (silent_handover l)
    | error f =>
      dsimp only
      split
      · have hnext : Seeks pick l.unlock id e.request
            (l.unlock.proceed pick id { e with last := some f } : Turn Q A) :=
          proceed_seeks pick l.unlock id rfl
        exact hnext.after (silent_handover l) rfl
      · exact (seeks_finish l l.unlock f).after (silent_handover l) rfl
  · exact seeks_waiting h (asks_of_same rfl) silent_nil rfl

theorem answered_error_seeks (pick : Option Address) (h : l.Wants id q) (f : Fault) :
    Seeks (A := A) pick l id q (l.answered pick id (.error f)) := by
  rw [answered]
  split
  · next e c hj =>
    obtain rfl : e.request = q := h.request hj rfl
    dsimp only
    split
    · exact retire_seeks pick l id c rfl
    · exact seeks_finish l l f
  · exact seeks_waiting h (asks_of_same rfl) silent_nil rfl

theorem answered_unshut (pick : Option Address) (h : l.Wants id q) (r : Except Fault A) :
    (l.answered pick id r).ending ≠ some .shut := by
  cases r with
  | error f => exact (answered_error_seeks pick h f).unshut
  | ok a =>
    simp only [answered]
    split <;> simp [finish]

theorem answered_ok {e : Errand Q} {c : Conn} (pick : Option Address)
    (h : l.jobs.get? id = some (.calling e c)) (a : A) :
    l.answered pick id (.ok a) = { link := l.forget id, ending := some (.reply (.ok a)) } := by
  simp [answered, h, finish]

theorem answered_idle (pick : Option Address) (h : ∀ e c, l.jobs.get? id ≠ some (.calling e c))
    (r : Except Fault A) : l.answered pick id r = { link := l } := by
  rw [answered]
  split
  · next e c hj => exact absurd hj (h e c)
  · rfl

theorem ok_of_answered {r : Except Fault A} {a : A}
    (h : (l.answered pick id r).ending = some (.reply (.ok a))) : r = .ok a := by
  by_cases hj : ∃ e c, l.jobs.get? id = some (.calling e c)
  · obtain ⟨e, c, hj⟩ := hj
    cases r with
    | ok a' =>
      rw [answered_ok pick hj] at h
      cases h
      rfl
    | error f =>
      have hwants : l.Wants id e.request := fun j hj' => by
        obtain rfl := Option.some.inj (hj.symm.trans hj')
        rfl
      exact absurd h ((answered_error_seeks pick hwants f).unanswered a)
  · rw [answered_idle pick fun e c hj' => hj ⟨e, c, hj'⟩] at h
    cases h

theorem shut_silent (l : Link Q) (id : CallId) :
    Asks l id (l.shut id : Turn Q A) ∧ Silent (l.shut id : Turn Q A).orders := by
  simp only [shut]
  split
  · refine ⟨asks_of_none (by simp), (silent_handover _).append fun o ho => ?_⟩
    obtain ⟨c, -, rfl⟩ := List.mem_map.1 ho
    simp
  · exact ⟨asks_put (by simp), silent_nil⟩

theorem resume_shutting_silent (pick : Option Address) (h : l.jobs.get? id = some .shutting) :
    Asks l id (l.resume pick id : Turn Q A) ∧ Silent (l.resume pick id : Turn Q A).orders := by
  simp only [resume, h]
  split
  · exact shut_silent l id
  · exact ⟨asks_of_same rfl, silent_nil⟩

theorem abandon_forgets (l : Link Q) (id : CallId) :
    (l.abandon id : Turn Q A).link.jobs.get? id = none := by
  rw [abandon]
  split
  · next h => exact h
  all_goals simp

theorem abandon_orders {l : Link Q} {id : CallId} {o : Order Q}
    (h : o ∈ (l.abandon id : Turn Q A).orders) : (∃ k, o = .withdraw k) ∨ ∃ k, o = .wake k := by
  have hwake (h : o ∈ l.handover) : ∃ k, o = .wake k := by
    obtain ⟨k, -, rfl⟩ := List.mem_map.1 h
    exact ⟨k, rfl⟩
  rw [abandon] at h
  split at h
  · cases h
  · exact .inl ⟨id, List.mem_singleton.1 h⟩
  · rcases List.mem_cons.1 h with rfl | h
    · exact .inl ⟨id, rfl⟩
    · exact .inr (hwake h)
  · dsimp only at h
    split at h
    · exact .inr (hwake h)
    · cases h

end Seeks

end StreamClient.Link
