import StreamClient.Proofs.Link.Turns

/-! What each event of a call does to the link: which connections are gained, lost and closed. -/

namespace StreamClient.Link

variable {Q A : Type}

inductive Cause where
  | quiet
  | dialed (c : Conn)
  | failed (c : Conn)
  | shut
  | gone
  deriving DecidableEq

def Cause.gains : Cause → List Conn
  | .dialed c => [c]
  | _ => []

/-- The link goes from `l` to `l'` in an event of `id`. -/
structure Evolves (cause : Cause) (id : CallId) (l l' : Link Q) : Prop where
  others : ∀ k, k ≠ id → l'.jobs.get? k = l.jobs.get? k
  gained : ∀ c, l'.cached = some c → l.cached = some c ∨ cause = .dialed c
  dialed : ∀ c, cause = .dialed c → l'.cached = some c ∨ ∃ e, l.jobs.get? id = some (.retiring e c)
  lost : ∀ c, l.cached = some c → l'.cached = some c ∨ cause = .shut ∨ cause = .failed c ∨
    ∃ e, l.jobs.get? id = some (.retiring e c)
  calling : ∀ e c, l'.jobs.get? id = some (.calling e c) →
    l.cached = some c ∨ cause = .dialed c ∨ ∃ e', l.jobs.get? id = some (.calling e' c)
  retiring : ∀ e c, l'.jobs.get? id = some (.retiring e c) →
    cause = .failed c ∨ ∃ e', l.jobs.get? id = some (.retiring e' c)
  retired : ∀ c, cause = .failed c ∨ (cause ≠ .gone ∧ ∃ e, l.jobs.get? id = some (.retiring e c)) →
    l'.cached ≠ some c ∨ ∃ e, l'.jobs.get? id = some (.retiring e c)
  shut : cause = .shut → l'.cached = none

theorem Evolves.refl (id : CallId) (l : Link Q) : Evolves .quiet id l l where
  others _ _ := rfl
  gained _ h := .inl h
  dialed _ h := by cases h
  lost _ h := .inl h
  calling e _ h := .inr (.inr ⟨e, h⟩)
  retiring e _ h := .inr ⟨e, h⟩
  retired c h := by
    rcases h with h | ⟨-, h⟩
    · cases h
    · exact .inr h
  shut h := by cases h

theorem Evolves.trans {cause : Cause} {id : CallId} {l m n : Link Q} (h : Evolves cause id l m)
    (h' : Evolves .quiet id m n) : Evolves cause id l n := by
  -- the second turn dials nothing, so what it leaves cached was cached before it
  have hkept : ∀ c, n.cached = some c → m.cached = some c := fun c hc =>
    (h'.gained c hc).resolve_right (by simp)
  refine ⟨fun k hk => (h'.others k hk).trans (h.others k hk), fun c hc => h.gained c (hkept c hc),
    fun c hc => ?_, fun c hc => ?_, fun e c hj => ?_, fun e c hj => ?_, fun c hc => ?_, fun hs => ?_⟩
  · rcases h.dialed c hc with hm | he
    · rcases h'.lost c hm with hn | hshut | hfailed | ⟨e, he⟩
      · exact .inl hn
      · cases hshut
      · cases hfailed
      · have hl := h.retiring e c he
        simp only [hc, reduceCtorEq, false_or] at hl
        exact .inr hl
    · exact .inr he
  · rcases h.lost c hc with hm | hlost
    · rcases h'.lost c hm with hn | hshut | hfailed | ⟨e, he⟩
      · exact .inl hn
      · cases hshut
      · cases hfailed
      · exact .inr (.inr (h.retiring e c he))
    · exact .inr hlost
  · rcases h'.calling e c hj with hm | hdialed | ⟨e', he⟩
    · exact (h.gained c hm).imp_right .inl
    · cases hdialed
    · exact h.calling e' c he
  · rcases h'.retiring e c hj with hfailed | ⟨e', he⟩
    · cases hfailed
    · exact h.retiring e' c he
  · rcases h.retired c hc with hm | he
    · exact .inl fun hn => hm (hkept c hn)
    · exact h'.retired c (.inr ⟨by simp, he⟩)
  · cases hn : n.cached with
    | none => rfl
    | some c => simp [h.shut hs] at hkept; exact absurd hn (hkept c)

theorem evolves_leave {cause : Cause} {id : CallId} {l m : Link Q}
    (hothers : ∀ k, k ≠ id → m.jobs.get? k = l.jobs.get? k) (hself : m.jobs.get? id = none)
    (hc : m.cached = l.cached) (hdialed : ∀ c, cause ≠ .dialed c) (hshut : cause ≠ .shut)
    (hfailed : ∀ c, cause ≠ .failed c)
    (hretiring : cause ≠ .gone → ∀ e c, l.jobs.get? id ≠ some (.retiring e c)) :
    Evolves cause id l m where
  others := hothers
  gained c h := .inl (hc ▸ h)
  dialed c h := absurd h (hdialed c)
  lost c h := .inl (hc.trans h)
  calling e c he := absurd (hself.symm.trans he) (by simp)
  retiring e c he := absurd (hself.symm.trans he) (by simp)
  retired c h := by
    rcases h with h | ⟨hgone, e, he⟩
    · exact absurd h (hfailed c)
    · exact absurd he (hretiring hgone e c)
  shut h := absurd h hshut

/-- A turn in an event of `id`; `shutting` says whether the call closes the link. -/
structure Takes (cause : Cause) (shutting : Bool) (id : CallId) (l : Link Q) (t : Turn Q A) :
    Prop extends Evolves cause id l t.link where
  ledger : ∀ x, t.link.cached.toList.count x + (closed t.orders).count x =
    l.cached.toList.count x + cause.gains.count x
  calls : ∀ k c q, .call k c q ∈ t.orders → t.link.cached = some c ∧ t.ending = none
  sound : t.link.Sound
  running : t.ending = none →
    ∃ j, t.link.jobs.get? id = some j ∧ (j = .shutting ↔ shutting = true)
  ended : ∀ e, t.ending = some e → t.link.jobs.get? id = none

theorem cached_of_ledger {l m : Link Q} {closes : List Conn}
    (h : ∀ x, m.cached.toList.count x + closes.count x = l.cached.toList.count x) {c : Conn}
    (hm : m.cached = some c) : l.cached = some c := by
  have hc := h c
  rw [hm] at hc
  cases hl : l.cached with
  | none => simp [hl] at hc
  | some d =>
    by_cases hd : d = c
    · exact congrArg some hd
    · simp [hl, hd] at hc

theorem Takes.dropped {cause : Cause} {shutting : Bool} {id : CallId} {l : Link Q} {t : Turn Q A}
    (h : Takes cause shutting id l t) {c : Conn} (hc : l.cached = some c) :
    t.link.cached = some c ∨ c ∈ Link.closed t.orders := by
  have hledger := h.ledger c
  rw [hc, Option.toList_some, List.count_singleton_self] at hledger
  -- by the ledger, what was not closed must still be cached
  rcases Nat.eq_zero_or_pos ((Link.closed t.orders).count c) with hzero | hpos
  · left
    cases hl : t.link.cached with
    | none =>
      rw [hl, hzero] at hledger
      simp at hledger
      omega
    | some d =>
      by_cases hd : d = c
      · exact congrArg some hd
      · rw [hl, hzero] at hledger
        simp [hd] at hledger
        omega
  · exact .inr (List.count_pos_iff.1 hpos)

theorem Pursued.takes {cause : Cause} {id : CallId} {l m : Link Q} {t : Turn Q A}
    {before : List (Order Q)} (h : Pursued id m t) (hj : m.jobs = l.jobs) (hgains : cause.gains = [])
    (hledger : ∀ x, m.cached.toList.count x + (Link.closed before).count x =
      l.cached.toList.count x)
    (hcalls : ∀ k c q, .call k c q ∉ before)
    (hlost : ∀ c, l.cached = some c → m.cached = some c ∨ cause = .failed c ∨
      ∃ e, l.jobs.get? id = some (.retiring e c))
    (hretired : ∀ c, cause = .failed c ∨ (∃ e, l.jobs.get? id = some (.retiring e c)) →
      m.cached ≠ some c)
    (hshut : cause ≠ .shut) : Takes cause false id l (t.after before) where
  others k hk := by rw [← hj]; exact h.others k hk
  gained c hc := .inl (cached_of_ledger hledger (h.cached.symm.trans hc))
  dialed c hc := by simp [hc, Cause.gains] at hgains
  lost c hc := by
    rcases hlost c hc with hm | hfailed | he
    · exact .inl (h.cached.trans hm)
    · exact .inr (.inr (.inl hfailed))
    · exact .inr (.inr (.inr he))
  calling e c he := by
    cases h.stage with
    | calling e' c' _ hknown hjob =>
      -- the call goes out on the connection that was found cached
      obtain ⟨rfl, rfl⟩ : e' = e ∧ c' = c := by simpa [Turn.after, hjob] using he
      exact .inl (cached_of_ledger hledger hknown)
    | _ => simp_all [Turn.after]
  retiring e c he := by
    cases h.stage <;> simp_all [Turn.after]
  retired c hc := .inl (by
    rw [Turn.after, h.cached]
    exact hretired c (hc.imp_right And.right))
  shut hs := absurd hs hshut
  ledger x := by
    have hx := hledger x
    rw [Turn.after, closed_append, h.closed, h.cached, hgains, List.append_nil]
    simpa using hx
  calls k c q hk := by
    have hk' := h.calls k c q ((List.mem_append.1 hk).resolve_left (hcalls k c q))
    exact ⟨h.cached.trans hk'.1, hk'.2⟩
  sound := h.sound
  running hr := by
    cases h.stage with
    | waiting e _ hjob => exact ⟨_, hjob, by simp⟩
    | dialing e _ hjob => exact ⟨_, hjob, by simp⟩
    | calling e c _ _ hjob => exact ⟨_, hjob, by simp⟩
    | failed f ho _ => exact absurd (hr.symm.trans ho) (by simp)
  ended e he := by
    cases h.stage with
    | failed f _ hjob => exact hjob
    | waiting _ hr => exact absurd (hr.symm.trans he) (by simp)
    | dialing _ hr => exact absurd (hr.symm.trans he) (by simp)
    | calling _ _ hr => exact absurd (hr.symm.trans he) (by simp)

theorem takes_wait {cause : Cause} {shutting : Bool} {id : CallId} {l : Link Q} {lock : Lock}
    {j : Job Q} (hs : l.Sound) (howner : lock.owner = l.lock.owner) (hgains : cause.gains = [])
    (hj : ∀ d, (∃ e, j = .retiring e d) ↔
      cause = .failed d ∨ ∃ e, l.jobs.get? id = some (.retiring e d))
    (hcalling : ∀ e c, j ≠ .calling e c) (hdialing : ∀ e, j ≠ .dialing e)
    (hshutting : j = .shutting ↔ shutting = true) (hshut : cause ≠ .shut) :
    Takes (A := A) cause shutting id l { link := { l with lock }.put id j } := by
  have hself : (({ l with lock } : Link Q).put id j).jobs.get? id = some j := by
    simp
  -- whoever dials is the owner of the lock, and that does not change
  have hsound : ({ l with lock } : Link Q).SoundBut id := fun k e _ hk => by
    rw [howner]
    exact hs k e hk
  exact {
    others := fun k hk => by simp [hk]
    gained := fun c hc => .inl hc
    dialed := fun c hc => by simp [hc, Cause.gains] at hgains
    lost := fun c hc => .inl hc
    calling := fun e c he => absurd (Option.some.inj (hself.symm.trans he)) (hcalling e c)
    retiring := fun e c he => (hj c).1 ⟨e, Option.some.inj (hself.symm.trans he)⟩
    retired := fun c hc => by
      obtain ⟨e, rfl⟩ := (hj c).2 (hc.imp_right And.right)
      exact .inr ⟨e, hself⟩
    shut := fun h => absurd h hshut
    ledger := fun x => by simp [hgains, Link.put]
    calls := fun k c q hk => by simp at hk
    sound := hsound.put fun e he => absurd he (hdialing e)
    running := fun _ => ⟨j, hself, hshutting⟩
    ended := fun e he => by simp at he }

theorem takes_finish {id : CallId} {l m : Link Q} {r : Except Fault A} {before : List (Order Q)}
    (hs : m.SoundBut id) (hj : m.jobs = l.jobs) (hc : m.cached = l.cached)
    (hclosed : closed before = []) (hcalls : ∀ k c q, .call k c q ∉ before)
    (hr : ∀ e c, l.jobs.get? id ≠ some (.retiring e c)) :
    Takes .quiet false id l ((m.finish id r).after before) := by
  have hself : (m.forget id).jobs.get? id = none := by simp
  have hleave : Evolves .quiet id l (m.forget id) :=
    evolves_leave (fun k hk => by simp [hk, hj]) hself hc (by simp) (by simp) (by simp) fun _ => hr
  exact { hleave with
    ledger := fun x => by
      simp [finish, Turn.after, Link.forget, hc, hclosed, Cause.gains]
    calls := fun k c q hk => by
      simp only [Turn.after, finish, List.append_nil] at hk
      exact absurd hk (hcalls k c q)
    sound := hs.forget
    running := fun h => by simp [finish, Turn.after] at h
    ended := fun _ _ => hself }

theorem proceed_takes (pick : Option Address) {id : CallId} {l m : Link Q} {e : Errand Q}
    {before : List (Order Q)} (hs : m.SoundBut id) (hj : m.jobs = l.jobs) (hc : m.cached = l.cached)
    (hclosed : closed before = []) (hcalls : ∀ k c q, .call k c q ∉ before)
    (hr : ∀ e c, l.jobs.get? id ≠ some (.retiring e c)) :
    Takes (A := A) .quiet false id l ((m.proceed pick id e).after before) := by
  refine (pursue_pursued pick id e.request e.left e.last hs).takes hj rfl ?_ hcalls ?_ ?_ (by simp)
  · intro x
    rw [hc, hclosed]
    rfl
  · exact fun c h => .inl (hc.trans h)
  · rintro c (h | ⟨e', he⟩)
    · cases h
    · exact absurd he (hr e' c)

theorem submit_takes (pick : Option Address) {id : CallId} {l : Link Q} (q : Q) (hs : l.Sound)
    (hj : l.jobs.get? id = none) : Takes (A := A) .quiet false id l (l.submit pick id q) := by
  show Takes .quiet false id l ((l.proceed pick id { request := q, left := l.attempts }).after [])
  exact proceed_takes pick (hs.but id) rfl rfl rfl (by simp) (by simp [hj])

/-- Whoever was granted the lock is the only one that may dial, whatever becomes of the lock. -/
theorem soundBut_of_granted {id : CallId} {l m : Link Q} (hs : l.SoundBut id)
    (hg : (l.lock.request id).2 = true) (hj : m.jobs = l.jobs) : m.SoundBut id :=
  soundBut_of_dialer fun _ _ hk => hs.dialer_eq hg (hj ▸ hk)

theorem retire_takes (pick : Option Address) {cause : Cause} {id : CallId} {l : Link Q} {c : Conn}
    (e : Errand Q) (hs : l.Sound) (hgains : cause.gains = []) (hshut : cause ≠ .shut)
    (hc : ∀ d, d = c ↔ cause = .failed d ∨ ∃ e, l.jobs.get? id = some (.retiring e d)) :
    Takes (A := A) cause false id l (l.retire pick id e c) := by
  let m : Link Q := { l with lock := (l.lock.request id).1 }
  cases hg : (l.lock.request id).2 with
  | false =>
    have hdenied : l.retire (A := A) pick id e c = { link := m.put id (.retiring e c) } := by
      simp [retire, hg, m]
    rw [hdenied]
    refine takes_wait hs (Lock.request_of_denied hg) hgains (fun d => ?_) (by simp) (by simp)
      (by simp) hshut
    rw [← hc d]
    simp [eq_comm]
  | true =>
    have hretired {d : Conn} (hd : cause = .failed d ∨ ∃ e, l.jobs.get? id = some (.retiring e d)) :
        d = c := (hc d).2 hd
    -- a connection that another call has replaced meanwhile is not closed again
    by_cases hcached : l.cached = some c
    · have hgranted : l.retire (A := A) pick id e c =
          (({ m.unlock with cached := none } : Link Q).proceed pick id e).after
            (m.handover ++ [Order.close c]) := by
        simp [retire, hg, hcached, m]
      have hbut : ({ m.unlock with cached := none } : Link Q).SoundBut id :=
        soundBut_of_granted (hs.but id) hg rfl
      rw [hgranted]
      refine (pursue_pursued pick id e.request e.left e.last hbut).takes rfl hgains ?_ ?_ ?_
        (by simp) hshut
      · intro x
        rw [closed_append, closed_handover, hcached]
        simp [Link.closed]
      · simp [handover]
      · intro d hd
        obtain rfl : c = d := by simpa [hcached] using hd
        exact .inr ((hc c).1 rfl)
    · have hgranted : l.retire (A := A) pick id e c =
          (m.unlock.proceed pick id e).after m.handover := by
        simp [retire, hg, hcached, m]
      have hbut : m.unlock.SoundBut id := soundBut_of_granted (hs.but id) hg rfl
      rw [hgranted]
      refine (pursue_pursued pick id e.request e.left e.last hbut).takes rfl hgains ?_
        (call_notMem_handover m) ?_ ?_ hshut
      · intro x
        rw [closed_handover]
        rfl
      · exact fun d hd => .inl hd
      · intro d hd
        rw [hretired hd]
        exact hcached

theorem shut_takes {id : CallId} {l : Link Q} (hs : l.Sound)
    (hr : ∀ e c, l.jobs.get? id ≠ some (.retiring e c)) :
    (l.shut id : Turn Q A).ending = none ∧ Takes .quiet true id l (l.shut id : Turn Q A) ∨
      (l.shut id : Turn Q A).ending = some .shut ∧ Takes .shut true id l (l.shut id : Turn Q A) := by
  let m : Link Q := { l with lock := (l.lock.request id).1 }
  cases hg : (l.lock.request id).2 with
  | false =>
    have hdenied : (l.shut id : Turn Q A) = { link := m.put id .shutting } := by simp [shut, hg, m]
    rw [hdenied]
    refine .inl ⟨rfl, takes_wait hs (Lock.request_of_denied hg) rfl (fun d => ?_) (by simp) (by simp)
      (by simp) (by simp)⟩
    simp [hr]
  | true =>
    -- the lock came at once: the cached connection goes, whoever it was dialed for
    let m' : Link Q := { m.unlock with cached := none }
    have hgranted : (l.shut id : Turn Q A) =
        { link := m'.forget id, orders := m.handover ++ l.cached.toList.map .close,
          ending := some .shut } := by
      simp [shut, hg, m, m']
    have hself : (m'.forget id).jobs.get? id = none := by simp
    have hcalls : ∀ k c q, Order.call k c q ∉ m.handover ++ l.cached.toList.map .close := by
      simp [handover]
    rw [hgranted]
    refine .inr ⟨rfl, ?_⟩
    exact {
      others := fun k hk => by simp [m', m, Link.unlock, hk]
      gained := fun c hc => by cases hc
      dialed := fun c hc => by cases hc
      lost := fun c _ => .inr (.inl rfl)
      calling := fun e c he => absurd (hself.symm.trans he) (by simp)
      retiring := fun e c he => absurd (hself.symm.trans he) (by simp)
      retired := fun c _ => .inl (by simp [m', Link.forget])
      shut := fun _ => rfl
      ledger := fun x => by
        rw [closed_append, closed_handover]
        cases l.cached <;> simp [m', Link.forget, Link.closed, Cause.gains]
      calls := fun k c q hk => absurd hk (hcalls k c q)
      sound := (soundBut_of_granted (hs.but id) hg rfl : m'.SoundBut id).forget
      running := fun h => by cases h
      ended := fun _ _ => hself }

theorem Sound.but_of_dialing {id : CallId} {l m : Link Q} {e : Errand Q} (hs : l.Sound)
    (hj : l.jobs.get? id = some (.dialing e)) (hm : m.jobs = l.jobs) : m.SoundBut id :=
  soundBut_of_dialer fun k e' hk => by
    have hk' := (hs k e' (hm ▸ hk)).1
    rw [(hs id e hj).1] at hk'
    exact (Option.some.inj hk').symm

theorem dialed_takes_ok (pick : Option Address) {id : CallId} {l : Link Q} {e : Errand Q} (c : Conn)
    (hs : l.Sound) (hj : l.jobs.get? id = some (.dialing e)) :
    Takes (A := A) (.dialed c) false id l (l.dialed pick id (.ok c)) := by
  let m : Link Q := { l.unlock with cached := some c }
  have hturn : (l.dialed pick id (.ok c) : Turn Q A) =
      { link := m.put id (.calling e c), orders := l.handover ++ [.call id c e.request] } := by
    simp [Link.dialed, hj, m]
  have hself : (m.put id (.calling e c)).jobs.get? id = some (.calling e c) := by
    simp
  -- nothing was cached during the dial, so no connection is overwritten
  have hcached : l.cached = none := (hs id e hj).2
  rw [hturn]
  exact {
    others := fun k hk => by simp [m, Link.unlock, hk]
    gained := fun d hd => .inr (by rw [Option.some.inj hd])
    dialed := fun d hd => .inl (by cases hd; rfl)
    lost := fun d hd => absurd (hcached.symm.trans hd) (by simp)
    calling := fun e' d he => by
      obtain ⟨-, rfl⟩ : e = e' ∧ c = d := by simpa using hself.symm.trans he
      exact .inr (.inl rfl)
    retiring := fun e' d he => absurd (hself.symm.trans he) (by simp)
    retired := fun d hd => by simp [hj] at hd
    shut := fun h => by cases h
    ledger := fun x => by
      rw [closed_append, closed_handover, hcached]
      simp [m, Link.put, Link.closed, Cause.gains]
    calls := fun k d q hk => by
      have hk' := (List.mem_append.1 hk).resolve_left (call_notMem_handover l k d q)
      simp only [List.mem_singleton, Order.call.injEq] at hk'
      exact ⟨by rw [hk'.2.1]; rfl, rfl⟩
    sound := SoundBut.put (hs.but_of_dialing hj rfl : m.SoundBut id) (by simp)
    running := fun _ => ⟨_, hself, by simp⟩
    ended := fun e' he => by cases he }

theorem dialed_takes_error (pick : Option Address) {id : CallId} {l : Link Q} {e : Errand Q}
    (f : Fault) (hs : l.Sound) (hj : l.jobs.get? id = some (.dialing e)) :
    Takes (A := A) .quiet false id l (l.dialed pick id (.error f)) := by
  have hbut : l.unlock.SoundBut id := hs.but_of_dialing hj rfl
  by_cases hf : f.isUnavailable = true
  · have hturn : (l.dialed pick id (.error f) : Turn Q A) =
        (l.unlock.proceed pick id { e with last := some f }).after l.handover := by
      simp [Link.dialed, hj, hf]
    rw [hturn]
    exact proceed_takes pick hbut rfl rfl (closed_handover l) (call_notMem_handover l) (by simp [hj])
  · have hturn : (l.dialed pick id (.error f) : Turn Q A) =
        (l.unlock.finish id (.error f)).after l.handover := by
      simp [Link.dialed, hj, hf]
    rw [hturn]
    exact takes_finish hbut rfl rfl (closed_handover l) (call_notMem_handover l) (by simp [hj])

theorem answered_takes (pick : Option Address) {id : CallId} {l : Link Q} {e : Errand Q} {c : Conn}
    (r : Except Fault A) (hs : l.Sound) (hj : l.jobs.get? id = some (.calling e c)) :
    Takes (if unreached r then .failed c else .quiet) false id l (l.answered pick id r) := by
  have hfinish (r' : Except Fault A) : Takes .quiet false id l (l.finish id r') := by
    show Takes .quiet false id l ((l.finish id r').after [])
    exact takes_finish (hs.but id) rfl rfl rfl (by simp) (by simp [hj])
  cases r with
  | ok a =>
    rw [show l.answered pick id (.ok a) = l.finish id (.ok a) by simp [answered, hj]]
    exact hfinish _
  | error f =>
    cases hf : f.isUnavailable with
    | true =>
      have hturn : (l.answered pick id (.error f) : Turn Q A) =
          l.retire pick id { e with last := some f } c := by simp [answered, hj, hf]
      rw [hturn]
      simp only [unreached, hf, if_true]
      exact retire_takes pick _ hs rfl (by simp) (by simp [hj, eq_comm])
    | false =>
      have hturn : (l.answered pick id (.error f) : Turn Q A) = l.finish id (.error f) := by
        simp [answered, hj, hf]
      rw [hturn]
      simpa [unreached, hf] using hfinish (.error f)

theorem takes_idle {shutting : Bool} {id : CallId} {l : Link Q} {j : Job Q} (hs : l.Sound)
    (hj : l.jobs.get? id = some j) (hshutting : j = .shutting ↔ shutting = true) :
    Takes (A := A) .quiet shutting id l { link := l } :=
  { Evolves.refl id l with
    ledger := fun x => by simp [Cause.gains]
    calls := fun k c q hk => by simp at hk
    sound := hs
    running := fun _ => ⟨j, hj, hshutting⟩
    ended := fun e he => by cases he }

theorem resume_takes (pick : Option Address) {id : CallId} {l : Link Q} {j : Job Q} (hs : l.Sound)
    (hj : l.jobs.get? id = some j) (hne : j ≠ .shutting) :
    Takes (A := A) .quiet false id l (l.resume pick id) := by
  by_cases ho : l.lock.owner = some id
  · cases j with
    | seeking e =>
      rw [show (l.resume pick id : Turn Q A) = (l.proceed pick id e).after [] by
        simp [resume, ho, hj, Turn.after]]
      exact proceed_takes pick (hs.but id) rfl rfl rfl (by simp) (by simp [hj])
    | retiring e c =>
      rw [show (l.resume pick id : Turn Q A) = l.retire pick id e c by simp [resume, ho, hj]]
      exact retire_takes pick e hs rfl (by simp) (by simp [hj, eq_comm])
    | shutting => exact absurd rfl hne
    | dialing e =>
      rw [show (l.resume pick id : Turn Q A) = { link := l } by simp [resume, hj]]
      exact takes_idle hs hj (by simp)
    | calling e c =>
      rw [show (l.resume pick id : Turn Q A) = { link := l } by simp [resume, hj]]
      exact takes_idle hs hj (by simp)
  · rw [show (l.resume pick id : Turn Q A) = { link := l } by simp [resume, ho]]
    exact takes_idle hs hj (by simp [hne])

theorem resume_takes_shut (pick : Option Address) {id : CallId} {l : Link Q} (hs : l.Sound)
    (hj : l.jobs.get? id = some .shutting) :
    (l.resume pick id : Turn Q A).ending = none ∧
        Takes .quiet true id l (l.resume pick id : Turn Q A) ∨
      (l.resume pick id : Turn Q A).ending = some .shut ∧
        Takes .shut true id l (l.resume pick id : Turn Q A) := by
  by_cases ho : l.lock.owner = some id
  · rw [show (l.resume pick id : Turn Q A) = l.shut id by simp [resume, ho, hj]]
    exact shut_takes hs (by simp [hj])
  · rw [show (l.resume pick id : Turn Q A) = { link := l } by simp [resume, ho]]
    exact .inl ⟨rfl, takes_idle hs hj (by simp)⟩

structure Abandons (id : CallId) (l : Link Q) (t : Turn Q A) : Prop
    extends Evolves .gone id l t.link where
  cached : t.link.cached = l.cached
  closed : closed t.orders = []
  calls : ∀ k c q, .call k c q ∉ t.orders
  sound : t.link.Sound
  ended : t.link.jobs.get? id = none

theorem abandons_forget {id : CallId} {l m : Link Q} {orders : List (Order Q)} (hs : m.SoundBut id)
    (hj : m.jobs = l.jobs) (hc : m.cached = l.cached) (hclosed : Link.closed orders = [])
    (hcalls : ∀ k c q, .call k c q ∉ orders) :
    Abandons (A := A) id l { link := m.forget id, orders } := by
  have hself : (m.forget id).jobs.get? id = none := by simp
  have hleave : Evolves .gone id l (m.forget id) :=
    evolves_leave (fun k hk => by simp [hk, hj]) hself hc (by simp) (by simp) (by simp) (by simp)
  exact { hleave with
    cached := hc
    closed := hclosed
    calls := hcalls
    sound := hs.forget
    ended := hself }

theorem abandon_abandons {id : CallId} {l : Link Q} (hs : l.Sound) :
    Abandons (A := A) id l (l.abandon id) := by
  -- whoever dials owns the lock and does not wait for it, so to withdraw from the queue is harmless
  have hwait : ({ l with lock := l.lock.withdraw id } : Link Q).SoundBut id := by
    intro k e hne hk
    obtain ⟨howner, hcached⟩ := hs k e hk
    refine ⟨?_, hcached⟩
    simp [Lock.withdraw, howner, hne]
  have hqueue {orders : List (Order Q)} (ho : orders = [] ∨ orders = l.handover) :
      Abandons (A := A) id l
        { link := ({ l with lock := l.lock.withdraw id } : Link Q).forget id, orders } := by
    rcases ho with rfl | rfl
    · exact abandons_forget hwait rfl rfl rfl (by simp)
    · exact abandons_forget hwait rfl rfl (closed_handover l) (call_notMem_handover l)
  cases hj : l.jobs.get? id with
  | none =>
    rw [show (l.abandon id : Turn Q A) = { link := l } by simp [abandon, hj]]
    have hleave : Evolves .gone id l l :=
      evolves_leave (fun _ _ => rfl) hj rfl (by simp) (by simp) (by simp) (by simp)
    exact { hleave with
      cached := rfl
      closed := rfl
      calls := by simp
      sound := hs
      ended := hj }
  | some j =>
    cases j with
    | calling e c =>
      rw [show (l.abandon id : Turn Q A) = { link := l.forget id, orders := [.withdraw id] } by
        simp [abandon, hj]]
      exact abandons_forget (hs.but id) rfl rfl rfl (by simp)
    | dialing e =>
      rw [show (l.abandon id : Turn Q A) =
          { link := l.unlock.forget id, orders := .withdraw id :: l.handover } by
        simp [abandon, hj]]
      refine abandons_forget (hs.but_of_dialing hj rfl) rfl rfl ?_ ?_
      · exact closed_handover l
      · simp [handover]
    | _ =>
      simp only [abandon, hj]
      exact hqueue (by by_cases ho : l.lock.owner = some id <;> simp [ho])

end StreamClient.Link
