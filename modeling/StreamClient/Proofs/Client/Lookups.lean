import StreamClient.Proofs.Client.Dealings.Events

/-! What a lookup comes to, and that every event of a run deals with the snapshot and with the
connections of subscriptions as it should. -/

namespace StreamClient.Client

inductive Finds (draw : Nat) (c : Client) (id : CallId) (s : Subscription) (left : Nat) (m : Move) :
    Prop
  | nowhere : c.snapshot.route s.stream s.partition s.readIsrReplica draw = none → left = 0 →
    m = c.finish id (.error (.noSuchPartition s.stream s.partition none)) →
      Finds draw c id s left m
  | later (n due : Nat) : c.snapshot.route s.stream s.partition s.readIsrReplica draw = none →
    left = n + 1 → m = (c.put id (.pausing s n due), []) → Finds draw c id s left m
  | late (a : Address) : c.snapshot.route s.stream s.partition s.readIsrReplica draw = some a →
    c.closed = true → m = c.finish id (.error .closed) → Finds draw c id s left m
  | reuses (a : Address) (conn : Conn) (p : Pool) :
    c.snapshot.route s.stream s.partition s.readIsrReplica draw = some a → c.closed = false →
      (c.pool a).take? = some (conn, p) →
        m = Client.launch { c with pools := c.pools.put a p } id s a conn →
          Finds draw c id s left m
  | dials (a : Address) : c.snapshot.route s.stream s.partition s.readIsrReplica draw = some a →
    c.closed = false → (c.pool a).take? = none →
      m = (Client.put { c with pools := c.pools.put a (c.pool a) } id (.joining s a),
        [.dial id a]) → Finds draw c id s left m

theorem lookup_finds (draw : Nat) (c : Client) (id : CallId) (s : Subscription) (left : Nat) :
    Finds draw c id s left (lookup draw c id s left) := by
  cases hroute : c.snapshot.route s.stream s.partition s.readIsrReplica draw with
  | none =>
    cases left with
    | zero => exact .nowhere hroute rfl (by simp [lookup, hroute])
    | succ n =>
      exact .later n (Span.pauseEnd c.now c.settings.lookupDelay.ceilMillis) hroute rfl
        (by simp only [lookup, hroute])
  | some a =>
    have hjoin : lookup draw c id s left = c.join id s a := by simp only [lookup, hroute]
    cases hclosed : c.closed with
    | true => exact .late a hroute hclosed (by rw [hjoin, join, if_pos hclosed])
    | false =>
      rw [join, if_neg (by simp [hclosed])] at hjoin
      cases htake : (c.pool a).take? with
      | none =>
        simp only [htake] at hjoin
        exact .dials a hroute hclosed htake hjoin
      | some taken =>
        simp only [htake] at hjoin
        exact .reuses a taken.1 taken.2 hroute hclosed htake hjoin

section Close

variable {c : Client} {id : CallId}

theorem close_eq (hclosed : c.closed = false) :
    c.close id = (closeLink (closePools { c with closed := true }).1 id (c.link.shut id)).after
      (closePools { c with closed := true }).2 := by
  rw [close, if_neg (by simp [hclosed])]
  rfl

theorem quiet_flatMap_close {α : Type} (l : List α) (f : α → List Conn) :
    Quiet (l.flatMap fun x => (f x).map .close) := by
  induction l with
  | nil => exact ⟨rfl, by simp⟩
  | cons x rest ih => exact Quiet.append ⟨dials_map_close _, by simp⟩ ih

theorem apart_close (draw : Nat) (id : CallId) (hclosed : c.closed = false) :
    Apart draw id (closePools { c with closed := true }).1 (c.close id) := by
  have hshut : Apart draw id (closePools { c with closed := true }).1
      (closeLink (closePools { c with closed := true }).1 id (c.link.shut id)) :=
    apart_closeLink (Link.shut_silent c.link id) fun _ hk => Link.shut_others hk
  rw [close_eq hclosed]
  exact hshut.front (quiet_flatMap_close c.pools.values fun p => p.close.2)
    (by simp [closePools])

end Close

section Sensible

variable {c c' : Client} {id : CallId}

theorem Sensible.next (h : c.Sensible) (hsettings : c'.settings = c.settings)
    (hbootstrap : c'.snapshot.bootstrap = c.snapshot.bootstrap)
    (hcalls : ∀ k stage, c'.calls.get? k = some stage → ¬ Rests (some stage) →
      c.calls.get? k = some stage ∧ c'.link.jobs.get? k = c.link.jobs.get? k ∨
        (∀ rest, stage = .probing rest → ∀ a ∈ rest, a ∈ c.settings.bootstrap) ∧
          ∀ goal due, stage = .linking goal due →
            ∃ q, c'.link.Wants k q ∧ goal.Serves q) :
    c'.Sensible where
  bootstrap := by rw [hbootstrap, hsettings, h.bootstrap]
  probing k rest hk := by
    rw [hsettings]
    rcases hcalls k _ hk (by simp [Rests]) with ⟨hbefore, -⟩ | ⟨hprobing, -⟩
    · exact h.probing k rest hbefore
    · exact hprobing rest rfl
  wants k goal due hk := by
    rcases hcalls k _ hk (by simp [Rests]) with ⟨hbefore, hjob⟩ | ⟨-, hwants⟩
    · obtain ⟨q, hq, hgoal⟩ := h.wants k goal due hbefore
      refine ⟨q, fun j hj => hq j (hjob ▸ hj), hgoal⟩
    · exact hwants goal due rfl

theorem Sensible.beside (h : c.Sensible) (id : CallId) (hsettings : c'.settings = c.settings)
    (hbootstrap : c'.snapshot.bootstrap = c.snapshot.bootstrap)
    (hcalls : ∀ k, k ≠ id → c'.calls.get? k = c.calls.get? k)
    (hjobs : ∀ k, k ≠ id → c'.link.jobs.get? k = c.link.jobs.get? k)
    (hprobing : ∀ rest, c'.calls.get? id ≠ some (.probing rest))
    (hlinking : ∀ goal due, c'.calls.get? id ≠ some (.linking goal due)) : c'.Sensible := by
  refine h.next hsettings hbootstrap fun k stage hk _ => ?_
  by_cases hki : k = id
  · subst hki
    refine .inr ⟨fun rest heq => ?_, fun goal due heq => ?_⟩
    · exact absurd (heq ▸ hk) (hprobing rest)
    · exact absurd (heq ▸ hk) (hlinking goal due)
  · exact .inl ⟨hcalls k hki ▸ hk, hjobs k hki⟩

theorem sensible_fresh (settings : Settings) (now : Nat) : (fresh settings now).Sensible where
  bootstrap := rfl
  probing k rest hk := by simp [fresh] at hk
  wants k goal due hk := by simp [fresh] at hk

theorem Apart.sensible {draw : Nat} {m : Move} (hm : Apart draw id c m) (h : c.Sensible) :
    m.1.Sensible := by
  obtain ⟨link, calls, hframe⟩ := hm.frame
  have hsettings : m.1.settings = c.settings ∧ m.1.snapshot = c.snapshot := by
    rw [hframe]
    exact ⟨rfl, rfl⟩
  refine h.next hsettings.1 (by rw [hsettings.2]) fun k stage hk _ => ?_
  by_cases hki : k = id
  · subst hki
    exact .inr ⟨fun rest heq => hm.probing rest (heq ▸ hk), fun goal due heq =>
      hm.wants goal due (heq ▸ hk)⟩
  · exact .inl ⟨hm.calls k hki ▸ hk, hm.jobs k hki⟩

theorem Talks.sensible {m : Move} (hm : Talks c m) (h : c.Sensible) : m.1.Sensible := by
  obtain ⟨calls, sessions, hframe⟩ := hm.frame
  have hsame : m.1.settings = c.settings ∧ m.1.snapshot = c.snapshot ∧ m.1.link = c.link := by
    rw [hframe]
    exact ⟨rfl, rfl, rfl⟩
  exact h.next hsame.1 (by rw [hsame.2.1]) fun k stage hk hr =>
    .inl ⟨hm.calls k stage hk hr, by rw [hsame.2.2]⟩

theorem Leaves.sensible {s : Session} {m : Move} (hm : Leaves id s c m) (h : c.Sensible) :
    m.1.Sensible := by
  obtain ⟨calls, sessions, hframe⟩ := hm.frame
  have hsame : m.1.settings = c.settings ∧ m.1.snapshot = c.snapshot ∧ m.1.link = c.link := by
    rw [hframe]
    exact ⟨rfl, rfl, rfl⟩
  exact h.next hsame.1 (by rw [hsame.2.1]) fun k stage hk hr =>
    .inl ⟨hm.calls k stage hk hr, by rw [hsame.2.2]⟩

theorem sensible_launch (h : c.Sensible) (s : Subscription) (a : Address) (conn : Conn) :
    (c.launch id s a conn).1.Sensible :=
  h.beside id rfl rfl (fun k hk => by simp [launch, hk]) (fun _ _ => rfl) (by simp [launch])
    (by simp [launch])

theorem sensible_lookup (draw : Nat) (h : c.Sensible) {link : Link Request}
    (hjobs : ∀ k, k ≠ id → link.jobs.get? k = c.link.jobs.get? k) (s : Subscription) (left : Nat) :
    (lookup draw { c with link } id s left).1.Sensible := by
  have hput (pools : Table Address Pool) {stage : Stage} (hprobing : ∀ rest, stage ≠ .probing rest)
      (hlinking : ∀ goal due, stage ≠ .linking goal due) :
      (Client.put { c with link, pools } id stage).Sensible :=
    h.beside id rfl rfl (fun k hk => by simp [hk]) hjobs (by simpa using hprobing)
      (by simpa using hlinking)
  have hfinish (r : Except CallError Outcome) : (Client.finish { c with link } id r).1.Sensible :=
    h.beside id rfl rfl (fun k hk => by simp [hk]) hjobs (by simp) (by simp)
  cases lookup_finds draw { c with link } id s left with
  | nowhere _ _ hm => exact hm ▸ hfinish _
  | later n due _ _ hm => exact hm ▸ hput c.pools (by simp) (by simp)
  | late a _ _ hm => exact hm ▸ hfinish _
  | reuses a conn p _ _ _ hm =>
    rw [hm]
    exact h.beside id rfl rfl (fun k hk => by simp [launch, hk]) hjobs (by simp [launch])
      (by simp [launch])
  | dials a _ _ _ hm =>
    rw [hm]
    exact hput _ (by simp) (by simp)

theorem sensible_install (h : c.Sensible) (t : Topology) : (c.install t).Sensible :=
  ⟨rfl, h.probing, h.wants⟩

theorem sensible_informed (h : c.Sensible) (e : Event) : (c.informed e).Sensible := by
  unfold informed
  split
  · exact sensible_install h _
  · exact h

theorem sensible_close (h : c.Sensible) (hclosed : c.closed = false) :
    (c.close id).1.Sensible := by
  have hpools : (closePools { c with closed := true }).1.Sensible :=
    ⟨h.bootstrap, h.probing, h.wants⟩
  exact (apart_close 0 id hclosed).sensible hpools

theorem Deals.sensible {draw : Nat} {e : Event} {m : Move} (hm : Deals draw c e m) (h : c.Sensible) :
    m.1.Sensible := by
  cases hm with
  | other _ _ hm =>
    cases hm with
    | call id _ hm => exact hm.sensible h
    | arrives id s a conn _ _ hm =>
      rw [hm]
      exact sensible_launch h s a conn
    | talks _ hm => exact hm.sensible h
    | leaves id s _ hm => exact hm.sensible h
    | shuts id _ hclosed hm =>
      rw [hm]
      exact sensible_close h hclosed
    | ticks now _ hm =>
      rw [hm]
      exact ⟨h.bootstrap, h.probing, h.wants⟩
    | expires _ hm =>
      rw [hm]
      exact ⟨h.bootstrap, h.probing, h.wants⟩
  | refresh id t o _ _ _ _ hm =>
    rw [hm]
    have hinstall := sensible_install h t
    exact hinstall.beside id rfl rfl (fun k hk => by simp [hk])
      (fun k hk => by simp [install, finish, hk]) (by simp) (by simp)
  | lookup id s left link _ hlink hm =>
    have hjobs : ∀ k, k ≠ id → link.jobs.get? k = c.link.jobs.get? k := by
      rcases hlink with rfl | rfl
      · exact fun _ _ => rfl
      · exact fun k hk => by simp [hk]
    rw [hm]
    have hinformed : (c.informed e).link = c.link := by rw [informed_frame c e]
    exact sensible_lookup draw (sensible_informed h e) (fun k hk => by rw [hinformed, hjobs k hk]) s
      left

end Sensible

section Run

variable {settings : Settings} {now : Nat} {history : History} {c : Client}

theorem Run.sensible (h : Run settings now history c) : c.Sensible := by
  induction h with
  | fresh => exact sensible_fresh settings now
  | next draw hrun _ ih => exact (step_deals draw hrun.keeps.coherent ih _).sensible ih

theorem Run.deals (h : Run settings now history c) (draw : Nat) (e : Event) :
    Deals draw c e (step draw c e) :=
  step_deals draw h.keeps.coherent h.sensible e

end Run

end StreamClient.Client
