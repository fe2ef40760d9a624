import StreamClient.Proofs.Client.Moves

/-! The turns of sessions: a session keeps its connection until it gives it back at its end. -/

namespace StreamClient

namespace Session

theorem conn_of_goOn {heard : Bool} {s s' : Session} {e : Stimulus} {actions : List Action}
    (h : s.turn heard e = .goOn s' actions) : s'.conn = s.conn := by
  unfold turn at h
  split at h
  · cases h
  · split at h <;> (try split at h) <;> cases h <;> rfl

theorem ask_notMem_of_over {heard : Bool} {s : Session} {e : Stimulus} {actions : List Action}
    {report : Option CallError} (h : s.turn heard e = .over actions report) (s' : Subscription) :
    .ask s' ∉ actions := by
  unfold turn at h
  split at h
  · cases h
    unfold leftovers
    split <;> simp
  · split at h <;> (try split at h) <;> cases h <;> simp

end Session

namespace Client

structure Hears (id : CallId) (c c' : Client) : Prop where
  link : c'.link = c.link
  pools : c'.pools = c.pools
  sessions : c'.sessions = c.sessions
  closed : c'.closed = c.closed
  calls : ∀ k, k ≠ id → c'.calls.get? k = c.calls.get? k
  rests : Rests (c.calls.get? id) → Rests (c'.calls.get? id)

theorem Hears.refl (id : CallId) (c : Client) : Hears id c c :=
  ⟨rfl, rfl, rfl, rfl, fun _ _ => rfl, fun h => h⟩

theorem Hears.trans {id : CallId} {c c' c'' : Client} (h : Hears id c c') (h' : Hears id c' c'') :
    Hears id c c'' :=
  ⟨h'.link.trans h.link, h'.pools.trans h.pools, h'.sessions.trans h.sessions,
    h'.closed.trans h.closed, fun k hk => (h'.calls k hk).trans (h.calls k hk),
    fun hr => h'.rests (h.rests hr)⟩

theorem Hears.total {id : CallId} {c c' : Client} (h : Hears id c c') (x : Conn) :
    c'.total x = c.total x := by
  rw [Client.total, Client.total, h.link, h.pools, h.sessions]

theorem greet_hears (c : Client) (id : CallId) (verdict : Except Fault Unit) :
    Hears id c (c.greet id verdict).1 ∧ ∀ e ∈ (c.greet id verdict).2, e = .wake (.caller id) := by
  unfold greet
  split
  · next s due hcall =>
    refine ⟨⟨rfl, rfl, rfl, rfl, fun k hk => ?_, fun _ => ?_⟩, by simp⟩
    · simp [hk]
    · simp [Rests]
  · exact ⟨.refl id c, by simp [stay]⟩

theorem act_hears (c : Client) (id : CallId) (conn : Conn) (a : Session.Action) :
    Hears id c (c.act id conn a).1 ∧ closes (c.act id conn a).2 = [] ∧
      ∀ who conn' q, .call who conn' q ∈ (c.act id conn a).2 → conn' = conn ∧ ∃ s, a = .ask s := by
  cases a with
  | greet r =>
    obtain ⟨hears, heffects⟩ := greet_hears c id r
    refine ⟨hears, ?_, fun who conn' q hq => absurd (heffects _ hq) (by simp)⟩
    refine List.filterMap_eq_nil_iff.2 fun e he => ?_
    rw [heffects e he]
  | ask s =>
    refine ⟨.refl id c, rfl, ?_⟩
    simp only [act, List.mem_singleton, Effect.call.injEq]
    rintro who conn' q ⟨-, rfl, -⟩
    exact ⟨rfl, s, rfl⟩
  | _ => exact ⟨.refl id c, rfl, by simp [act]⟩

theorem actAll_hears (id : CallId) (conn : Conn) (actions : List Session.Action) (c : Client) :
    Hears id c (c.actAll id conn actions).1 ∧ closes (c.actAll id conn actions).2 = [] ∧
      ∀ who conn' q, .call who conn' q ∈ (c.actAll id conn actions).2 →
        conn' = conn ∧ ∃ s, .ask s ∈ actions := by
  induction actions generalizing c with
  | nil => exact ⟨.refl id c, rfl, by simp [actAll, stay]⟩
  | cons a rest ih =>
    obtain ⟨hfirst, hcloses, hcalls⟩ := act_hears c id conn a
    obtain ⟨hrest, hcloses', hcalls'⟩ := ih (c.act id conn a).1
    refine ⟨hfirst.trans hrest, ?_, fun who conn' q hq => ?_⟩
    · simp only [actAll, Move.after, closes_append, hcloses, hcloses', List.append_nil]
    · rcases List.mem_append.1 hq with hq | hq
      · obtain ⟨hconn, s, rfl⟩ := hcalls who conn' q hq
        exact ⟨hconn, s, List.mem_cons_self ..⟩
      · obtain ⟨hconn, s, hs⟩ := hcalls' who conn' q hq
        exact ⟨hconn, s, List.mem_cons_of_mem _ hs⟩

theorem giveBack_frame (c : Client) (address : Address) (conn : Conn) :
    (∃ pools, (c.giveBack address conn).1 = { c with pools }) ∧
      ∀ e ∈ (c.giveBack address conn).2, ∃ x, e = .close x := by
  unfold giveBack
  split
  · refine ⟨⟨_, rfl⟩, fun e he => ?_⟩
    obtain ⟨x, -, rfl⟩ := List.mem_map.1 he
    exact ⟨x, rfl⟩
  · exact ⟨⟨c.pools, rfl⟩, fun e he => ⟨conn, List.mem_singleton.1 he⟩⟩

structure Parked (c : Client) (id : CallId) : Prop where
  sound : c.link.Sound
  job : c.link.jobs.get? id = none
  rests : Rests (c.calls.get? id)

theorem Rests.allowed {s : Option Stage} (h : Rests s) : Kind.ordinary.allows s := by
  rcases s with _ | (_ | _ | _ | _ | _ | _ | _)
  all_goals first
    | exact h.elim
    | exact ⟨by simp, by simp⟩

theorem Rests.fits {s : Option Stage} (h : Rests s) : Fits s none := by
  rcases s with _ | (_ | _ | _ | _ | _ | _ | _)
  all_goals first
    | exact h.elim
    | rfl

theorem acts_stay {c : Client} {id : CallId} (h : c.Parked id) :
    Acts .ordinary .quiet id c [] c.stay where
  link := .refl id c.link
  sound := h.sound
  calls _ _ := rfl
  sessions _ _ := rfl
  stage := h.rests.allowed
  fits := by
    show Fits _ (c.link.jobs.get? id)
    rw [h.job]
    exact h.rests.fits
  rests _ := h.rests
  ledger x := by simp [stay]
  dropped _ hx := .inl hx
  grounded who conn q hq := by simp [stay] at hq
  closed := rfl

theorem Hears.acts {id : CallId} {c c' : Client} {effects : List Effect} (h : Hears id c c')
    (hp : c.Parked id) (hcloses : closes effects = [])
    (hcalls : ∀ who conn q, .call who conn q ∈ effects → 0 < c.total conn) :
    Acts .ordinary .quiet id c [] (c', effects) where
  link := h.link ▸ .refl id c.link
  sound := by
    show c'.link.Sound
    rw [h.link]
    exact hp.sound
  calls := h.calls
  sessions k _ := congrArg (fun t => t.get? k) h.sessions
  stage := (h.rests hp.rests).allowed
  fits := by
    show Fits _ (c'.link.jobs.get? id)
    rw [h.link, hp.job]
    exact (h.rests hp.rests).fits
  rests _ := h.rests hp.rests
  ledger x := by rw [hcloses, h.total]
  dropped x hx := .inl (h.link ▸ hx)
  grounded who conn q hq := by
    rw [h.total]
    exact hcalls who conn q hq
  closed := h.closed

theorem Hears.parked {id : CallId} {c c' : Client} (h : Hears id c c') (hp : c.Parked id) :
    c'.Parked id where
  sound := h.link ▸ hp.sound
  job := h.link ▸ hp.job
  rests := h.rests hp.rests

theorem acts_terminate {c : Client} {id : CallId} {s : Session} (h : c.Parked id)
    (hs : c.sessions.get? id = some s) (report : Option CallError) :
    Acts .ordinary .quiet id c [] (c.terminate id s report) := by
  -- first the session goes, then its connection to the pool, and then the caller is told
  let c₀ : Client := { c with sessions := c.sessions.erase id }
  let given := c₀.giveBack s.pool s.conn
  obtain ⟨⟨pools, hframe⟩, honly⟩ := giveBack_frame c₀ s.pool s.conn
  have hparked : given.1.Parked id := by
    rw [show given.1 = { c₀ with pools } from hframe]
    exact ⟨h.sound, h.job, h.rests⟩
  obtain ⟨hears, hwakes⟩ := greet_hears given.1 id (.error endedUnheard)
  have htold : Acts .ordinary .quiet id given.1 [] (given.1.greet id (.error endedUnheard)) := by
    refine hears.acts hparked ?_ fun who conn q hq => absurd (hwakes _ hq) (by simp)
    refine List.filterMap_eq_nil_iff.2 fun e he => ?_
    rw [hwakes e he]
  have heffects : c.terminate id s report =
      (given.1.greet id (.error endedUnheard)).after
        (given.2 ++ report.toList.map (.report id) ++ [.terminated id]) := by
    simp only [terminate, Move.after, given, c₀]
  have hcloses : closes (given.2 ++ report.toList.map (.report id) ++ [.terminated id]) =
      closes given.2 := by
    cases report <;> simp [closes]
  rw [heffects]
  have hlink : given.1.link = c.link := by rw [show given.1 = { c₀ with pools } from hframe]
  refine htold.after (hlink ▸ htold.link) (fun k _ => ?_) (fun k hk => ?_) (fun x => ?_)
    (fun x hx => .inl (hlink ▸ hx)) ?_ ?_
  · rw [show given.1 = { c₀ with pools } from hframe]
  · rw [show given.1 = { c₀ with pools } from hframe]
    simp [c₀, Table.get?_erase, hk]
  · have hgiven : given.1.total x + (closes given.2).count x = _ := c₀.total_giveBack _ _ x
    have herase : c₀.total x + _ = _ := total_erase hs x
    rw [hcloses, List.count_nil]
    omega
  · intro who conn q hq
    simp only [List.mem_append, List.mem_map, List.mem_singleton] at hq
    rcases hq with (hq | ⟨_, -, hq⟩) | hq
    · obtain ⟨x, hx⟩ := honly _ hq
      cases hx
    · cases hq
    · cases hq
  · rw [show given.1 = { c₀ with pools } from hframe]

theorem acts_stimulate {c : Client} {id : CallId} (h : c.Parked id) (e : Session.Stimulus) :
    Acts .ordinary .quiet id c [] (c.stimulate id e) := by
  cases hs : c.sessions.get? id with
  | none =>
    simp only [stimulate, hs]
    exact acts_stay h
  | some s =>
    cases ht : s.turn (c.isHeard id) e with
    | goOn s' actions =>
      -- the session goes on with the connection it had, and may call on it
      let c' : Client := { c with sessions := c.sessions.put id s' }
      have hconn : s'.conn = s.conn := Session.conn_of_goOn ht
      obtain ⟨hears, hcloses, hcalls⟩ := actAll_hears id s'.conn actions c'
      have hself : c'.sessions.get? id = some s' := by simp [c', Table.get?_put]
      have hacts := hears.acts ⟨h.sound, h.job, h.rests⟩ hcloses fun who conn q hq => by
        rw [(hcalls who conn q hq).1]
        exact total_of_session hself
      simp only [stimulate, hs, ht]
      refine hacts.behind hacts.link (fun _ _ => rfl) (fun k hk => ?_) (fun x => ?_)
        (fun _ hx => hx) rfl
      · simp [c', Table.get?_put, hk]
      · have htotal : c'.total x = c.total x := total_session hs hconn x
        simp [htotal]
    | _ actions report =>
      obtain ⟨hears, hcloses, hcalls⟩ := actAll_hears id s.conn actions c
      -- a session that is over calls nobody: its connection is given away
      have hsession : (c.actAll id s.conn actions).1.sessions.get? id = some s := by
        rw [hears.sessions, hs]
      simp only [stimulate, hs, ht]
      have hover := acts_terminate (hears.parked h) hsession report
      refine hover.after (hears.link ▸ hover.link) hears.calls (fun k _ => ?_) (fun x => ?_)
        (fun x hx => .inl (hears.link ▸ hx)) (fun who conn q hq => ?_) hears.closed
      · rw [hears.sessions]
      · rw [hears.total, hcloses, List.count_nil, Nat.add_zero]
      · obtain ⟨-, s', hs'⟩ := hcalls who conn q hq
        exact Session.ask_notMem_of_over ht s' hs'

theorem acts_unsubscribe {c : Client} {id : CallId} (h : c.Parked id) :
    Acts .ordinary .quiet id c [] (c.unsubscribe id) := by
  unfold unsubscribe
  split
  · next s hs =>
    split
    · exact acts_stay h
    · let c' : Client := { c with sessions := c.sessions.put id { s with cancelled := true } }
      have hwake : Acts .ordinary .quiet id c' [] (c', [.wake (.session id)]) :=
        (Hears.refl id c').acts ⟨h.sound, h.job, h.rests⟩ rfl (by simp)
      refine hwake.behind hwake.link (fun _ _ => rfl) (fun k hk => ?_) (fun x => ?_)
        (fun _ hx => hx) rfl
      · simp [c', Table.get?_put, hk]
      · have htotal : c'.total x = c.total x :=
          @total_session c id s { s with cancelled := true } hs rfl x
        simp [htotal]
  · exact acts_stay h

theorem unsubscribe_frame (c : Client) (id : CallId) :
    (∃ sessions, (c.unsubscribe id).1 = { c with sessions }) ∧
      ∀ e ∈ (c.unsubscribe id).2, e = .wake (.session id) := by
  unfold unsubscribe
  split
  · split
    · exact ⟨⟨c.sessions, rfl⟩, by simp [stay]⟩
    · exact ⟨⟨_, rfl⟩, by simp⟩
  · exact ⟨⟨c.sessions, rfl⟩, by simp [stay]⟩

theorem acts_expelled {c : Client} {id : CallId} (h : c.Parked id) (s : Subscription)
    (verdict : Except Fault Unit) :
    Acts .ordinary .quiet id c []
      (((c.unsubscribe id).1.greeted id s verdict).after (c.unsubscribe id).2) := by
  have hunsubscribe := acts_unsubscribe h
  obtain ⟨⟨sessions, hframe⟩, hwakes⟩ := unsubscribe_frame c id
  have hjob : (c.unsubscribe id).1.link.jobs.get? id = none := by rw [hframe]; exact h.job
  have hgreeted : Acts .ordinary .quiet id _ [] ((c.unsubscribe id).1.greeted id s verdict) :=
    acts_finish hunsubscribe.sound hjob _
  refine hgreeted.after (hunsubscribe.link.trans hgreeted.link) hunsubscribe.calls
    hunsubscribe.sessions (fun x => ?_) hunsubscribe.dropped
    (fun who conn q hq => absurd (hwakes _ hq) (by simp)) hunsubscribe.closed
  rw [hunsubscribe.ledger, List.count_nil, Nat.add_zero]

theorem acts_greeted {c : Client} {id : CallId} (h : c.Parked id) (s : Subscription)
    (verdict : Except Fault Unit) : Acts .ordinary .quiet id c [] (c.greeted id s verdict) :=
  acts_finish h.sound h.job _

end Client
end StreamClient
