import StreamClient.Proofs.Client.Ledger

/-! What a move for one call may do to a client, and that every move of a call does no more. -/

namespace StreamClient.Client

def Fits : Option Stage → Option (Link.Job Request) → Prop
  | some (.linking ..), j => ∃ j', j = some j' ∧ j' ≠ .shutting
  | some .closing, j => j = some .shutting
  | _, j => j = none

/-- A call that may have a session: it waits for the handshake, or is over. -/
def Rests : Option Stage → Prop
  | none | some (.greeting ..) => True
  | _ => False

inductive Kind where
  | building
  | ordinary
  | closing

def Kind.allows : Kind → Option Stage → Prop
  | building, s => s = none ∨ ∃ rest, s = some (.probing rest)
  | ordinary, s => s ≠ some .closing ∧ ∀ rest, s ≠ some (.probing rest)
  | closing, s => s = none ∨ s = some .closing

@[simp] theorem stage_put (c : Client) (id k : CallId) (stage : Stage) :
    (c.put id stage).calls.get? k = if k = id then some stage else c.calls.get? k :=
  c.calls.get?_put id k stage

@[simp] theorem stage_finish (c : Client) (id k : CallId) (r : Except CallError Outcome) :
    (c.finish id r).1.calls.get? k = if k = id then none else c.calls.get? k :=
  c.calls.get?_erase id k

/-- A move for the call `id` that brings the connections `news` in. -/
structure Acts (kind : Kind) (cause : Link.Cause) (id : CallId) (c : Client) (news : List Conn)
    (m : Move) : Prop where
  link : c.link.Evolves cause id m.1.link
  sound : m.1.link.Sound
  calls : ∀ k, k ≠ id → m.1.calls.get? k = c.calls.get? k
  sessions : ∀ k, k ≠ id → m.1.sessions.get? k = c.sessions.get? k
  stage : kind.allows (m.1.calls.get? id)
  fits : Fits (m.1.calls.get? id) (m.1.link.jobs.get? id)
  rests : (m.1.sessions.get? id).isSome → Rests (m.1.calls.get? id)
  ledger : ∀ x, m.1.total x + (closes m.2).count x = c.total x + news.count x
  dropped : ∀ x, c.link.cached = some x → m.1.link.cached = some x ∨ x ∈ closes m.2
  grounded : ∀ who conn q, .call who conn q ∈ m.2 → 0 < m.1.total conn
  closed : m.1.closed = c.closed

theorem Acts.after {kind : Kind} {cause cause' : Link.Cause} {id : CallId} {c c' : Client}
    {news news' : List Conn} {m : Move} {effects : List Effect} (h : Acts kind cause' id c' news' m)
    (hlink : c.link.Evolves cause id m.1.link)
    (hcalls : ∀ k, k ≠ id → c'.calls.get? k = c.calls.get? k)
    (hsessions : ∀ k, k ≠ id → c'.sessions.get? k = c.sessions.get? k)
    (hledger : ∀ x, c'.total x + (closes effects).count x + news'.count x =
      c.total x + news.count x)
    (hdropped : ∀ x, c.link.cached = some x → c'.link.cached = some x ∨ x ∈ closes effects)
    (heffects : ∀ who conn q, .call who conn q ∉ effects) (hclosed : c'.closed = c.closed) :
    Acts kind cause id c news (m.after effects) where
  link := hlink
  sound := h.sound
  calls k hk := (h.calls k hk).trans (hcalls k hk)
  sessions k hk := (h.sessions k hk).trans (hsessions k hk)
  stage := h.stage
  fits := h.fits
  rests := h.rests
  ledger x := by
    have hx := h.ledger x
    have hx' := hledger x
    simp only [Move.after, closes_append, List.count_append]
    omega
  dropped x hx := by
    rw [Move.after, closes_append, List.mem_append]
    rcases hdropped x hx with hx' | hclose
    · exact (h.dropped x hx').imp_right .inr
    · exact .inr (.inl hclose)
  grounded who conn q hq :=
    h.grounded who conn q ((List.mem_append.1 hq).resolve_left (heffects who conn q))
  closed := h.closed.trans hclosed

theorem Acts.behind {kind : Kind} {cause cause' : Link.Cause} {id : CallId} {c c' : Client}
    {news news' : List Conn} {m : Move} (h : Acts kind cause' id c' news' m)
    (hlink : c.link.Evolves cause id m.1.link)
    (hcalls : ∀ k, k ≠ id → c'.calls.get? k = c.calls.get? k)
    (hsessions : ∀ k, k ≠ id → c'.sessions.get? k = c.sessions.get? k)
    (hledger : ∀ x, c'.total x + news'.count x = c.total x + news.count x)
    (hdropped : ∀ x, c.link.cached = some x → c'.link.cached = some x)
    (hclosed : c'.closed = c.closed) : Acts kind cause id c news m := by
  show Acts kind cause id c news (m.after [])
  exact h.after hlink hcalls hsessions hledger (fun x hx => .inl (hdropped x hx)) (by simp) hclosed

theorem Acts.front {kind : Kind} {cause : Link.Cause} {id : CallId} {c : Client} {news : List Conn}
    {m : Move} {effects : List Effect} (h : Acts kind cause id c news m)
    (hcloses : closes effects = []) (hcalls : ∀ who conn q, .call who conn q ∉ effects) :
    Acts kind cause id c news (m.after effects) where
  link := h.link
  sound := h.sound
  calls := h.calls
  sessions := h.sessions
  stage := h.stage
  fits := h.fits
  rests := h.rests
  ledger x := by
    rw [Move.after, closes_append, hcloses, List.nil_append]
    exact h.ledger x
  dropped x hx := by
    rw [Move.after, closes_append, hcloses, List.nil_append]
    exact h.dropped x hx
  grounded who conn q hq :=
    h.grounded who conn q ((List.mem_append.1 hq).resolve_left (hcalls who conn q))
  closed := h.closed

structure Free (c : Client) (id : CallId) : Prop where
  sound : c.link.Sound
  job : c.link.jobs.get? id = none
  session : c.sessions.get? id = none

theorem acts_finish {kind : Kind} {c : Client} {id : CallId} (hs : c.link.Sound)
    (hj : c.link.jobs.get? id = none) (r : Except CallError Outcome) :
    Acts kind .quiet id c [] (c.finish id r) := by
  have hself : (c.finish id r).1.calls.get? id = none := by simp
  exact {
    link := .refl id c.link
    sound := hs
    calls := fun k hk => by simp [hk]
    sessions := fun _ _ => rfl
    stage := by cases kind <;> simp [hself, Kind.allows]
    fits := by rw [hself]; exact hj
    rests := fun _ => by rw [hself]; trivial
    ledger := fun x => by simp [finish, closes, total]
    dropped := fun _ hx => .inl hx
    grounded := fun who conn q hq => by simp [finish] at hq
    closed := rfl }

theorem acts_wait {kind : Kind} {c : Client} {id : CallId} {stage : Stage} {effects : List Effect}
    (h : c.Free id) (hk : kind.allows (some stage)) (hf : Fits (some stage) none)
    (hclosed : closes effects = []) (hcalls : ∀ who conn q, .call who conn q ∉ effects) :
    Acts kind .quiet id c [] (c.put id stage, effects) := by
  have hself : (c.put id stage).calls.get? id = some stage := by simp
  exact {
    link := .refl id c.link
    sound := h.sound
    calls := fun k hk => by simp [hk]
    sessions := fun _ _ => rfl
    stage := by rw [hself]; exact hk
    fits := by rw [hself]; exact h.job ▸ hf
    rests := fun hs => by simp [Client.put, h.session] at hs
    ledger := fun x => by simp [hclosed, Client.put, total]
    dropped := fun _ hx => .inl hx
    grounded := fun who conn q hq => absurd hq (hcalls who conn q)
    closed := rfl }

theorem mem_map_ofOrder {orders : List (Link.Order Request)} {who : Party} {conn : Conn}
    {q : Request} (h : .call who conn q ∈ orders.map ofOrder) :
    ∃ id, .call id conn q ∈ orders := by
  obtain ⟨o, ho, heq⟩ := List.mem_map.1 h
  cases o with
  | call id conn' q' =>
    obtain ⟨-, rfl, rfl⟩ : Party.caller id = who ∧ conn' = conn ∧ q' = q := by
      simpa [ofOrder] using heq
    exact ⟨id, ho⟩
  | _ => simp [ofOrder] at heq

section Turns

variable {kind : Kind} {cause : Link.Cause} {shutting : Bool} {id : CallId} {c : Client}
  {t : Link.Turn Request Reply}

theorem acts_running {stage : Stage} (h : Link.Takes cause shutting id c.link t)
    (hr : t.ending = none) (hs : c.sessions.get? id = none) (hk : kind.allows (some stage))
    (hf : ∀ j, (j = .shutting ↔ shutting = true) → Fits (some stage) (some j)) :
    Acts kind cause id c cause.gains
      ({ c with link := t.link }.put id stage, t.orders.map ofOrder) := by
  have hself : ({ c with link := t.link }.put id stage).calls.get? id = some stage := by
    simp
  exact {
    link := h.toEvolves
    sound := h.sound
    calls := fun k hk => by simp [hk]
    sessions := fun _ _ => rfl
    stage := by rw [hself]; exact hk
    fits := by
      obtain ⟨j, hj, hjs⟩ := h.running hr
      rw [hself]
      show Fits _ (t.link.jobs.get? id)
      rw [hj]
      exact hf j hjs
    rests := fun hs' => by simp [Client.put, hs] at hs'
    ledger := fun x => by
      have hx := h.ledger x
      simp only [closes_map_ofOrder, Client.put, total]
      omega
    dropped := fun x hx => by
      rw [closes_map_ofOrder]
      exact h.dropped hx
    grounded := fun who conn q hq => by
      obtain ⟨k, hk⟩ := mem_map_ofOrder hq
      exact total_of_cached (h.calls k conn q hk).1
    closed := rfl }

theorem acts_over {m : Move} {e : Link.Ending Reply} (h : Link.Takes cause shutting id c.link t)
    (he : t.ending = some e) (hm : Acts kind .quiet id { c with link := t.link } [] m) :
    Acts kind cause id c cause.gains (m.after (t.orders.map ofOrder)) := by
  refine hm.after (h.toEvolves.trans hm.link) (fun _ _ => rfl) (fun _ _ => rfl) (fun x => ?_)
    (fun x hx => ?_) ?_ rfl
  · have hx := h.ledger x
    simp only [closes_map_ofOrder, total, List.count_nil]
    omega
  · rw [closes_map_ofOrder]
    exact h.dropped hx
  · intro who conn q hq
    obtain ⟨k, hk⟩ := mem_map_ofOrder hq
    have hnone := (h.calls k conn q hk).2
    rw [he] at hnone
    cases hnone

theorem free_of_over {e : Link.Ending Reply} (h : Link.Takes cause shutting id c.link t)
    (he : t.ending = some e) (hs : c.sessions.get? id = none) :
    Free { c with link := t.link } id :=
  ⟨h.sound, h.ended e he, hs⟩

theorem acts_follow {goal : Goal} {due : Option Nat} {next : Client → Except Fault Reply → Move}
    (h : Link.Takes cause false id c.link t) (hs : c.sessions.get? id = none)
    (hnext : ∀ c' r, Free c' id → Acts .ordinary .quiet id c' [] (next c' r)) :
    Acts .ordinary cause id c cause.gains (c.follow id goal due t next) := by
  cases he : t.ending with
  | none =>
    simp only [follow, he]
    refine acts_running h he hs (by simp [Kind.allows]) fun j hj => ?_
    exact ⟨j, rfl, by simpa using hj⟩
  | some e =>
    have hfree := free_of_over h he hs
    cases e with
    | reply r =>
      simp only [follow, he]
      exact acts_over h he (hnext _ r hfree)
    | shut =>
      simp only [follow, he]
      exact acts_over h he (acts_finish hfree.sound hfree.job _)

theorem acts_closeLink (h : Link.Takes cause true id c.link t) (hs : c.sessions.get? id = none) :
    Acts .closing cause id c cause.gains (c.closeLink id t) := by
  cases he : t.ending with
  | none =>
    simp only [closeLink, he]
    refine acts_running h he hs (.inr rfl) fun j hj => ?_
    exact congrArg some (hj.2 rfl)
  | some e =>
    have hfree := free_of_over h he hs
    simp only [closeLink, he]
    exact acts_over h he (acts_finish hfree.sound hfree.job _)

end Turns

theorem Acts.of_install {kind : Kind} {cause : Link.Cause} {id : CallId} {c : Client} {t : Topology}
    {news : List Conn} {m : Move} (h : Acts kind cause id (c.install t) news m) :
    Acts kind cause id c news m :=
  ⟨h.link, h.sound, h.calls, h.sessions, h.stage, h.fits, h.rests, h.ledger, h.dropped,
    h.grounded, h.closed⟩

theorem Free.install {c : Client} {id : CallId} (h : c.Free id) (t : Topology) :
    (c.install t).Free id :=
  ⟨h.sound, h.job, h.session⟩

theorem acts_launch {c : Client} {id : CallId} (h : c.Free id) (s : Subscription)
    (address : Address) (conn : Conn) :
    Acts .ordinary .quiet id c [conn] (c.launch id s address conn) := by
  have hgreeting : (c.launch id s address conn).1.calls.get? id =
      some (.greeting s none (c.settings.handshakeTimeout.map fun d => c.now + d.ceilMillis)) := by
    simp [launch]
  exact {
    link := .refl id c.link
    sound := h.sound
    calls := fun k hk => by simp [launch, hk]
    sessions := fun k hk => by simp [launch, Client.put, Table.get?_put, hk]
    stage := by rw [hgreeting]; simp [Kind.allows]
    fits := by rw [hgreeting]; exact h.job
    rests := fun _ => by rw [hgreeting]; trivial
    ledger := fun x => by
      have hx := total_launch (s := { subscription := s, conn, pool := address }) h.session x
      simp only [launch, Client.put, total] at hx ⊢
      simpa [closes] using hx
    dropped := fun _ hx => .inl hx
    grounded := fun who conn' q hq => by simp [launch] at hq
    closed := rfl }

theorem acts_join {c : Client} {id : CallId} (h : c.Free id) (s : Subscription)
    (address : Address) : Acts .ordinary .quiet id c [] (c.join id s address) := by
  by_cases hc : c.closed = true
  · rw [join, if_pos hc]
    exact acts_finish h.sound h.job _
  · rw [join, if_neg hc]
    cases hp : (c.pool address).take? with
    | some e =>
      obtain ⟨conn, p⟩ := e
      let c' : Client := { c with pools := c.pools.put address p }
      have hlaunch := acts_launch (c := c') ⟨h.sound, h.job, h.session⟩ s address conn
      refine hlaunch.behind hlaunch.link (fun _ _ => rfl) (fun _ _ => rfl) (fun x => ?_)
        (fun _ hx => hx) rfl
      have hpool : c'.total x + _ = _ := c.total_pool address p x
      have htake := Pool.count_take? hp x
      simp only [List.count_nil]
      omega
    | none =>
      -- a pool that was not there is put in empty, so the count stays
      let c' : Client := { c with pools := c.pools.put address (c.pool address) }
      have hwait : Acts .ordinary .quiet id c' [] (c'.put id (.joining s address),
          [.dial id address]) :=
        acts_wait ⟨h.sound, h.job, h.session⟩ (by simp [Kind.allows]) rfl rfl (by simp)
      refine hwait.behind hwait.link (fun _ _ => rfl) (fun _ _ => rfl) (fun x => ?_)
        (fun _ hx => hx) rfl
      have hpool : c'.total x + _ = _ := c.total_pool address (c.pool address) x
      simp only [List.count_nil]
      omega

theorem acts_lookup (draw : Nat) {c : Client} {id : CallId} (h : c.Free id) (s : Subscription)
    (left : Nat) : Acts .ordinary .quiet id c [] (lookup draw c id s left) := by
  unfold lookup
  split
  · exact acts_join h s _
  · cases left with
    | zero => exact acts_finish h.sound h.job _
    | succ n => exact acts_wait h (by simp [Kind.allows]) rfl rfl (by simp)

theorem acts_created {c : Client} {id : CallId} (h : c.Free id) (r : Except Fault Reply) :
    Acts .ordinary .quiet id c [] (c.created id r) := by
  cases r with
  | ok reply =>
    exact Acts.of_install (t := reply.topology) (acts_finish (h.install _).sound (h.install _).job _)
  | error f => exact acts_finish h.sound h.job _

theorem acts_settle (draw : Nat) {c : Client} {id : CallId} (h : c.Free id) (goal : Goal)
    (r : Except Fault Reply) : Acts .ordinary .quiet id c [] (settle draw c id goal r) := by
  have hfinish (r' : Except CallError Outcome) :
      Acts .ordinary .quiet id c [] (c.finish id r') := acts_finish h.sound h.job r'
  have hrefresh (t : Topology) (r' : Except CallError Outcome) :
      Acts .ordinary .quiet id c [] ((c.install t).finish id r') :=
    Acts.of_install (acts_finish (h.install t).sound (h.install t).job r')
  -- only a stream that was created leads to another call, and only a lookup to a session
  cases goal <;> cases r
  case create.ok =>
    exact acts_follow (Link.submit_takes _ _ h.sound h.job) h.session fun _ r h' => acts_created h' r
  case resolve.ok s left reply => exact (acts_lookup draw (h.install _) s left).of_install
  case created.ok reply => exact acts_created h (.ok reply)
  case created.error f => exact acts_created h (.error f)
  case connect.ok reply => exact hrefresh _ _
  case fetch.ok reply => exact hrefresh _ _
  all_goals exact hfinish _

theorem acts_engage (draw : Nat) {cause : Link.Cause} {c : Client} {id : CallId} {goal : Goal}
    {due : Option Nat} {t : Link.Turn Request Reply} (h : Link.Takes cause false id c.link t)
    (hs : c.sessions.get? id = none) :
    Acts .ordinary cause id c cause.gains (engage draw c id goal due t) :=
  acts_follow h hs fun _ r h' => acts_settle draw h' goal r

theorem acts_submit (draw : Nat) {c : Client} {id : CallId} (h : c.Free id) (goal : Goal)
    (q : Request) : Acts .ordinary .quiet id c [] (submit draw c id goal q) :=
  acts_engage draw (Link.submit_takes _ q h.sound h.job) h.session

end StreamClient.Client
