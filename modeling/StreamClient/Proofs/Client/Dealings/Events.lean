import StreamClient.Proofs.Client.Dealings.Moves

/-! What one event does to the snapshot, to the pools and to the connections of sessions, and which
addresses are dialed in it: an event is a move for one call, a turn of one session or a matter of the
client alone. -/

namespace StreamClient.Client

def informed (c : Client) (e : Event) : Client :=
  match c.fetched? e with
  | some t => c.install t
  | none => c

theorem informed_frame (c : Client) (e : Event) :
    c.informed e = { c with snapshot := (c.informed e).snapshot } := by
  unfold informed
  split <;> rfl

inductive Handles (draw : Nat) (c : Client) (e : Event) (m : Move) : Prop
  | call (id : CallId) : c.leaving? e = none → Apart draw id c m → Handles draw c e m
  | arrives (id : CallId) (s : Subscription) (a : Address) (conn : Conn) :
    e = .dialed id (.ok conn) → c.calls.get? id = some (.joining s a) →
      m = c.launch id s a conn → Handles draw c e m
  | talks : c.leaving? e = none → Talks c m → Handles draw c e m
  | leaves (id : CallId) (s : Session) : c.leaving? e = some (id, s) → Leaves id s c m →
    Handles draw c e m
  | shuts (id : CallId) : e = .start id .close → c.closed = false → m = c.close id →
    Handles draw c e m
  | ticks (now : Nat) : e = .tick now → m = c.tick now → Handles draw c e m
  | expires : e = .expire → m = c.expire → Handles draw c e m

/-- What an event does. -/
inductive Deals (draw : Nat) (c : Client) (e : Event) (m : Move) : Prop
  | other : c.fetched? e = none → c.looksUp? e = none → Handles draw c e m → Deals draw c e m
  | refresh (id : CallId) (t : Topology) (o : Outcome) :
    e.caller? = some id → c.fetched? e = some t → c.looksUp? e = none →
      (∀ s, o = .refreshed s → s = (c.install t).snapshot) →
        m = { c.install t with link := c.link.forget id }.finish id (.ok o) → Deals draw c e m
  | lookup (id : CallId) (s : Subscription) (left : Nat) (link : Link Request) :
    c.looksUp? e = some (id, s, left) → link = c.link ∨ link = c.link.forget id →
      m = Client.lookup draw { c.informed e with link } id s left → Deals draw c e m

section Events

variable {c : Client} {id : CallId}

theorem Handles.stay (draw : Nat) (c : Client) (e : Event) (h : c.leaving? e = none) :
    Handles draw c e c.stay := .talks h (talks_stay c)

theorem handles_turn (draw : Nat) (c : Client) {e : Event} {stimulus : Session.Stimulus}
    (h : e.turn? = some (id, stimulus)) : Handles draw c e (c.stimulate id stimulus) := by
  cases hs : c.sessions.get? id with
  | none =>
    rw [stimulate, hs]
    exact .stay draw c e (by simp only [leaving?, h, hs])
  | some s =>
    cases ht : s.turn (c.isHeard id) stimulus with
    | goOn s' actions => exact .talks (by simp only [leaving?, h, hs, ht]) (talks_stimulate hs ht)
    | «over» actions report =>
      exact .leaves id s (by simp only [leaving?, h, hs, ht]) (leaves_stimulate hs ht)

theorem deals_start (draw : Nat) (op : Op) :
    Deals draw c (.start id op) (start draw c id op) := by
  have hother (hop : ∀ stream o, op ≠ .subscribe stream o)
      (hm : Handles draw c (.start id op) (start draw c id op)) :
      Deals draw c (.start id op) (start draw c id op) := by
    refine .other rfl ?_ hm
    cases op with
    | subscribe stream o => exact absurd rfl (hop stream o)
    | _ => rfl
  have hcall (hop : ∀ stream o, op ≠ .subscribe stream o) (hclose : op ≠ .close)
      (hm : Apart draw id c (openCall draw c id op)) :
      Deals draw c (.start id op) (start draw c id op) := by
    refine hother hop (.call id rfl ?_)
    rw [start]
    split
    · exact apart_finish c id (by simp)
    · exact hm
  cases op with
  | subscribe stream o =>
    cases hclosed : c.closed with
    | true =>
      refine .other rfl (by simp [looksUp?, hclosed]) (.call id rfl ?_)
      rw [start, if_pos (by simp [hclosed])]
      exact apart_finish c id (by simp)
    | false =>
      refine .lookup id (o.subscription stream) (c.settings.lookups - 1) c.link
        (by simp [looksUp?, hclosed]) (.inl rfl) ?_
      rw [start, if_neg (by simp [hclosed])]
      rfl
  | close =>
    refine hother (by simp) ?_
    rw [start, if_neg (by simp)]
    cases hclosed : c.closed with
    | true =>
      rw [openCall, close, if_pos hclosed]
      exact .call id rfl (apart_finish c id (by simp))
    | false => exact .shuts id rfl hclosed rfl
  | connect =>
    refine hcall (by simp) (by simp) ?_
    rw [openCall, connect]
    split
    · exact apart_finish c id (by simp)
    · exact apart_probe c id none fun a ha => mem_shuffle.1 ha
  | createStream name o =>
    refine hcall (by simp) (by simp) ?_
    rw [openCall]
    split
    · exact apart_finish c id (by simp)
    · exact apart_submit draw c id ⟨_, rfl⟩ (by simp [Goal.resolves])
  | publish stream value o =>
    refine hcall (by simp) (by simp) ?_
    rw [openCall]
    split
    · exact apart_submit draw c id (.inl ⟨_, _, _, _, rfl⟩) (by simp [Goal.resolves])
    · exact apart_put (by simp) (by simp [Stage.resolves]) (by simp) (by simp) (by simp [dials])
        (by simp) (by simp)
  | deleteStream name =>
    exact hcall (by simp) (by simp) (apart_submit draw c id rfl (by simp [Goal.resolves]))
  | publishToSubject subject value o =>
    exact hcall (by simp) (by simp)
      (apart_submit draw c id (.inr ⟨_, _, _, rfl⟩) (by simp [Goal.resolves]))
  | fetchMetadata =>
    exact hcall (by simp) (by simp) (apart_submit draw c id rfl (by simp [Goal.resolves]))

theorem Apart.of_link {m : Move} {l : Link Request} (h : Apart draw id { c with link := l } m)
    (hjobs : ∀ k, k ≠ id → l.jobs.get? k = c.link.jobs.get? k)
    (hself : ∀ j, l.jobs.get? id = some j → c.link.jobs.get? id = some j) : Apart draw id c m where
  frame := by
    obtain ⟨link, calls, hframe⟩ := h.frame
    exact ⟨link, calls, hframe⟩
  calls := h.calls
  jobs k hk := (h.jobs k hk).trans (hjobs k hk)
  joining := h.joining
  resolving := h.resolving
  probing := h.probing
  wants := h.wants
  asked q hq := (h.asked q hq).imp_left fun hasked => by
    obtain ⟨e, conn, hj, he⟩ := asked_eq_some.1 hasked
    exact asked_eq_some.2 ⟨e, conn, hself _ hj, he⟩
  requests := h.requests
  dials := h.dials
  refreshed := h.refreshed

theorem handles_dialed (draw : Nat) (hs : c.Sensible) (r : Except Fault Conn) :
    Handles draw c (.dialed id r) (dialed draw c id r) := by
  unfold dialed
  split
  · next rest conn hstage =>
    have hsubmit : Apart draw id { c with link := { c.link with cached := some conn } }
        (submit draw { c with link := { c.link with cached := some conn } } id .connect
          .fetchMetadata) := apart_submit draw _ id rfl (by simp [Goal.resolves])
    exact .call id rfl (hsubmit.of_link (fun _ _ => rfl) fun _ hj => hj)
  · next rest f hstage =>
    exact .call id rfl (apart_probe c id (some f) (hs.probing id rest hstage))
  · next goal due hstage =>
    obtain ⟨q, hwants, hq⟩ := hs.wants id goal due hstage
    exact .call id rfl (apart_engage due (Link.dialed_seeks _ hwants _) hq
      (fun hr => ⟨_, hstage, hr⟩) fun _ hk => Link.dialed_others _ hk _)
  · next s a conn hstage => exact .arrives id s a conn rfl hstage rfl
  · exact .call id rfl (apart_finish c id (by simp))
  · exact .stay draw c _ rfl

theorem deals_unanswered (draw : Nat) {r : Except Fault Reply} {m : Move}
    (h : ∀ reply, r = .ok reply → c.asked id = none)
    (hm : Handles draw c (.answered (.caller id) r) m) :
    Deals draw c (.answered (.caller id) r) m := by
  cases r with
  | error f => exact .other rfl rfl hm
  | ok reply =>
    have hnone := h reply rfl
    refine .other (by simp [fetched?, hnone]) ?_ hm
    rw [looksUp?, hnone]
    split
    · next heq => cases heq
    · rfl

theorem deals_replied (draw : Nat) (hs : c.Sensible) {goal : Goal} {due : Option Nat}
    {e : Link.Errand Request} {conn : Conn} (reply : Reply)
    (hstage : c.calls.get? id = some (.linking goal due))
    (hj : c.link.jobs.get? id = some (.calling e conn)) :
    Deals draw c (.answered (.caller id) (.ok reply))
      (engage draw c id goal due (c.link.answered (c.pick draw) id (.ok reply))) := by
  obtain ⟨q, hwants, hq⟩ := hs.wants id goal due hstage
  have hrequest : e.request = q := hwants.request hj rfl
  have hasked : c.asked id = some q := asked_eq_some.2 ⟨e, conn, hj, hrequest⟩
  have hturn : engage draw c id goal due (c.link.answered (c.pick draw) id (.ok reply)) =
      settle draw { c with link := c.link.forget id } id goal (.ok reply) := by
    rw [Link.answered_ok _ hj]
    simp [engage, follow, Move.after]
  have hjobs : ∀ k, k ≠ id → (c.link.forget id).jobs.get? k = c.link.jobs.get? k :=
    fun k hk => by simp [hk]
  have hself : ∀ j, (c.link.forget id).jobs.get? id = some j → c.link.jobs.get? id = some j := by
    simp
  have hfetched (hgoal : goal.refreshes = true) :
      c.fetched? (.answered (.caller id) (.ok reply)) = some reply.topology := by
    simp [fetched?, hasked, hq.fetch_iff.2 hgoal]
  have hunfetched (hgoal : goal.refreshes = false) :
      c.fetched? (.answered (.caller id) (.ok reply)) = none := by
    have hne : q ≠ .fetchMetadata := fun heq => by simp [hq.fetch_iff.1 heq] at hgoal
    rw [fetched?, hasked]
    split
    · next heq => exact absurd (Option.some.inj heq) hne
    · rfl
  have hlooks (hgoal : ∀ s left, goal ≠ .resolve s left) :
      c.looksUp? (.answered (.caller id) (.ok reply)) = none := by
    rw [looksUp?, hstage]
    split
    · next s left _ _ heq _ =>
      exact absurd (Stage.linking.inj (Option.some.inj heq)).1 (hgoal s left)
    · rfl
  rw [hturn]
  cases goal with
  | connect =>
    exact .refresh id _ _ rfl (hfetched rfl) (hlooks (by simp))
      (fun s hs' => (Outcome.refreshed.inj hs').symm) rfl
  | fetch =>
    exact .refresh id _ _ rfl (hfetched rfl) (hlooks (by simp))
      (fun s hs' => (Outcome.refreshed.inj hs').symm) rfl
  | created =>
    exact .refresh id _ .done rfl (hfetched rfl) (hlooks (by simp)) (by simp) rfl
  | create name =>
    let c₁ : Client := { c with link := c.link.forget id }
    have hnext (c' : Client) (f : Fault) : ∃ r : Except CallError Outcome,
        (∀ s, r ≠ .ok (.refreshed s)) ∧ c'.created id (.error f) = c'.finish id r :=
      ⟨.ok .done, by simp, rfl⟩
    have hcreated : Apart draw id c₁ (c₁.follow id .created none
        (c₁.link.submit (c₁.pick draw) id .fetchMetadata) fun c' r => c'.created id r) :=
      apart_follow (Link.submit_seeks _ c₁.link id .fetchMetadata) rfl (by simp [Goal.resolves])
        (fun _ hk => Link.pursue_others _ hk _ _ _ _) hnext
    refine .other (hunfetched rfl) (hlooks (by simp)) (.call id rfl ?_)
    exact hcreated.of_link hjobs hself
  | delete name =>
    have hdone : Apart draw id { c with link := c.link.forget id }
        (Client.finish { c with link := c.link.forget id } id (.ok .done)) :=
      apart_finish _ id (by simp)
    exact .other (hunfetched rfl) (hlooks (by simp)) (.call id rfl (hdone.of_link hjobs hself))
  | publish =>
    have hacked : Apart draw id { c with link := c.link.forget id }
        (Client.finish { c with link := c.link.forget id } id (.ok (.acked reply.ack))) :=
      apart_finish _ id (by simp)
    exact .other (hunfetched rfl) (hlooks (by simp)) (.call id rfl (hacked.of_link hjobs hself))
  | resolve s left =>
    refine .lookup id s left (c.link.forget id) ?_ (.inr rfl) ?_
    · simp [looksUp?, hstage, hasked]
    · simp only [informed, hfetched rfl]
      rfl

theorem apart_idle (draw : Nat) (hs : c.Sensible) {goal : Goal} {due : Option Nat}
    (hstage : c.calls.get? id = some (.linking goal due)) :
    Apart draw id c (engage draw c id goal due { link := c.link }) := by
  obtain ⟨q, hwants, hq⟩ := hs.wants id goal due hstage
  exact apart_engage due (Link.seeks_waiting hwants (Link.asks_of_same rfl) Link.silent_nil rfl) hq
    (fun hr => ⟨_, hstage, hr⟩) fun _ _ => rfl

theorem deals_answered (draw : Nat) (hc : c.Coherent) (hs : c.Sensible) (who : Party)
    (r : Except Fault Reply) : Deals draw c (.answered who r) (answered draw c r who) := by
  cases who with
  | session id => exact .other rfl rfl (handles_turn draw c rfl)
  | caller id =>
    simp only [answered]
    split
    · next goal due hstage =>
      obtain ⟨q, hwants, hq⟩ := hs.wants id goal due hstage
      by_cases hj : ∃ e conn, c.link.jobs.get? id = some (.calling e conn)
      · obtain ⟨e, conn, hj⟩ := hj
        cases r with
        | ok reply => exact deals_replied draw hs reply hstage hj
        | error f =>
          exact .other rfl rfl (.call id rfl (apart_engage due (Link.answered_error_seeks _ hwants f)
            hq (fun hr => ⟨_, hstage, hr⟩) fun _ hk => Link.answered_others _ hk _))
      · have hidle : ∀ e conn, c.link.jobs.get? id ≠ some (.calling e conn) :=
          fun e conn h => hj ⟨e, conn, h⟩
        rw [Link.answered_idle _ hidle]
        refine deals_unanswered draw (fun reply _ => ?_) (.call id rfl (apart_idle draw hs hstage))
        cases hasked : c.asked id with
        | none => rfl
        | some q' =>
          obtain ⟨e, conn, hcalling, -⟩ := asked_eq_some.1 hasked
          exact absurd hcalling (hidle e conn)
    · next hstage =>
      refine deals_unanswered draw (fun reply _ => ?_) (.stay draw c _ rfl)
      cases hasked : c.asked id with
      | none => rfl
      | some q =>
        -- whoever waits for an answer is at the stage for it
        obtain ⟨e, conn, hcalling, -⟩ := asked_eq_some.1 hasked
        obtain ⟨goal, due, hlinking⟩ := hc.linking_of_job hcalling (by simp)
        exact absurd hlinking (hstage goal due)

theorem apart_greeted (c : Client) (id : CallId) (s : Subscription) (verdict : Except Fault Unit) :
    Apart draw id c (c.greeted id s verdict) := by
  cases verdict <;> exact apart_finish c id (by simp)

theorem Apart.front {m : Move} {effects : List Effect} (h : Apart draw id c m) (hq : Quiet effects)
    (hcalls : ∀ who conn q, .call who conn q ∉ effects) :
    Apart draw id c (m.after effects) := { h with
  requests := fun who conn q hr =>
    h.requests who conn q ((List.mem_append.1 hr).resolve_left (hcalls who conn q))
  asked := fun q hasked => (h.asked q hasked).imp_right fun ⟨conn, hcall⟩ =>
    ⟨conn, List.mem_append_right _ hcall⟩
  dials := fun k a hd => by
    rw [Move.after, dials_append, hq.dials, List.nil_append] at hd
    exact h.dials k a hd
  refreshed := fun k s hf => (List.mem_append.1 hf).elim (hq.refreshed k s) (h.refreshed k s) }

theorem handles_run (draw : Nat) (hc : c.Coherent) (hs : c.Sensible) (who : Party) :
    Handles draw c (.run who) (run draw c who) := by
  cases who with
  | session id => exact handles_turn draw c rfl
  | caller id =>
    simp only [run]
    split
    · next goal due hstage =>
      obtain ⟨q, hwants, hq⟩ := hs.wants id goal due hstage
      exact .call id rfl (apart_engage due (Link.resume_seeks _ hwants) hq
        (fun hr => ⟨_, hstage, hr⟩) fun _ hk => Link.resume_others _ hk)
    · next hstage =>
      have hjob : c.link.jobs.get? id = some .shutting := by
        have hf := hc.fits id
        rwa [hstage] at hf
      exact .call id rfl (apart_closeLink (Link.resume_shutting_silent _ hjob) fun _ hk =>
        Link.resume_others _ hk)
    · exact .call id rfl (apart_greeted c id _ _)
    · exact .stay draw c _ rfl

theorem handles_lapse (draw : Nat) (hs : c.Sensible) :
    Handles draw c (.lapse id) (lapse draw c id) := by
  unfold lapse
  split
  · next goal due hstage =>
    obtain ⟨q, hwants, hq⟩ := hs.wants id goal _ hstage
    split
    · next d hd =>
      split
      · have hanswered : Apart draw id c (engage draw c id goal none
            (c.link.answered (c.pick draw) id (.error (noAck d)))) :=
          apart_engage none (Link.answered_error_seeks _ hwants _) hq
            (fun hr => ⟨_, hstage, hr⟩) fun _ hk => Link.answered_others _ hk _
        exact .call id rfl (hanswered.front ⟨rfl, by simp⟩ (by simp))
      · exact .stay draw c _ rfl
    · exact .stay draw c _ rfl
  · next s left due hstage =>
    split
    · exact .call id rfl (apart_submit draw c id rfl fun _ => ⟨_, hstage, rfl⟩)
    · exact .stay draw c _ rfl
  · exact .call id rfl (apart_greeted c id _ _)
  · split
    · split
      · exact .talks rfl (talks_expel c id _ _)
      · exact .stay draw c _ rfl
    · exact .stay draw c _ rfl
  · exact .stay draw c _ rfl

theorem effect_of_abandon {x : Effect} (h : x ∈ (c.abandon id).2) :
    (∃ who, x = .withdraw who) ∨ ∃ who, x = .wake who := by
  have horder (h : x ∈ (c.link.abandon id : Link.Turn Request Reply).orders.map ofOrder) :
      (∃ who, x = .withdraw who) ∨ ∃ who, x = .wake who := by
    obtain ⟨o, ho, rfl⟩ := List.mem_map.1 h
    rcases Link.abandon_orders ho with ⟨k, rfl⟩ | ⟨k, rfl⟩
    · exact .inl ⟨_, rfl⟩
    · exact .inr ⟨_, rfl⟩
  unfold abandon at h
  dsimp only at h
  split at h
  · exact .inl ⟨_, List.mem_singleton.1 h⟩
  · exact .inl ⟨_, List.mem_singleton.1 h⟩
  · exact horder h
  · exact horder h
  · cases h

theorem job_of_abandon {j : Link.Job Request}
    (h : (c.abandon id).1.link.jobs.get? id = some j) : c.link.jobs.get? id = some j := by
  have hnone : (c.link.abandon id : Link.Turn Request Reply).link.jobs.get? id = none :=
    Link.abandon_forgets c.link id
  unfold abandon at h
  dsimp only at h
  split at h
  · exact h
  · exact h
  · cases hnone.symm.trans h
  · cases hnone.symm.trans h
  · exact h

theorem apart_abandon (c : Client) (id : CallId) : Apart draw id c (c.abandon id) := by
  obtain ⟨⟨l, hl, hjobs⟩, -⟩ := abandon_erases c id
  have hneither {x : Effect} (hw : ∀ who, x ≠ .withdraw who) (hr : ∀ who, x ≠ .wake who) :
      x ∉ (c.abandon id).2 := fun hx => by
    rcases effect_of_abandon hx with ⟨who, rfl⟩ | ⟨who, rfl⟩
    · exact hw who rfl
    · exact hr who rfl
  have hcalls : ∀ k, (c.abandon id).1.calls.get? k = if k = id then none else c.calls.get? k :=
    fun k => by rw [hl, Table.get?_erase]
  exact {
    frame := ⟨l, c.calls.erase id, hl⟩
    calls := fun k hk => by rw [hcalls, if_neg hk]
    jobs := fun k hk => by
      rw [hl]
      exact hjobs k hk
    joining := fun s a => by simp [hcalls]
    resolving := fun h => by simp [Resolving, hcalls] at h
    probing := fun rest h => by simp [hcalls] at h
    wants := fun goal due h => by simp [hcalls] at h
    asked := fun q hq => .inl (by
      obtain ⟨e, conn, hj, he⟩ := asked_eq_some.1 hq
      exact asked_eq_some.2 ⟨e, conn, job_of_abandon hj, he⟩)
    requests := fun who conn q hr => absurd hr (hneither (by simp) (by simp))
    dials := fun k a hd => absurd (mem_dials.1 hd) (hneither (by simp) (by simp))
    refreshed := fun k s => hneither (by simp) (by simp) }

theorem step_deals (draw : Nat) (hc : c.Coherent) (hs : c.Sensible) (e : Event) :
    Deals draw c e (step draw c e) := by
  cases e with
  | start id op => exact deals_start draw op
  | dialed id r => exact .other rfl rfl (handles_dialed draw hs r)
  | answered who r => exact deals_answered draw hc hs who r
  | chosen id partition =>
    refine .other rfl rfl ?_
    simp only [step, chosen]
    split
    · exact .call id rfl
        (apart_submit draw c id (.inl ⟨_, _, _, _, rfl⟩) (by simp [Goal.resolves]))
    · exact .stay draw c _ rfl
  | run who => exact .other rfl rfl (handles_run draw hc hs who)
  | item id i => exact .other rfl rfl (handles_turn draw c rfl)
  | ended id => exact .other rfl rfl (handles_turn draw c rfl)
  | unsubscribe id => exact .other rfl rfl (.talks rfl (talks_unsubscribe c id))
  | abandon id => exact .other rfl rfl (.call id rfl (apart_abandon c id))
  | lapse id => exact .other rfl rfl (handles_lapse draw hs)
  | tick now => exact .other rfl rfl (.ticks now rfl rfl)
  | expire => exact .other rfl rfl (.expires rfl rfl)

end Events

end StreamClient.Client
