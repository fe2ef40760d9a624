import StreamClient.Proofs.Client.Lives

/-! The calls that publish: what one sends is what it was started for, and only the dialer or a
broker that was sent it can tell it that a deadline passed. -/

namespace StreamClient

theorem CallError.ofPublish_eq_deadlineExceeded {f f' : Fault} :
    ofPublish f = .deadlineExceeded f' ↔ f.status = .deadlineExceeded ∧ f = f' := by
  unfold ofPublish
  split <;> simp_all

namespace Client

open Session (Deed)

/-- The RPC that a call is there for, and who issues it: a call that publishes does so itself. -/
def Op.rpc? (id : CallId) : Op → Option (Party × Method)
  | .publish .. => some (.caller id, .publish)
  | .publishToSubject .. => some (.caller id, .publishToSubject)
  | .subscribe .. => some (.session id, .subscribe)
  | _ => none

def Issued (effects : List Effect) (who : Party) (method : Method) : Prop :=
  ∃ conn q, .call who conn q ∈ effects ∧ q.method = method

theorem Issued.mono {effects effects' : List Effect} {who : Party} {method : Method}
    (h : Issued effects who method) (hsub : effects ⊆ effects') : Issued effects' who method := by
  obtain ⟨conn, q, hq, hmethod⟩ := h
  exact ⟨conn, q, hsub hq, hmethod⟩

/-- The dial of a publish that was too slow. -/
def DialsLate (c : Client) (id : CallId) (e : Event) : Prop :=
  ∃ f due, e = .dialed id (.error f) ∧ f.status = .deadlineExceeded ∧
    c.calls.get? id = some (.linking .publish due)

def Carries (effects : List Effect) (id : CallId) (q : Request) : Link.Job Request → Prop
  | .seeking e | .dialing e | .retiring e _ => e.Serves q
  | .calling e conn => e.Serves q ∧ .call (.caller id) conn q ∈ effects
  | .shutting => False

structure Publishes (effects : List Effect) (method : Method) (c : Client) (id : CallId) :
    Prop where
  drafted : ∀ d, c.calls.get? id = some (.choosing d) → method = .publish
  carried : ∀ due, c.calls.get? id = some (.linking .publish due) →
    ∃ q j, q.method = method ∧ c.link.jobs.get? id = some j ∧ Carries effects id q j

/-- What a move is for a call that publishes with `method`. -/
structure Proceeds (effects : List Effect) (method : Method) (id : CallId) (c : Client) (e : Event)
    (m : Move) : Prop where
  publishes : Publishes (effects ++ m.2) method m.1 id
  missed : ∀ f, .finish id (.error (.deadlineExceeded f)) ∈ m.2 →
    Issued effects (.caller id) method ∨ c.DialsLate id e

section Publishing

variable {effects : List Effect} {id : CallId} {method : Method} {c : Client} {e : Event}
  {q : Request}

theorem Carries.mono {effects' : List Effect} {j : Link.Job Request} (h : Carries effects id q j)
    (hsub : effects ⊆ effects') : Carries effects' id q j := by
  cases j with
  | calling e conn => exact ⟨h.1, hsub h.2⟩
  | _ => exact h

theorem Publishes.mono {effects' : List Effect} (h : Publishes effects method c id)
    (hsub : effects ⊆ effects') : Publishes effects' method c id where
  drafted := h.drafted
  carried due hd := by
    obtain ⟨q, j, hmethod, hj, hcarries⟩ := h.carried due hd
    exact ⟨q, j, hmethod, hj, hcarries.mono hsub⟩

theorem Proceeds.after {before : List Effect} {m : Move} (h : Proceeds effects method id c e m)
    (hp : Plain before) : Proceeds effects method id c e (m.after before) where
  publishes := by
    refine h.publishes.mono fun x hx => ?_
    rcases List.mem_append.1 hx with hx | hx
    · exact List.mem_append_left _ hx
    · exact List.mem_append_right _ (List.mem_append_right _ hx)
  missed f hf := h.missed f ((List.mem_append.1 hf).resolve_left (hp.2 id _))

theorem Publishes.still {m : Move} (h : Publishes effects method c id)
    (hcalls : ∀ stage, ¬ Rests (some stage) → m.1.calls.get? id = some stage →
      c.calls.get? id = some stage)
    (hjobs : m.1.link.jobs.get? id = c.link.jobs.get? id)
    (hfinish : ∀ r, .finish id r ∉ m.2) : Proceeds effects method id c e m where
  publishes := {
    drafted := fun d hd => h.drafted d (hcalls _ (by simp [Rests]) hd)
    carried := fun due hd => by
      obtain ⟨q, j, hmethod, hj, hcarries⟩ := h.carried due (hcalls _ (by simp [Rests]) hd)
      exact ⟨q, j, hmethod, hjobs.trans hj, hcarries.mono (List.subset_append_left _ _)⟩ }
  missed f hf := absurd hf (hfinish _)

theorem Publishes.stay (h : Publishes effects method c id) :
    Proceeds effects method id c e c.stay :=
  h.still (fun _ _ hs => hs) rfl (by simp [Client.stay])

theorem proceeds_over {m : Move} (hcalls : m.1.calls.get? id = none)
    (hmissed : ∀ f, .finish id (.error (.deadlineExceeded f)) ∈ m.2 →
      Issued effects (.caller id) method ∨ c.DialsLate id e) :
    Proceeds effects method id c e m where
  publishes := {
    drafted := by simp [hcalls]
    carried := by simp [hcalls] }
  missed := hmissed

theorem proceeds_running (draw : Nat) (due : Option Nat) {t : Link.Turn Request Reply}
    {j : Link.Job Request} (hr : t.ending = none) (hj : t.link.jobs.get? id = some j)
    (hcarries : Carries (effects ++ t.orders.map ofOrder) id q j) :
    Proceeds effects q.method id c e (engage draw c id .publish due t) := by
  simp only [engage, follow, hr]
  exact {
    publishes := {
      drafted := fun d hd => by simp at hd
      carried := fun _ _ => ⟨q, j, rfl, hj, hcarries⟩ }
    missed := fun f hf => absurd hf ((plain_map_ofOrder t.orders).2 id _) }

theorem mem_effects_of_asks {orders : List (Link.Order Request)} {conn : Conn}
    (h : Link.asks orders = [.call id conn q]) :
    .call (.caller id) conn q ∈ effects ++ orders.map ofOrder := by
  have hmem : .call id conn q ∈ Link.asks orders := by simp [h]
  exact List.mem_append_right _ (List.mem_map_of_mem (List.mem_filter.1 hmem).1)

theorem proceeds_engage (draw : Nat) (due : Option Nat) {n m : Nat}
    {told : Option (Except Fault Reply)} {t : Link.Turn Request Reply}
    (h : Link.Advances id q n m told t)
    (htold : ∀ f, told = some (.error f) → f.status = .deadlineExceeded →
      Issued effects (.caller id) q.method ∨ c.DialsLate id e) :
    Proceeds effects q.method id c e (engage draw c id .publish due t) := by
  cases h with
  | waiting e' he hroom hr hj ha =>
    rcases hj with hj | ⟨conn, hj⟩
    · exact proceeds_running draw due hr hj he
    · exact proceeds_running draw due hr hj he
  | dialing e' a he hroom hr hj ha => exact proceeds_running draw due hr hj he
  | calling e' conn he hroom hr hj ha =>
    exact proceeds_running draw due hr hj ⟨he, mem_effects_of_asks ha⟩
  | returns r hresult hend hj ha =>
    have hplain := plain_map_ofOrder t.orders
    simp only [engage, follow, hend]
    cases r with
    | ok reply =>
      refine proceeds_over (by simp [settle, Move.after]) fun f hf => ?_
      have hf' := (List.mem_append.1 hf).resolve_left (hplain.2 id _)
      simp [settle, finish] at hf'
    | error f' =>
      refine proceeds_over (by simp [settle, Move.after]) fun f hf => ?_
      have hf' := (List.mem_append.1 hf).resolve_left (hplain.2 id _)
      obtain ⟨-, hresult'⟩ := Effect.finish.inj (List.mem_singleton.1 hf')
      obtain ⟨hstatus, rfl⟩ :=
        CallError.ofPublish_eq_deadlineExceeded.1 (Except.error.inj hresult').symm
      rcases hresult with htold' | ⟨f'', hf'', hunavailable⟩
      · exact htold f' htold' hstatus
      · obtain rfl := Except.error.inj hf''
        rw [Fault.isUnavailable_iff, hstatus] at hunavailable
        cases hunavailable

theorem proceeds_submit (draw : Nat) (c : Client) (e : Event) (effects : List Effect)
    (id : CallId) (q : Request) :
    Proceeds effects q.method id c e (submit draw c id .publish q) :=
  proceeds_engage draw none (Link.submit_advances _ c.link id q) (by simp)

theorem stage_of_publishing {stage : Stage} (h : stage.aim = .publishing) :
    (∃ d, stage = .choosing d) ∨ ∃ due, stage = .linking .publish due := by
  cases stage with
  | choosing d => exact .inl ⟨d, rfl⟩
  | linking goal due =>
    cases goal with
    | publish => exact .inr ⟨due, rfl⟩
    | _ => cases h
  | _ => cases h

theorem Publishes.stages (h : Publishes effects method c id)
    (haim : ∀ stage, c.calls.get? id = some stage → stage.aim = .publishing) :
    c.calls.get? id = none ∨ (∃ d, c.calls.get? id = some (.choosing d) ∧ method = .publish) ∨
      ∃ due q j, c.calls.get? id = some (.linking .publish due) ∧ q.method = method ∧
        c.link.jobs.get? id = some j ∧ Carries effects id q j := by
  cases hs : c.calls.get? id with
  | none => exact .inl rfl
  | some stage =>
    rcases stage_of_publishing (haim stage hs) with ⟨d, rfl⟩ | ⟨due, rfl⟩
    · exact .inr (.inl ⟨d, rfl, h.drafted d hs⟩)
    · obtain ⟨q, j, hmethod, hj, hcarries⟩ := h.carried due hs
      exact .inr (.inr ⟨due, q, j, rfl, hmethod, hj, hcarries⟩)

theorem proceeds_dialed (draw : Nat) (h : Publishes effects method c id)
    (haim : ∀ stage, c.calls.get? id = some stage → stage.aim = .publishing)
    (hd : c.isDialing id = true) (r : Except Fault Conn) :
    Proceeds effects method id c (.dialed id r) (dialed draw c id r) := by
  rcases h.stages haim with hs | ⟨d, hs, -⟩ | ⟨due, q, j, hs, rfl, hj, hcarries⟩
  · simp [isDialing, hs] at hd
  · simp [isDialing, hs] at hd
  · obtain ⟨e', hj'⟩ := dialing_of_isDialing hs hd
    obtain rfl := Option.some.inj (hj.symm.trans hj')
    simp only [dialed, hs]
    refine proceeds_engage draw due (Link.dialed_advances _ r hj hcarries) fun f hf hstatus => ?_
    cases r with
    | ok conn => cases hf
    | error f' =>
      obtain rfl := Except.error.inj (Option.some.inj hf)
      exact .inr ⟨f', due, rfl, hstatus, hs⟩

theorem proceeds_answer (draw : Nat) (due : Option Nat) (r : Except Fault Reply)
    {j : Link.Job Request} (hj : c.link.jobs.get? id = some j) (hcarries : Carries effects id q j) :
    Proceeds effects q.method id c e
      (engage draw c id .publish due (c.link.answered (c.pick draw) id r)) := by
  cases j with
  | calling e' conn =>
    refine proceeds_engage draw due (Link.answered_advances _ r hj hcarries.1) fun _ _ _ => ?_
    exact .inl ⟨conn, q, hcarries.2, rfl⟩
  | _ =>
    -- nobody waits for this answer, and the link ignores it
    have hidle : c.link.answered (c.pick draw) id r = { link := c.link } := by
      simp [Link.answered, hj]
    rw [hidle]
    exact proceeds_running draw due rfl hj (hcarries.mono (List.subset_append_left _ _))

theorem proceeds_answered (draw : Nat) (h : Publishes effects method c id)
    (haim : ∀ stage, c.calls.get? id = some stage → stage.aim = .publishing)
    (r : Except Fault Reply) :
    Proceeds effects method id c (.answered (.caller id) r) (answered draw c r (.caller id)) := by
  rcases h.stages haim with hs | ⟨d, hs, -⟩ | ⟨due, q, j, hs, rfl, hj, hcarries⟩
  · simp only [answered, hs]
    exact h.stay
  · simp only [answered, hs]
    exact h.stay
  · simp only [answered, hs]
    exact proceeds_answer draw due r hj hcarries

theorem proceeds_chosen (draw : Nat) (h : Publishes effects method c id)
    (haim : ∀ stage, c.calls.get? id = some stage → stage.aim = .publishing) (partition : Int32) :
    Proceeds effects method id c (.chosen id partition) (chosen draw c id partition) := by
  rcases h.stages haim with hs | ⟨d, hs, rfl⟩ | ⟨due, q, j, hs, rfl, hj, hcarries⟩
  · simp only [chosen, hs]
    exact h.stay
  · simp only [chosen, hs]
    exact proceeds_submit draw c _ effects id (.publish d.stream partition d.payload d.deadline)
  · simp only [chosen, hs]
    exact h.stay

theorem proceeds_run (draw : Nat) (h : Publishes effects method c id)
    (haim : ∀ stage, c.calls.get? id = some stage → stage.aim = .publishing) :
    Proceeds effects method id c (.run (.caller id)) (run draw c (.caller id)) := by
  rcases h.stages haim with hs | ⟨d, hs, -⟩ | ⟨due, q, j, hs, rfl, hj, hcarries⟩
  · simp only [run, hs]
    exact h.stay
  · simp only [run, hs]
    exact h.stay
  · simp only [run, hs]
    have hresumes {e' : Link.Errand Request} (he : e'.Serves q)
        (hj' : c.link.jobs.get? id = some (.seeking e') ∨
          ∃ conn, c.link.jobs.get? id = some (.retiring e' conn)) :
        Proceeds effects q.method id c (.run (.caller id))
          (engage draw c id .publish due (c.link.resume (c.pick draw) id)) :=
      proceeds_engage draw due (Link.resume_advances _ hj' he) (by simp)
    cases j with
    | seeking e' => exact hresumes hcarries (.inl hj)
    | retiring e' conn => exact hresumes hcarries (.inr ⟨conn, hj⟩)
    | shutting => exact hcarries.elim
    | dialing e' | calling e' conn =>
      -- it does not wait for the lock
      rw [Link.resume_idle _ (by simp [hj]) (by simp [hj]) (by simp [hj])]
      exact proceeds_running draw due rfl hj (hcarries.mono (List.subset_append_left _ _))

theorem proceeds_lapse (draw : Nat) (h : Publishes effects method c id)
    (haim : ∀ stage, c.calls.get? id = some stage → stage.aim = .publishing) :
    Proceeds effects method id c (.lapse id) (lapse draw c id) := by
  rcases h.stages haim with hs | ⟨d, hs, -⟩ | ⟨due, q, j, hs, rfl, hj, hcarries⟩
  · simp only [lapse, hs]
    exact h.stay
  · simp only [lapse, hs]
    exact h.stay
  · cases due with
    | none =>
      simp only [lapse, hs]
      exact h.stay
    | some due =>
      simp only [lapse, hs]
      split
      · next d hd =>
        split
        · -- the client answers in place of the broker that it waits for
          have hanswer := proceeds_answer draw none (.error (noAck d)) hj hcarries (e := .lapse id)
          exact hanswer.after ⟨fun _ => rfl, by simp⟩
        · exact h.stay
      · exact h.stay

theorem proceeds_abandon (effects : List Effect) (method : Method) (c : Client) (id : CallId) :
    Proceeds effects method id c (.abandon id) (c.abandon id) :=
  proceeds_over (calls_abandon c id) fun _ hf => absurd hf ((plain_abandon c id).2 id _)

theorem proceeds_start (draw : Nat) (c : Client) {op : Op}
    (hop : op.rpc? id = some (.caller id, method)) :
    Proceeds effects method id c (.start id op) (start draw c id op) := by
  unfold start
  split
  · exact proceeds_over (by simp) fun f hf => by simp [finish] at hf
  · cases op with
    | publish stream value o =>
      obtain rfl : Method.publish = method := by simpa [Op.rpc?] using hop
      simp only [openCall]
      split
      · next p hp =>
        exact proceeds_submit draw c _ effects id (.publish stream p (o.payload value) o.deadline)
      · exact {
          publishes := {
            drafted := fun _ _ => rfl
            carried := fun due hd => by simp at hd }
          missed := fun f hf => by simp at hf }
    | publishToSubject subject value o =>
      obtain rfl : Method.publishToSubject = method := by simpa [Op.rpc?] using hop
      exact proceeds_submit draw c _ effects id
        (.publishToSubject subject (o.payload value) o.deadline)
    | _ => simp [Op.rpc?] at hop

theorem proceeds_turn (draw : Nat) (h : Publishes effects method c id) {k : CallId}
    {stimulus : Session.Stimulus} (hturn : e.turn? = some (k, stimulus)) :
    Proceeds effects method id c e (step draw c e) := by
  cases hs : c.sessions.get? k with
  | none =>
    rw [step_of_turn draw hturn, stimulate, hs]
    exact h.stay
  | some s =>
    have hturned := turned_step draw hturn hs
    -- a turn moves only a caller that waits for the handshake, and no publish does
    refine h.still (fun stage hrests hstage => ?_) ?_ (hturned.finish id)
    · by_cases hk : id = k
      · subst hk
        rcases hturned.stage with hsame | ⟨s', verdict, due, -, hafter, -⟩
        · exact hsame ▸ hstage
        · obtain rfl := Option.some.inj (hafter.symm.trans hstage)
          exact absurd trivial hrests
      · exact hturned.calls id hk ▸ hstage
    · obtain ⟨calls, sessions, pools, hframe⟩ := stimulate_frame c k stimulus
      rw [step_of_turn draw hturn, hframe]

theorem Publishes.step (h : Publishes effects method c id) (draw : Nat) (hc : c.Coherent)
    (hpooled : c.Pooled) (hd : ∀ r, e = .dialed id r → c.isDialing id = true)
    (haim : ∀ stage, c.calls.get? id = some stage → stage.aim = .publishing)
    (hop : ∀ op, e = .start id op → op.rpc? id = some (.caller id, method)) :
    Proceeds effects method id c e (step draw c e) := by
  cases hturn : e.turn? with
  | some turn => exact proceeds_turn draw h hturn
  | none =>
    by_cases he : e.caller? = some id
    · cases Event.ofCall he with
      | start op => exact proceeds_start draw c (hop op rfl)
      | dialed r => exact proceeds_dialed draw h haim (hd r rfl) r
      | answered r => exact proceeds_answered draw h haim r
      | chosen partition => exact proceeds_chosen draw h haim partition
      | run => exact proceeds_run draw h haim
      | abandon => exact proceeds_abandon effects method c id
      | lapse => exact proceeds_lapse draw h haim
    · -- an event of another call, or of none
      obtain ⟨hcalls, hjobs, hfinish⟩ := (aside_step draw hc hpooled hturn).away id he
      exact h.still (fun _ _ hs => hcalls ▸ hs) hjobs hfinish

end Publishing

end Client

end StreamClient
