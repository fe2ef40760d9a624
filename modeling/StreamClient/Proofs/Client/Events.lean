import StreamClient.Proofs.Client.Coherence

/-! Every event, one after another: none does more than a step may do. -/

namespace StreamClient.Client

/-- An event that the surroundings of the client can bring about: a call starts under a number of its
own, the build first and alone, and a dial ends that is open. -/
def Admits (c : Client) : Event → Prop
  | .start id op =>
    c.calls.get? id = none ∧ c.sessions.get? id = none ∧
      if op = .connect then
        c.link.cached = none ∧ (∀ k, c.calls.get? k = none) ∧ ∀ k, c.sessions.get? k = none
      else ∀ k rest, c.calls.get? k ≠ some (.probing rest)
  | .dialed id _ => c.isDialing id = true
  | _ => True

theorem steps_stimulate {c : Client} (hc : c.Coherent) {e : Event} (id : CallId)
    (stimulus : Session.Stimulus) (hnews : news e = []) (hgain : c.gain? e = none)
    (hfailing : c.failing? e = none) : Steps c e (c.stimulate id stimulus) := by
  cases hs : c.sessions.get? id with
  | none =>
    simp only [stimulate, hs]
    exact steps_stay hc hnews hgain hfailing
  | some s =>
    have hrests := hc.rests id (by simp [hs])
    exact (acts_stimulate (hc.parked hrests) stimulus).steps_quiet hc (.inr (by simp [hs]))
      hrests.allowed.1 hnews hgain hfailing

theorem steps_unsubscribe {c : Client} (hc : c.Coherent) (id : CallId) :
    Steps c (.unsubscribe id) (c.unsubscribe id) := by
  cases hs : c.sessions.get? id with
  | none =>
    simp only [unsubscribe, hs]
    exact steps_stay hc rfl rfl rfl
  | some s =>
    have hrests := hc.rests id (by simp [hs])
    exact (acts_unsubscribe (hc.parked hrests)).steps_quiet hc (.inr (by simp [hs]))
      hrests.allowed.1 rfl rfl rfl

section Calls

variable {c : Client} {id : CallId}

theorem Coherent.session_none (h : c.Coherent) {stage : Stage} (hs : c.calls.get? id = some stage)
    (hr : ¬ Rests (some stage)) : c.sessions.get? id = none := by
  cases hsome : c.sessions.get? id with
  | none => rfl
  | some s => exact absurd (hs ▸ h.rests id (by simp [hsome])) hr

theorem Coherent.free (h : c.Coherent) {stage : Stage} (hs : c.calls.get? id = some stage)
    (hf : Fits (some stage) none) (hr : ¬ Rests (some stage)) : c.Free id := by
  refine ⟨h.sound, ?_, h.session_none hs hr⟩
  have hj := hs ▸ h.fits id
  cases stage with
  | linking goal due =>
    obtain ⟨j, hj, -⟩ := hf
    cases hj
  | closing => cases hf
  | _ => exact hj

theorem Coherent.linking (h : c.Coherent) {goal : Goal} {due : Option Nat}
    (hs : c.calls.get? id = some (.linking goal due)) :
    (∃ j, c.link.jobs.get? id = some j ∧ j ≠ .shutting) ∧ c.sessions.get? id = none := by
  refine ⟨?_, h.session_none hs (by simp [Rests])⟩
  have hj := h.fits id
  rw [hs] at hj
  exact hj

theorem Coherent.linking_of_job (h : c.Coherent) {j : Link.Job Request}
    (hj : c.link.jobs.get? id = some j) (hne : j ≠ .shutting) :
    ∃ goal due, c.calls.get? id = some (.linking goal due) := by
  have hf := h.fits id
  rw [hj] at hf
  rcases hs : c.calls.get? id with _ | (_ | _ | ⟨goal, due⟩ | _ | _ | _ | _)
  all_goals rw [hs] at hf
  all_goals first
    | exact ⟨goal, due, rfl⟩
    | exact absurd (Option.some.inj hf) hne
    | cases hf

theorem steps_engage (draw : Nat) (hc : c.Coherent) {e : Event} {cause : Link.Cause} {goal : Goal}
    {due due' : Option Nat} {t : Link.Turn Request Reply}
    (hs : c.calls.get? id = some (.linking goal due)) (ht : Link.Takes cause false id c.link t)
    (hnews : news e = cause.gains) (hdialed : ∀ d, c.gain? e = some d ↔ cause = .dialed d)
    (hfailed : ∀ d, c.failing? e = some d ↔ cause = .failed d) (hshut : cause ≠ .shut)
    (hgone : cause ≠ .gone) : Steps c e (engage draw c id goal due' t) := by
  have hid : (c.calls.get? id).isSome ∨ (c.sessions.get? id).isSome := .inl (by simp [hs])
  have hacts : Acts .ordinary cause id c cause.gains (engage draw c id goal due' t) :=
    acts_engage draw ht (hc.linking hs).2
  rw [← hnews] at hacts
  exact hacts.steps hc (hid.imp_right .inl) (fun k rest hk => hc.not_probing hk hid)
    (fun rest hp => absurd hp (hacts.stage.2 rest)) (by simp [hs]) hacts.stage.1 hdialed hfailed hshut
    hgone

theorem steps_submit (draw : Nat) (hc : c.Coherent) {e : Event} {stage : Stage} (goal : Goal)
    (q : Request) (hs : c.calls.get? id = some stage) (hf : Fits (some stage) none)
    (hr : ¬ Rests (some stage)) (hnews : news e = []) (hgain : c.gain? e = none)
    (hfailing : c.failing? e = none) : Steps c e (submit draw c id goal q) := by
  refine (acts_submit draw (hc.free hs hf hr) goal q).steps_quiet hc (.inl (by simp [hs])) ?_ hnews
    hgain hfailing
  rintro hclosing
  rw [hs] at hclosing
  cases hclosing
  cases hf

theorem steps_greeted (hc : c.Coherent) {e : Event} {s s' : Subscription}
    {told : Option (Except Fault Unit)} {due : Option Nat} (verdict : Except Fault Unit)
    (hs : c.calls.get? id = some (.greeting s told due)) (hnews : news e = [])
    (hgain : c.gain? e = none) (hfailing : c.failing? e = none) :
    Steps c e (c.greeted id s' verdict) := by
  have hrests : Rests (c.calls.get? id) := by rw [hs]; trivial
  exact (acts_greeted (hc.parked hrests) s' verdict).steps_quiet hc (.inl (by simp [hs]))
    (by simp [hs]) hnews hgain hfailing

theorem steps_chosen (draw : Nat) (hc : c.Coherent) (partition : Int32) :
    Steps c (.chosen id partition) (chosen draw c id partition) := by
  unfold chosen
  split
  · next d hs => exact steps_submit draw hc _ _ hs rfl (by simp [Rests]) rfl rfl rfl
  · exact steps_stay hc rfl rfl rfl

theorem steps_answered (draw : Nat) (hc : c.Coherent) (who : Party) (r : Except Fault Reply) :
    Steps c (.answered who r) (answered draw c r who) := by
  cases who with
  | session id => exact steps_stimulate hc id _ rfl rfl rfl
  | caller id =>
    simp only [answered]
    split
    · next goal due hs =>
      obtain ⟨⟨j, hj, hne⟩, -⟩ := hc.linking hs
      cases j with
      | calling e conn =>
        have ht := Link.answered_takes (c.pick draw) r hc.sound hj
        refine steps_engage draw hc hs ht ?_ (fun d => ?_) (fun d => ?_) ?_ ?_
        · split <;> rfl
        · simp only [gain?, reduceCtorEq, false_iff]
          split <;> simp
        · simp only [failing?, hj]
          split <;> simp
        · split <;> simp
        · split <;> simp
      | _ =>
        -- nobody waits for this answer, and the link ignores it
        have hidle : c.link.answered (c.pick draw) id r = { link := c.link } := by
          simp [Link.answered, hj]
        rw [hidle]
        exact steps_engage draw hc hs (Link.takes_idle hc.sound hj (iff_of_false hne (by simp)))
          rfl
          (by simp [gain?]) (by simp [failing?, hj]) (by simp) (by simp)
    · next hs =>
      have hfailing : c.failing? (.answered (.caller id) r) = none := by
        simp only [failing?]
        split
        · next hj =>
          obtain ⟨goal, due, hl⟩ := hc.linking_of_job hj (by simp)
          exact absurd hl (hs goal due)
        · rfl
      exact steps_stay hc rfl rfl hfailing

theorem steps_probe (hc : c.Coherent) {e : Event} (last : Option Fault) (addresses : List Address)
    (hid : (c.calls.get? id).isSome ∨ (c.sessions.get? id).isSome ∨ ∃ op, e = .start id op)
    (hfree : c.Free id) (hcached : c.link.cached = none) (hcalls : ∀ k, k ≠ id → c.calls.get? k = none)
    (hsessions : ∀ k, c.sessions.get? k = none) (hclosing : c.calls.get? id ≠ some .closing)
    (hnews : news e = []) (hgain : c.gain? e = none) (hfailing : c.failing? e = none) :
    Steps c e (c.probe id last addresses) := by
  have hacts : Acts .building .quiet id c (news e) (c.probe id last addresses) := by
    rw [hnews]
    cases addresses with
    | nil => exact acts_finish hfree.sound hfree.job _
    | cons a rest => exact acts_wait hfree (.inr ⟨rest, rfl⟩) rfl rfl (by simp)
  have hkept : (c.probe id last addresses).1.link = c.link ∧
      (c.probe id last addresses).1.sessions = c.sessions := by
    cases addresses <;> exact ⟨rfl, rfl⟩
  refine hacts.steps hc hid (fun k rest hk => by simp [hcalls k hk]) (fun rest _ => ?_) hclosing ?_
    (fun d => by simp [hgain]) (fun d => by simp [hfailing]) (by simp) (by simp)
  · rw [hkept.1, hkept.2]
    exact ⟨hcached, fun k hk => (hacts.calls k hk).trans (hcalls k hk), hsessions⟩
  · intro hstage
    have hallowed := hacts.stage
    rw [hstage] at hallowed
    simp [Kind.allows] at hallowed

theorem acts_built (draw : Nat) (hc : c.Coherent) (conn : Conn) {rest : List Address}
    (hs : c.calls.get? id = some (.probing rest)) :
    Acts .ordinary (.dialed conn) id c [conn]
      (submit draw { c with link := { c.link with cached := some conn } } id .connect
        .fetchMetadata) := by
  let c' : Client := { c with link := { c.link with cached := some conn } }
  obtain ⟨hcached, hcalls, -⟩ := hc.building id rest hs
  have hfree := hc.free hs rfl (by simp [Rests])
  -- nobody else is there to dial
  have hjobs : ∀ k, c.link.jobs.get? k = none := by
    intro k
    by_cases hk : k = id
    · exact hk ▸ hfree.job
    · have hf := hc.fits k
      rw [hcalls k hk] at hf
      exact hf
  have hfree' : c'.Free id := by
    refine ⟨fun k e hk => ?_, hfree.job, hfree.session⟩
    exact absurd ((hjobs k).symm.trans hk) (by simp)
  have hlink : c.link.Evolves (.dialed conn) id c'.link := {
      others := fun _ _ => rfl
      gained := fun d hd => .inr (by rw [Option.some.inj hd])
      dialed := fun d hd => .inl (by cases hd; rfl)
      lost := fun d hd => absurd (hcached.symm.trans hd) (by simp)
      calling := fun e d he => .inr (.inr ⟨e, he⟩)
      retiring := fun e d he => .inr ⟨e, he⟩
      retired := fun d hd => by simp [hjobs id] at hd
      shut := fun hd => by cases hd }
  have hsubmit := acts_submit draw hfree' .connect .fetchMetadata
  refine hsubmit.behind (hlink.trans hsubmit.link) (fun _ _ => rfl) (fun _ _ => rfl) (fun x => ?_)
    (fun x hx => absurd (hcached.symm.trans hx) (by simp)) rfl
  simp [c', total, hcached]
  omega

theorem steps_dialed (draw : Nat) (hc : c.Coherent) (r : Except Fault Conn)
    (h : c.isDialing id = true) :
    Steps c (.dialed id r) (dialed draw c id r) := by
  rcases hs : c.calls.get? id with _ | stage
  · simp [isDialing, hs] at h
  have hsome : (c.calls.get? id).isSome ∨ (c.sessions.get? id).isSome := .inl (by simp [hs])
  cases stage with
  | probing rest =>
    obtain ⟨hcached, hcalls, hsessions⟩ := hc.building id rest hs
    have hfree := hc.free hs rfl (by simp [Rests])
    cases r with
    | ok conn =>
      simp only [dialed, hs]
      have hacts := acts_built draw hc conn hs
      exact hacts.steps hc (hsome.imp_right .inl) (fun k _ hk => by simp [hcalls k hk])
        (fun rest hp => absurd hp (hacts.stage.2 rest)) (by simp [hs]) hacts.stage.1
        (fun d => by simp [gain?, hs]) (fun d => by simp [failing?]) (by simp) (by simp)
    | error f =>
      simp only [dialed, hs]
      exact steps_probe hc _ _ (hsome.imp_right .inl) hfree hcached hcalls hsessions (by simp [hs])
        rfl rfl rfl
  | linking goal due =>
    obtain ⟨e, hj⟩ := dialing_of_isDialing hs h
    cases r with
    | ok conn =>
      simp only [dialed, hs]
      exact steps_engage draw hc hs (Link.dialed_takes_ok _ conn hc.sound hj) rfl
        (fun d => by simp [gain?, hs]) (fun d => by simp [failing?]) (by simp) (by simp)
    | error f =>
      simp only [dialed, hs]
      exact steps_engage draw hc hs (Link.dialed_takes_error _ f hc.sound hj) rfl (by simp [gain?])
        (by simp [failing?]) (by simp) (by simp)
  | joining s address =>
    have hfree := hc.free hs rfl (by simp [Rests])
    cases r with
    | ok conn =>
      simp only [dialed, hs]
      have hacts := acts_launch hfree s address conn
      exact hacts.steps hc (hsome.imp_right .inl) (fun k rest hk => hc.not_probing hk hsome)
        (fun rest hp => absurd hp (hacts.stage.2 rest)) (by simp [hs]) hacts.stage.1
        (fun d => by simp [gain?, hs]) (fun d => by simp [failing?]) (by simp) (by simp)
    | error f =>
      simp only [dialed, hs]
      exact (acts_finish hfree.sound hfree.job _).steps_quiet hc hsome (by simp [hs]) rfl rfl rfl
  | _ => simp [isDialing, hs] at h

theorem Acts.steps_closing {b : Bool} {cause : Link.Cause} {m : Move} {e : Event}
    (h : Acts .closing cause id { c with closed := b } [] m) (hc : c.Coherent)
    (hid : (c.calls.get? id).isSome ∨ (c.sessions.get? id).isSome ∨ ∃ op, e = .start id op)
    (hb : ∀ k rest, k ≠ id → c.calls.get? k ≠ some (.probing rest)) (hopen : ¬ c.IsShut)
    (hcause : cause = .quiet ∧ m.1.calls.get? id = some .closing ∨ cause = .shut)
    (hnews : news e = []) (hgain : c.gain? e = none) (hfailing : c.failing? e = none) :
    Steps c e m where
  coherent := by
    have hcoherent : Coherent { c with closed := b } := ⟨hc.sound, hc.fits, hc.rests, hc.building⟩
    refine h.coherent hcoherent hb fun rest hp => ?_
    rcases h.stage with hstage | hstage <;> simp [hp] at hstage
  ledger x := by
    rw [hnews]
    exact h.ledger x
  dropped := h.dropped
  grounded := h.grounded
  known := h.known hid
  link := by
    refine ⟨id, cause, h.link, ?_⟩
    rcases hcause with ⟨rfl, hstage⟩ | rfl
    · exact {
        dialed := fun d => by simp [hgain]
        failed := fun d => by simp [hfailing]
        gone := fun hg => by cases hg
        shut := fun hs => by cases hs
        stays := fun hs => absurd hs hopen
        turns := fun hs => absurd hstage (hs.2 id) }
    · exact {
        dialed := fun d => by simp [hgain]
        failed := fun d => by simp [hfailing]
        gone := fun hg => by cases hg
        shut := fun _ => hopen
        stays := fun hs => absurd hs hopen
        turns := fun _ => .inr (.inl rfl) }

theorem closeLink_waits {t : Link.Turn Request Reply} (h : t.ending = none) :
    (c.closeLink id t).1.calls.get? id = some .closing := by
  simp [closeLink, h]

theorem steps_resumeClose (hc : c.Coherent) (pick : Option Address)
    (hs : c.calls.get? id = some .closing) :
    Steps c (.run (.caller id)) (c.closeLink id (c.link.resume pick id)) := by
  have hsession := hc.session_none hs (by simp [Rests])
  have hsome : (c.calls.get? id).isSome ∨ (c.sessions.get? id).isSome := .inl (by simp [hs])
  have hjob : c.link.jobs.get? id = some .shutting := by
    have hf := hc.fits id
    rw [hs] at hf
    exact hf
  have hopen : ¬ c.IsShut := fun h => h.2 id hs
  have hb : ∀ k rest, k ≠ id → c.calls.get? k ≠ some (.probing rest) :=
    fun k rest hk => hc.not_probing hk hsome
  rcases Link.resume_takes_shut (A := Reply) pick hc.sound hjob with ⟨he, ht⟩ | ⟨he, ht⟩
  · exact (acts_closeLink ht hsession).steps_closing hc (hsome.imp_right .inl) hb hopen
      (.inl ⟨rfl, closeLink_waits he⟩) rfl rfl rfl
  · exact (acts_closeLink ht hsession).steps_closing hc (hsome.imp_right .inl) hb hopen (.inr rfl)
      rfl rfl rfl

theorem steps_close (hc : c.Coherent) (hfree : c.Free id)
    (hb : ∀ k rest, k ≠ id → c.calls.get? k ≠ some (.probing rest)) (hcall : c.calls.get? id = none) :
    Steps c (.start id .close) (c.close id) := by
  have hid : (c.calls.get? id).isSome ∨ (c.sessions.get? id).isSome ∨
      ∃ op, Event.start id .close = .start id op := .inr (.inr ⟨_, rfl⟩)
  by_cases hclosed : c.closed = true
  · rw [close, if_pos hclosed]
    have hacts : Acts .ordinary .quiet id c [] (c.finish id (.ok .done)) :=
      acts_finish hfree.sound hfree.job _
    exact hacts.steps hc hid hb (fun rest hp => absurd hp (hacts.stage.2 rest)) (by simp [hcall])
      hacts.stage.1 (by simp [gain?]) (by simp [failing?]) (by simp) (by simp)
  · let c₁ : Client := { c with closed := true }
    let c₂ : Client := c₁.closePools.1
    rw [close, if_neg hclosed]
    -- the pools are closed first, which the link does not notice
    have hmove {cause : Link.Cause} (hgains : cause.gains = [])
        (ht : Link.Takes cause true id c.link (c.link.shut id : Link.Turn Request Reply)) :
        Acts .closing cause id c₁ []
          ((c₂.closeLink id (c₂.link.shut id)).after c₁.closePools.2) := by
      have hacts : Acts .closing cause id c₂ cause.gains (c₂.closeLink id (c₂.link.shut id)) :=
        acts_closeLink ht hfree.session
      refine hacts.after hacts.link (fun _ _ => rfl) (fun _ _ => rfl) (fun x => ?_)
        (fun _ hx => .inl hx) ?_ rfl
      · rw [hgains, List.count_nil, Nat.add_zero]
        exact c₁.total_pools Pool.close x fun p => p.count_close x
      · simp [closePools]
    have hopen : ¬ c.IsShut := fun h => hclosed h.1
    have hjob : ∀ e conn, c.link.jobs.get? id ≠ some (.retiring e conn) := by simp [hfree.job]
    rcases Link.shut_takes (A := Reply) hc.sound hjob with ⟨he, ht⟩ | ⟨he, ht⟩
    · exact (hmove rfl ht).steps_closing hc hid hb hopen
        (.inl ⟨rfl, closeLink_waits (c := c₂) he⟩) rfl rfl rfl
    · exact (hmove rfl ht).steps_closing hc hid hb hopen (.inr rfl) rfl rfl rfl

theorem steps_run (draw : Nat) (hc : c.Coherent) (who : Party) :
    Steps c (.run who) (run draw c who) := by
  cases who with
  | session id => exact steps_stimulate hc id _ rfl rfl rfl
  | caller id =>
    simp only [run]
    split
    · next goal due hs =>
      obtain ⟨⟨j, hj, hne⟩, -⟩ := hc.linking hs
      exact steps_engage draw hc hs (Link.resume_takes _ hc.sound hj hne) rfl (by simp [gain?])
        (by simp [failing?]) (by simp) (by simp)
    · next hs => exact steps_resumeClose hc _ hs
    · next s verdict due hs => exact steps_greeted hc verdict hs rfl rfl rfl
    · exact steps_stay hc rfl rfl rfl

theorem steps_lapse (draw : Nat) (hc : c.Coherent) : Steps c (.lapse id) (lapse draw c id) := by
  unfold lapse
  split
  · next goal due hs =>
    obtain ⟨⟨j, hj, hne⟩, hsession⟩ := hc.linking hs
    split
    · next d hd =>
      split
      · -- only a call that waits for its answer has a request that it was asked with
        obtain ⟨e, conn, rfl⟩ : ∃ e conn, j = .calling e conn := by
          cases j <;> simp_all [asked]
        have ht := Link.answered_takes (c.pick draw) (.error (noAck d) : Except Fault Reply) hc.sound hj
        have hacts : Acts .ordinary .quiet id c [] (engage draw c id goal none
            (c.link.answered (c.pick draw) id (.error (noAck d)))) := acts_engage draw ht hsession
        exact (hacts.front rfl (by simp)).steps_quiet hc (.inl (by simp [hs])) (by simp [hs]) rfl rfl
          rfl
      · exact steps_stay hc rfl rfl rfl
    · exact steps_stay hc rfl rfl rfl
  · next s left due hs =>
    split
    · exact steps_submit draw hc _ _ hs rfl (by simp [Rests]) rfl rfl rfl
    · exact steps_stay hc rfl rfl rfl
  · next s verdict due hs => exact steps_greeted hc verdict hs rfl rfl rfl
  · next s due hs =>
    split
    · next d hd =>
      split
      · have hrests : Rests (c.calls.get? id) := by rw [hs]; trivial
        exact (acts_expelled (hc.parked hrests) s _).steps_quiet hc (.inl (by simp [hs]))
          (by simp [hs]) rfl rfl rfl
      · exact steps_stay hc rfl rfl rfl
    · exact steps_stay hc rfl rfl rfl
  · exact steps_stay hc rfl rfl rfl

theorem acts_openCall (draw : Nat) (hfree : c.Free id) (op : Op) (hconnect : op ≠ .connect)
    (hclose : op ≠ .close) : Acts .ordinary .quiet id c [] (openCall draw c id op) := by
  cases op with
  | connect => exact absurd rfl hconnect
  | close => exact absurd rfl hclose
  | createStream name o =>
    simp only [openCall]
    split
    · exact acts_finish hfree.sound hfree.job _
    · exact acts_submit draw hfree _ _
  | publish stream value o =>
    simp only [openCall]
    split
    · exact acts_submit draw hfree _ _
    · exact acts_wait hfree (by simp [Kind.allows]) rfl rfl (by simp)
  | subscribe stream o => exact acts_lookup draw hfree _ _
  | deleteStream name => exact acts_submit draw hfree _ _
  | publishToSubject subject value o => exact acts_submit draw hfree _ _
  | fetchMetadata => exact acts_submit draw hfree _ _

theorem steps_start (draw : Nat) (hc : c.Coherent) (op : Op) (h : c.Admits (.start id op)) :
    Steps c (.start id op) (start draw c id op) := by
  obtain ⟨hcall, hsession, hop⟩ := h
  have hfree : c.Free id := by
    refine ⟨hc.sound, ?_, hsession⟩
    have hf := hc.fits id
    rw [hcall] at hf
    exact hf
  have hid : (c.calls.get? id).isSome ∨ (c.sessions.get? id).isSome ∨
      ∃ op', Event.start id op = .start id op' := .inr (.inr ⟨op, rfl⟩)
  have hquiet {m : Move} (hb : ∀ k rest, k ≠ id → c.calls.get? k ≠ some (.probing rest))
      (hm : Acts .ordinary .quiet id c [] m) : Steps c (.start id op) m :=
    hm.steps hc hid hb (fun rest hp => absurd hp (hm.stage.2 rest)) (by simp [hcall]) hm.stage.1
      (by simp [gain?]) (by simp [failing?]) (by simp) (by simp)
  by_cases hconnect : op = .connect
  · subst hconnect
    obtain ⟨hcached, hcalls, hsessions⟩ : c.link.cached = none ∧ (∀ k, c.calls.get? k = none) ∧
        ∀ k, c.sessions.get? k = none := by simpa using hop
    have hb : ∀ k rest, k ≠ id → c.calls.get? k ≠ some (.probing rest) := by simp [hcalls]
    unfold start
    split
    · exact hquiet hb (acts_finish hfree.sound hfree.job _)
    · simp only [openCall, connect]
      split
      · exact hquiet hb (acts_finish hfree.sound hfree.job _)
      · exact steps_probe hc _ _ hid hfree hcached (fun k _ => hcalls k) hsessions (by simp [hcall])
          rfl rfl rfl
  · have hb : ∀ k rest, k ≠ id → c.calls.get? k ≠ some (.probing rest) := by
      rw [if_neg hconnect] at hop
      exact fun k rest _ => hop k rest
    unfold start
    split
    · exact hquiet hb (acts_finish hfree.sound hfree.job _)
    · by_cases hclose : op = .close
      · subst hclose
        exact steps_close hc hfree hb hcall
      · exact hquiet hb (acts_openCall draw hfree op hconnect hclose)

theorem abandon_frame (hc : c.Coherent) (id : CallId) :
    (c.abandon id).1 = { c with
      calls := c.calls.erase id
      link := (c.link.abandon id : Link.Turn Request Reply).link } ∧
    closes (c.abandon id).2 = [] ∧ ∀ who conn q, .call who conn q ∉ (c.abandon id).2 := by
  have habandons : Link.Abandons id c.link (c.link.abandon id : Link.Turn Request Reply) :=
    Link.abandon_abandons hc.sound
  have hlink (h : c.link.jobs.get? id = none) :
      (c.link.abandon id : Link.Turn Request Reply).link = c.link := by simp [Link.abandon, h]
  have hf := hc.fits id
  have horders : closes ((c.link.abandon id : Link.Turn Request Reply).orders.map ofOrder) = [] ∧
      ∀ who conn q, .call who conn q ∉
        (c.link.abandon id : Link.Turn Request Reply).orders.map ofOrder := by
    refine ⟨by rw [closes_map_ofOrder, habandons.closed], fun who conn q hq => ?_⟩
    obtain ⟨k, hk⟩ := mem_map_ofOrder hq
    exact habandons.calls k conn q hk
  rcases hs : c.calls.get? id with _ | (_ | _ | _ | _ | _ | _ | _)
  all_goals rw [hs] at hf
  all_goals simp only [abandon, hs]
  all_goals first
    | exact ⟨trivial, horders⟩
    | exact ⟨by rw [hlink hf], by simp [closes], by simp⟩

theorem steps_abandon (hc : c.Coherent) : Steps c (.abandon id) (c.abandon id) := by
  have habandons : Link.Abandons id c.link (c.link.abandon id : Link.Turn Request Reply) :=
    Link.abandon_abandons hc.sound
  obtain ⟨hframe, hcloses, hcalls⟩ := abandon_frame hc id
  -- whatever the call was at, it is erased and nothing else moves
  have hkept : ∀ k, (c.abandon id).1.calls.get? k = if k = id then none else c.calls.get? k := by
    intro k
    rw [hframe, Table.get?_erase]
  have hcalls' : ∀ k, k ≠ id → (c.abandon id).1.calls.get? k = c.calls.get? k := fun k hk => by
    rw [hkept, if_neg hk]
  have hgone : (c.abandon id).1.calls.get? id = none := by rw [hkept, if_pos rfl]
  have hlink : (c.abandon id).1.link = (c.link.abandon id : Link.Turn Request Reply).link := by
    rw [hframe]
  have hsessions : (c.abandon id).1.sessions = c.sessions := by rw [hframe]
  exact {
    coherent := {
      sound := hlink ▸ habandons.sound
      fits := fun k => by
        by_cases hk : k = id
        · rw [hk, hgone, hlink]
          exact habandons.ended
        · rw [hcalls' k hk, hlink, habandons.others k hk]
          exact hc.fits k
      rests := fun k hs => by
        rw [hsessions] at hs
        by_cases hk : k = id
        · rw [hk, hgone]
          trivial
        · rw [hcalls' k hk]
          exact hc.rests k hs
      building := fun k rest hp => by
        have hk : k ≠ id := by
          rintro rfl
          rw [hgone] at hp
          cases hp
        obtain ⟨hcached, hothers, hnone⟩ := hc.building k rest (hcalls' k hk ▸ hp)
        rw [hlink, habandons.cached, hsessions]
        refine ⟨hcached, fun k' hk' => ?_, hnone⟩
        rw [hkept]
        split
        · rfl
        · exact hothers k' hk' }
    ledger := fun x => by
      rw [hcloses, hframe]
      simp [total, habandons.cached, news]
    dropped := fun x hx => .inl (by rw [hlink, habandons.cached]; exact hx)
    grounded := fun who conn q hq => absurd hq (hcalls who conn q)
    known := fun k hk => by
      rw [hkept, hsessions] at hk
      split at hk
      · exact .inr (.inl (hk.resolve_left (by simp)))
      · exact hk.imp_right .inl
    link := ⟨id, .gone, hlink ▸ habandons.toEvolves, {
      dialed := by simp [gain?]
      failed := by simp [failing?]
      gone := fun _ => ⟨id, rfl, fun h => by rw [hframe] at h; exact h.1⟩
      shut := fun h => by cases h
      stays := fun h => by
        refine ⟨by rw [hframe]; exact h.1, fun k => ?_⟩
        rw [hkept]
        split
        · simp
        · exact h.2 k
      turns := fun _ => .inr (.inr rfl) }⟩ }

end Calls

theorem steps_tick {c : Client} (hc : c.Coherent) (now : Nat) :
    Steps c (.tick now) (c.tick now) where
  coherent := ⟨hc.sound, hc.fits, hc.rests, hc.building⟩
  ledger _ := rfl
  dropped _ hx := .inl hx
  grounded who conn q hq := by simp [tick] at hq
  known k hk := hk.imp_right .inl
  link := ⟨0, .quiet, .refl 0 c.link, explains_quiet rfl rfl .rfl⟩

theorem steps_expire {c : Client} (hc : c.Coherent) : Steps c .expire c.expire where
  coherent := ⟨hc.sound, hc.fits, hc.rests, hc.building⟩
  ledger x := c.total_pools (fun p => p.expire c.now) x fun p => p.count_expire c.now x
  dropped _ hx := .inl hx
  grounded who conn q hq := by simp [expire] at hq
  known k hk := hk.imp_right .inl
  link := ⟨0, .quiet, .refl 0 c.link, explains_quiet rfl rfl .rfl⟩

theorem step_steps (draw : Nat) {c : Client} (hc : c.Coherent) {e : Event} (h : c.Admits e) :
    Steps c e (step draw c e) := by
  cases e with
  | start id op => exact steps_start draw hc op h
  | dialed id r => exact steps_dialed draw hc r h
  | answered who r => exact steps_answered draw hc who r
  | chosen id partition => exact steps_chosen draw hc partition
  | run who => exact steps_run draw hc who
  | item id i => exact steps_stimulate hc id _ rfl rfl rfl
  | ended id => exact steps_stimulate hc id _ rfl rfl rfl
  | unsubscribe id => exact steps_unsubscribe hc id
  | abandon id => exact steps_abandon hc
  | lapse id => exact steps_lapse draw hc
  | tick now => exact steps_tick hc now
  | expire => exact steps_expire hc

end StreamClient.Client
