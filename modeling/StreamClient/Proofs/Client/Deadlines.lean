import StreamClient.Proofs.Client.Feeds
import StreamClient.Proofs.Client.Publishing

/-! When a call returns that a deadline passed although its request was never sent: its dial was too
slow, or its time was up before its session had a turn. -/

namespace StreamClient

theorem CallError.ofHandshake_eq_deadlineExceeded {stream : String} {partition : Int32}
    {f f' : Fault} (h : ofHandshake stream partition f = .deadlineExceeded f') :
    f.status = .deadlineExceeded ∧ f = f' := by
  unfold ofHandshake at h
  split at h <;> simp_all

namespace Session

theorem phase_of_greet {s : Session} {heard : Bool} {e : Stimulus} {verdict : Except Fault Unit}
    (h : .act (.greet verdict) ∈ s.deeds heard e) : s.phase ≠ .fresh := by
  intro hp
  cases hc : s.cancelled with
  | true => simp [deeds, turn, hc, leftovers, hp, farewell] at h
  | false => cases e <;> simp [deeds, turn, hc, hp] at h

theorem Stands.asked_iff {sub : Subscription} {quit : Prop} {acquired : List (Address × Conn)}
    {log : List Deed} {taken : List Signal} {s : Session}
    (h : Stands sub quit acquired log taken (some s)) :
    (∃ s', .act (.ask s') ∈ log) ↔ s.phase ≠ .fresh := by
  cases h with
  | running hsub hquit hstory => cases hstory <;> simp [*]

end Session

namespace Client

open Session (Deed)

/-- The time of a subscribe call is up before its session had a turn. -/
def LapsesUnasked (c : Client) (id : CallId) (e : Event) : Prop :=
  e = .lapse id ∧ ∃ s due d session, c.calls.get? id = some (.greeting s none (some due)) ∧
    due ≤ c.now ∧ c.settings.handshakeTimeout = some d ∧
    c.sessions.get? id = some session ∧ session.phase = .fresh

def Effect.isCall (who : Party) (method : Method) : Effect → Bool
  | .call who' _ q => who' == who && q.method == method
  | _ => false

instance (effects : List Effect) (who : Party) (method : Method) :
    Decidable (Issued effects who method) :=
  decidable_of_iff (∃ x ∈ effects, x.isCall who method = true) <| by
    constructor
    · rintro ⟨x, hx, hcall⟩
      unfold Effect.isCall at hcall
      split at hcall
      · next who' conn q =>
        obtain ⟨rfl, hmethod⟩ : who' = who ∧ q.method = method := by simpa using hcall
        exact ⟨conn, q, hx, hmethod⟩
      · cases hcall
    · rintro ⟨conn, q, hq, rfl⟩
      exact ⟨_, hq, by simp [Effect.isCall]⟩

structure Awaits (effects : List Effect) (c : Client) (id : CallId) : Prop where
  verdict : ∀ s f due, c.calls.get? id = some (.greeting s (some (.error f)) due) →
    Issued effects (.session id) .subscribe ∨ f = endedUnheard
  running : ∀ s due, c.calls.get? id = some (.greeting s none due) →
    ∃ session, c.sessions.get? id = some session

section Awaits

variable {settings : Settings} {now : Nat} {history : History} {c : Client} {e : Event}
  {id : CallId}

theorem mem_shown_ask {effects : List Effect} :
    (∃ s, .act (.ask s) ∈ shown effects id) ↔ Issued effects (.session id) .subscribe := by
  constructor
  · rintro ⟨s, hs⟩
    obtain ⟨x, hx, hd⟩ := List.mem_filterMap.1 hs
    unfold Effect.deed? at hd
    split at hd <;> simp at hd
    obtain ⟨rfl, -⟩ := hd
    exact ⟨_, _, hx, rfl⟩
  · rintro ⟨conn, q, hq, hmethod⟩
    cases q with
    | subscribe s => exact ⟨s, List.mem_filterMap.2 ⟨_, hq, by simp [Effect.deed?]⟩⟩
    | _ => cases hmethod

theorem Lodges.issued_iff (h : Lodges history c id) {s : Session}
    (hs : c.sessions.get? id = some s) :
    Issued (trail history) (.session id) .subscribe ↔ s.phase ≠ .fresh := by
  obtain ⟨sub, -, hstands⟩ := h.stands
  rw [hs] at hstands
  rw [← hstands.asked_iff, ← mem_shown_ask, h.shown]
  simp [Deed.isShown]

theorem greet_tells (c : Client) (id : CallId) (verdict : Except Fault Unit) (s : Subscription)
    (due : Option Nat) : (c.greet id verdict).1.calls.get? id ≠ some (.greeting s none due) := by
  unfold greet
  split
  · simp
  · next h => exact h s due

theorem stimulate_tells {stimulus : Session.Stimulus} {s : Session}
    (hs : c.sessions.get? id = some s)
    (hover : (s.turn (c.isHeard id) stimulus).next? = none) (s' : Subscription) (due : Option Nat) :
    (c.stimulate id stimulus).1.calls.get? id ≠ some (.greeting s' none due) := by
  simp only [stimulate, hs]
  cases ht : s.turn (c.isHeard id) stimulus with
  | goOn s'' actions => simp [ht, Session.Turn.next?] at hover
  | «over» actions report => exact greet_tells _ id _ s' due

theorem Awaits.mono {effects effects' : List Effect} {c' : Client} (h : Awaits effects c id)
    (hsub : effects ⊆ effects') (hcalls : c'.calls.get? id = c.calls.get? id)
    (hsessions : ∀ s, c.sessions.get? id = some s → ∃ s', c'.sessions.get? id = some s') :
    Awaits effects' c' id where
  verdict s f due hs := (h.verdict s f due (hcalls ▸ hs)).imp_left (·.mono hsub)
  running s due hs := by
    obtain ⟨session, hsession⟩ := h.running s due (hcalls ▸ hs)
    exact hsessions session hsession

theorem awaits_of_no_greeting {effects : List Effect}
    (h : ∀ s verdict due, c.calls.get? id ≠ some (.greeting s verdict due)) :
    Awaits effects c id where
  verdict s _ due hs := absurd hs (h s _ due)
  running s due hs := absurd hs (h s _ due)

theorem Awaits.turn {draw : Nat} (h : Awaits (trail history) c id) (hlodges : Lodges history c id)
    {stimulus : Session.Stimulus} (hturn : e.turn? = some (id, stimulus)) {s : Session}
    (hs : c.sessions.get? id = some s) :
    Awaits (trail (⟨c, draw, e⟩ :: history)) (step draw c e).1 id := by
  have hturned := turned_step draw hturn hs
  have hsub : trail history ⊆ trail (⟨c, draw, e⟩ :: history) := List.subset_append_left _ _
  constructor
  · intro s' fault due hstage
    rcases hturned.stage with hsame | ⟨s'', verdict, due', -, hafter, hverdict⟩
    · exact (h.verdict s' fault due (hsame ▸ hstage)).imp_left (·.mono hsub)
    · obtain ⟨-, rfl, -⟩ : s'' = s' ∧ verdict = .error fault ∧ due' = due := by
        simpa using hafter.symm.trans hstage
      rcases hverdict with hgreet | hended
      · have hissued := (hlodges.issued_iff hs).2 (Session.phase_of_greet hgreet)
        exact .inl (hissued.mono hsub)
      · exact .inr (Except.error.inj hended)
  · intro s' due hstage
    cases hnext : (s.turn (c.isHeard id) stimulus).next? with
    | some s'' => exact ⟨s'', by rw [hturned.sessions, if_pos rfl, hnext]⟩
    | none =>
      rw [step_of_turn draw hturn] at hstage
      exact absurd hstage (stimulate_tells hs hnext s' due)

theorem Awaits.aside {draw : Nat} (h : Awaits (trail history) c id)
    (ha : Passes e c (step draw c e) id) :
    Awaits (trail (⟨c, draw, e⟩ :: history)) (step draw c e).1 id := by
  have hsub : trail history ⊆ trail (⟨c, draw, e⟩ :: history) := List.subset_append_left _ _
  have hover (hnone : (step draw c e).1.calls.get? id = none) :
      Awaits (trail (⟨c, draw, e⟩ :: history)) (step draw c e).1 id :=
    awaits_of_no_greeting (by simp [hnone])
  cases ha with
  | still hcalls hsessions _ => exact h.mono hsub hcalls fun s hs => ⟨s, hsessions.trans hs⟩
  | comes a _ hcomes =>
    cases hcomes with
    | waits stage hstage _ hrests _ _ _ =>
      refine awaits_of_no_greeting fun s verdict due hs => hrests ?_
      rw [hstage] at hs
      rw [hs]
      trivial
    | launches s address conn due _ hstage hsession _ _ _ _ =>
      constructor
      · intro s' f due' hs
        cases hstage.symm.trans hs
      · exact fun _ _ _ => ⟨_, hsession⟩
    | returns r hstage _ _ _ _ => exact hover hstage
  | told s verdict due _ hm => exact hover (by rw [hm]; simp [greeted])
  | expelled s due d _ _ _ _ hm => exact hover (by rw [hm]; simp [expel, Move.after, greeted])
  | abandoned _ hm => exact hover (by rw [hm, calls_abandon])
  | quits _ hm =>
    obtain ⟨⟨sessions, hframe⟩, -⟩ := unsubscribe_frame c id
    rw [hm]
    refine h.mono hsub (by rw [hframe]) fun s hs => ?_
    simp only [unsubscribe, hs]
    split
    · exact ⟨s, hs⟩
    · exact ⟨{ s with cancelled := true }, by simp [Table.get?_put]⟩

theorem Run.awaits (h : Run settings now history c) (id : CallId) :
    Awaits (trail history) c id := by
  induction h with
  | fresh => exact awaits_of_no_greeting fun _ _ _ hs => by cases hs
  | @next history c e draw hrun hp ih =>
    have hsub : trail history ⊆ trail (⟨c, draw, e⟩ :: history) := List.subset_append_left _ _
    cases meets draw hrun.keeps.coherent hrun.pooled e id with
    | elsewhere hskips hcalls _ =>
      exact ih.mono hsub hcalls fun s hs => ⟨s, hskips.sessions.trans hs⟩
    | turn stimulus s hturn hs => exact ih.turn (hrun.life id).toLodges hturn hs
    | aside hturn haside => exact ih.aside (haside.passes id)

theorem Op.rpc?_eq_some {op : Op} {who : Party} {method : Method}
    (h : op.rpc? id = some (who, method)) :
    (op.aim = .publishing ∧ who = .caller id) ∨
      ((∃ s, op.aim = .subscribing s) ∧ who = .session id ∧ method = .subscribe) := by
  cases op <;> simp [Op.rpc?] at h <;> simp [Op.aim, h]

theorem Publishes.next {method : Method} (h : Publishes (trail history) method c id)
    (hrun : Run settings now history c) (hp : Possible history c e) (draw : Nat)
    (hop : ∀ r ∈ (⟨c, draw, e⟩ :: history : History), ∀ op, r.event = .start id op →
      op.rpc? id = some (.caller id, method)) :
    Proceeds (trail history) method id c e (Client.step draw c e) := by
  refine h.step draw hrun.keeps.coherent hrun.pooled hp.dialing ?_ ?_
  · intro stage hs
    obtain ⟨r, hr, op, hevent, haim⟩ := (hrun.life id).aim stage hs
    have hrpc := hop r (List.mem_cons_of_mem _ hr) op hevent
    rcases Op.rpc?_eq_some hrpc with ⟨hpublishing, -⟩ | ⟨-, hwho, -⟩
    · exact haim.symm.trans hpublishing
    · cases hwho
  · exact fun op he => hop _ (List.mem_cons_self ..) op he

theorem Run.publishes {method : Method} (h : Run settings now history c)
    (hop : ∀ r ∈ history, ∀ op, r.event = .start id op → op.rpc? id = some (.caller id, method)) :
    Publishes (trail history) method c id := by
  induction h with
  | fresh => exact ⟨fun d hd => (by cases hd), fun due hd => (by cases hd)⟩
  | next draw hrun hp ih =>
    have hbefore := ih fun r hr => hop r (List.mem_cons_of_mem _ hr)
    exact (hbefore.next hrun hp draw hop).publishes

theorem Run.missed_subscribing (h : Run settings now history c) (draw : Nat)
    (hsub : ∀ a, Aims c e id a → ∃ s, a = .subscribing s) {f : Fault}
    (hf : .finish id (.error (.deadlineExceeded f)) ∈ (step draw c e).2) :
    Issued (trail history) (.session id) .subscribe ∨ c.LapsesUnasked id e := by
  cases meets draw h.keeps.coherent h.pooled e id with
  | elsewhere _ _ hfinish => exact absurd hf (hfinish _)
  | turn stimulus s hturn hs => exact absurd hf ((turned_step draw hturn hs).finish id _)
  | aside hturn haside =>
    cases haside.passes id with
    | still _ _ hnone => exact absurd hf (hnone _)
    | comes a haims hcomes =>
      cases hcomes with
      | waits _ _ _ _ _ _ hnone => exact absurd hf (hnone _)
      | launches _ _ _ _ _ _ _ _ _ _ hnone => exact absurd hf (hnone _)
      | returns r _ _ _ hall hallowed =>
        obtain ⟨s, rfl⟩ := hsub a haims
        obtain ⟨error, rfl, hother⟩ := hallowed
        exact absurd (Except.error.inj (hall _ hf)).symm (hother f)
    | told s verdict due hs hm =>
      rw [hm] at hf
      obtain ⟨-, hresult⟩ := Effect.finish.inj (List.mem_singleton.1 hf)
      cases verdict with
      | ok u => cases hresult
      | error f' =>
        obtain ⟨hstatus, -⟩ :=
          CallError.ofHandshake_eq_deadlineExceeded (Except.error.inj hresult).symm
        refine ((h.awaits id).verdict s f' due hs).imp_right fun hended => ?_
        rw [hended] at hstatus
        cases hstatus
    | expelled s due d he hs hd hdue _ =>
      obtain ⟨session, hsession⟩ := (h.awaits id).running s (some due) hs
      -- a session that had a turn has asked
      by_cases hphase : session.phase = .fresh
      · exact .inr ⟨he, s, due, d, session, hs, hdue, hd, hsession, hphase⟩
      · exact .inl (((h.life id).toLodges.issued_iff hsession).2 hphase)
    | quits _ hm =>
      rw [hm] at hf
      exact absurd hf ((plain_unsubscribe c id).2 id _)
    | abandoned _ hm =>
      rw [hm] at hf
      exact absurd hf ((plain_abandon c id).2 id _)

theorem finish_of_dialsLate (h : c.DialsLate id e) (hp : Possible history c e) (draw : Nat) :
    ∃ f, .finish id (.error (.deadlineExceeded f)) ∈ (step draw c e).2 := by
  obtain ⟨f, due, rfl, hstatus, hs⟩ := h
  obtain ⟨e', hj⟩ := dialing_of_isDialing hs hp.1
  refine ⟨f, ?_⟩
  have hpublish : CallError.ofPublish f = .deadlineExceeded f :=
    CallError.ofPublish_eq_deadlineExceeded.2 ⟨hstatus, rfl⟩
  simp [step, dialed, hs, engage, follow, Link.dialed, hj, Fault.isUnavailable, hstatus,
    Link.Turn.after, Link.finish, settle, finish, Move.after, hpublish]

theorem finish_of_lapsesUnasked (h : c.LapsesUnasked id e) (draw : Nat) :
    ∃ f, .finish id (.error (.deadlineExceeded f)) ∈ (step draw c e).2 := by
  obtain ⟨rfl, s, due, d, session, hs, hdue, hd, -⟩ := h
  refine ⟨noHandshake d, ?_⟩
  simp [step, lapse, hs, hd, hdue, Move.after, greeted, finish, CallError.ofHandshake, noHandshake]

theorem Run.missed (h : Run settings now history c) (hp : Possible history c e) (draw : Nat)
    {op : Op} {who : Party} {method : Method} (hrpc : op.rpc? id = some (who, method))
    (hop : ∀ r ∈ (⟨c, draw, e⟩ :: history : History), ∀ op', r.event = .start id op' → op' = op)
    {f : Fault} (hf : .finish id (.error (.deadlineExceeded f)) ∈ (step draw c e).2) :
    Issued (trail history) who method ∨ c.DialsLate id e ∨ c.LapsesUnasked id e := by
  rcases Op.rpc?_eq_some hrpc with ⟨-, rfl⟩ | ⟨⟨s, haim⟩, rfl, rfl⟩
  · have hall : ∀ r ∈ (⟨c, draw, e⟩ :: history : History), ∀ op', r.event = .start id op' →
        op'.rpc? id = some (.caller id, method) := by
      intro r hr op' hevent
      rw [hop r hr op' hevent, hrpc]
    have hbefore := h.publishes fun r hr => hall r (List.mem_cons_of_mem _ hr)
    exact ((hbefore.next h hp draw hall).missed f hf).imp_right .inl
  · refine (h.missed_subscribing draw (fun a ha => ?_) hf).imp_right .inr
    obtain ⟨r, hr, op', hevent, rfl⟩ := ((h.life id).begins draw hp ha).2.1
    exact ⟨s, by rw [hop r hr op' hevent, haim]⟩

theorem Run.started_once (h : Run settings now history c) {r r' : Record} (hr : r ∈ history)
    (hr' : r' ∈ history) {op op' : Op} (hevent : r.event = .start id op)
    (hevent' : r'.event = .start id op') : op' = op := by
  induction h with
  | fresh => cases hr
  | next draw hrun hp ih =>
    rcases List.mem_cons.1 hr with rfl | hbefore
    · rcases List.mem_cons.1 hr' with rfl | hbefore'
      · exact (Event.start.inj (hevent'.symm.trans hevent)).2
      · dsimp only at hevent
        subst hevent
        exact absurd (mem_started.2 ⟨_, hbefore', _, hevent'⟩) hp.1
    · rcases List.mem_cons.1 hr' with rfl | hbefore'
      · dsimp only at hevent'
        subst hevent'
        exact absurd (mem_started.2 ⟨_, hbefore, _, hevent⟩) hp.1
      · exact ih hbefore hbefore'

/-- Over every run: a call returns that a deadline passed only if its RPC was issued before, exactly
if it was issued before each dial of the call that was too slow, and if the time of the call was not
up before its session had a turn. The dialer keeps to `Fresh`. -/
theorem Run.deadline_missed_iff (h : Run settings now history c) {op : Op} {who : Party}
    {method : Method} (hstart : ∃ r ∈ history, r.event = .start id op)
    (hrpc : op.rpc? id = some (who, method)) :
    (∀ r earlier f, r :: earlier <:+ history →
      .finish id (.error (.deadlineExceeded f)) ∈ r.move.2 → Issued (trail earlier) who method) ↔
    ∀ r earlier, r :: earlier <:+ history →
      (r.before.DialsLate id r.event → Issued (trail earlier) who method) ∧
        ¬ r.before.LapsesUnasked id r.event := by
  obtain ⟨r₀, hr₀, hevent₀⟩ := hstart
  have honce {r : Record} (hr : r ∈ history) {op' : Op} (hevent : r.event = .start id op') :
      op' = op := h.started_once hr₀ hr hevent₀ hevent
  constructor
  · intro hall r earlier hsuffix
    obtain ⟨hrun, hp⟩ := h.of_suffix hsuffix
    refine ⟨fun hlate => ?_, fun hlapse => ?_⟩
    · obtain ⟨f, hf⟩ := finish_of_dialsLate hlate hp r.draw
      exact hall r earlier f hsuffix hf
    · obtain ⟨f, hf⟩ := finish_of_lapsesUnasked hlapse r.draw
      have hissued := hall r earlier f hsuffix hf
      obtain ⟨-, s, due, d, session, hs, -, -, hsession, hphase⟩ := hlapse
      -- who waits for a handshake started a subscription
      obtain ⟨r', hr', op', hevent, haim⟩ := (hrun.life id).aim _ hs
      obtain rfl := honce (hsuffix.subset (List.mem_cons_of_mem _ hr')) hevent
      rcases Op.rpc?_eq_some hrpc with ⟨hpublishing, -⟩ | ⟨-, rfl, rfl⟩
      · cases haim.symm.trans hpublishing
      · exact ((hrun.life id).toLodges.issued_iff hsession).1 hissued hphase
  · intro hall r earlier f hsuffix hf
    obtain ⟨hrun, hp⟩ := h.of_suffix hsuffix
    obtain ⟨hlate, hlapse⟩ := hall r earlier hsuffix
    rcases hrun.missed hp r.draw hrpc (fun r' hr' op' => honce (hsuffix.subset hr')) hf with
      hissued | hdials | hlapses
    · exact hissued
    · exact hlate hdials
    · exact absurd hlapses hlapse

end Awaits

/-- A session is up before its first turn. -/
example : (play ([], .fresh { bootstrap := ["a:1"], handshakeTimeout := some .zero } 0)
    [(0, .start 0 .connect), (0, .dialed 0 (.ok 1)),
      (0, .answered (.caller 0) (.ok { topology := {
        brokers := [⟨"b", "h", 1⟩]
        streams := [⟨"s", "s", [{ id := 0, leader := some "b" }]⟩] } })),
      (0, .start 1 (.subscribe "s" {})), (0, .dialed 1 (.ok 2)), (0, .lapse 1),
      (0, .run (.session 1))]).map (fun s => decide (
    .finish 1 (.error (.deadlineExceeded (noHandshake .zero))) ∈ trail s.1 ∧
      ¬ Issued (trail s.1) (.session 1) .subscribe)) = some true := by
  decide +kernel

/-- A message is sent, and the broker takes too long. -/
def outwaited : List (Nat × Event) :=
  [(0, .start 0 .connect), (0, .dialed 0 (.ok 1)), (0, .answered (.caller 0) (.ok {})),
    (0, .start 1 (.publish "s" [] { partition := some 0 })),
    (0, .answered (.caller 1) (.error ⟨.deadlineExceeded, "slow"⟩))]

theorem deadline_missed_outwaited :
    ∃ s, play ([], .fresh { bootstrap := ["a:1"] } 0) outwaited = some s ∧
      .finish 1 (.error (.deadlineExceeded ⟨.deadlineExceeded, "slow"⟩)) ∈ trail s.1 ∧
      ∀ r earlier f, r :: earlier <:+ s.1 →
        .finish 1 (.error (.deadlineExceeded f)) ∈ r.move.2 →
          Issued (trail earlier) (.caller 1) .publish := by
  let op : Op := .publish "s" [] { partition := some 0 }
  let slow : Fault := ⟨.deadlineExceeded, "slow"⟩
  have hends : (play ([], .fresh { bootstrap := ["a:1"] } 0) outwaited).map (fun s => decide
      ((∃ r ∈ s.1, r.event = .start 1 op) ∧
        .finish 1 (.error (.deadlineExceeded slow)) ∈ trail s.1 ∧
        ∀ r ∈ s.1, r.event.caller? = some 1 →
          r.event = .start 1 op ∨ r.event = .answered (.caller 1) (.error slow))) = some true := by
    decide +kernel
  obtain ⟨s, hs, hrun, hstart, hfinish, hevents⟩ := exists_run hends
  refine ⟨s, hs, hfinish, (Run.deadline_missed_iff hrun hstart rfl).2 fun r earlier hsuffix => ?_⟩
  have hevent := hevents r (hsuffix.subset (List.mem_cons_self ..))
  constructor
  · rintro ⟨f, due, hdialed, -⟩
    rcases hevent (by rw [hdialed]; rfl) with h | h
    · cases hdialed.symm.trans h
    · cases hdialed.symm.trans h
  · rintro ⟨hlapse, -⟩
    rcases hevent (by rw [hlapse]; rfl) with h | h
    · cases hlapse.symm.trans h
    · cases hlapse.symm.trans h

/-- A call finds that the broker cannot be reached. The next one publishes, and its dial is too
slow. -/
def undialed : List (Nat × Event) :=
  [(0, .start 0 .connect), (0, .dialed 0 (.ok 1)), (0, .answered (.caller 0) (.ok {})),
    (0, .start 1 (.deleteStream "s")),
    (0, .answered (.caller 1) (.error (.unavailable "gone"))),
    (0, .start 2 (.publish "s" [] { partition := some 0 })),
    (0, .dialed 2 (.error ⟨.deadlineExceeded, "slow"⟩))]

theorem undialed_missed :
    ∃ s, play ([], .fresh { bootstrap := ["a:1"], attempts := 1 } 0) undialed = some s ∧
      Run { bootstrap := ["a:1"], attempts := 1 } 0 s.1 s.2 ∧
      .finish 2 (.error (.deadlineExceeded ⟨.deadlineExceeded, "slow"⟩)) ∈ trail s.1 ∧
      ¬ Issued (trail s.1) (.caller 2) .publish := by
  have hends : (play ([], .fresh { bootstrap := ["a:1"], attempts := 1 } 0) undialed).map
      (fun s => decide (
        .finish 2 (.error (.deadlineExceeded ⟨.deadlineExceeded, "slow"⟩)) ∈ trail s.1 ∧
          ¬ Issued (trail s.1) (.caller 2) .publish)) = some true := by
    decide +kernel
  exact exists_run hends

end Client

end StreamClient
