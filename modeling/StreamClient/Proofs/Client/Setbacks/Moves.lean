import StreamClient.Proofs.Client.Attempts
import StreamClient.Proofs.Link.Setbacks

/-! What goes wrong for a call before it has a session: the call knows the latest of these setbacks,
makes all the attempts it is granted, and returns with that setback if none is left. -/

namespace StreamClient

theorem CreateOptions.fault?_of_creation {o : CreateOptions} {name : String} {e : CallError}
    (h : o.creation name = .error e) : e.fault? = none := by
  unfold creation at h
  split at h
  · cases h
    rfl
  · split at h <;> cases h
    rfl

namespace Client

open Link (Job)

/-- What goes wrong for the call `id` in an event: its dial or call fails, or its time is up. -/
def mishap? (c : Client) (id : CallId) : Event → Option Fault
  | .dialed k (.error f) => if k = id then some f else none
  | .answered (.caller k) (.error f) => if k = id ∧ (c.asked id).isSome then some f else none
  | .lapse k =>
    match c.calls.get? id, (c.asked id).bind Request.deadline with
    | some (.linking _ (some due)), some d =>
      if k = id ∧ due ≤ c.now then some (noAck d) else none
    | _, _ => none
  | _ => none

def Stage.goal? : Stage → Option Goal
  | .linking goal _ => some goal
  | _ => none

def goal? (c : Client) (id : CallId) : Option Goal := (c.calls.get? id).bind Stage.goal?

/-- What went wrong for the call `id` since it has its goal, the latest in front. -/
def setbacks : History → CallId → List Fault
  | [], _ => []
  | r :: earlier, id =>
    if r.before.goal? id = r.move.1.goal? id then
      (r.before.mishap? id r.event).toList ++ setbacks earlier id
    else []

/-- What a call that was started for `op` returns if `f` ended it, `joined` if it had a connection of
its own by then. -/
def Op.failure (op : Op) (joined : Bool) (f : Fault) : CallError :=
  match op, joined, f.status with
  | .createStream name _, _, .alreadyExists => .streamExists name f
  | .deleteStream name, _, .notFound => .noSuchStream name f
  | .publish .., _, .deadlineExceeded => .deadlineExceeded f
  | .publishToSubject .., _, .deadlineExceeded => .deadlineExceeded f
  | .subscribe stream o, true, .notFound => .noSuchPartition stream o.partition (some f)
  | .subscribe .., true, .deadlineExceeded => .deadlineExceeded f
  | _, _, _ => .rpc f

def Goal.Suits (op : Op) : Goal → Prop
  | .connect => op = .connect
  | .create name => ∃ o, op = .createStream name o
  | .created => ∃ name o, op = .createStream name o
  | .delete name => op = .deleteStream name
  | .publish => op.aim = .publishing
  | .fetch => op = .fetchMetadata
  | .resolve s _ => op.aim = .subscribing s

def Stage.Suits (op : Op) : Stage → Prop
  | .probing _ => op = .connect
  | .choosing _ => op.aim = .publishing
  | .linking goal _ => goal.Suits op
  | .pausing s _ _ | .joining s _ | .greeting s _ _ => op.aim = .subscribing s
  | .closing => op = .close

/-- How a call for `op` stands that had these setbacks. -/
structure Bears (settings : Settings) (op : Op) (faults : List Fault) (c : Client) (id : CallId) :
    Prop where
  suits : ∀ stage, c.calls.get? id = some stage → stage.Suits op
  probes : ∀ rest, c.calls.get? id = some (.probing rest) →
    faults.length + rest.length + 1 = settings.bootstrap.length
  linked : ∀ goal due, c.calls.get? id = some (.linking goal due) →
    ∃ j, c.link.jobs.get? id = some j ∧ j.Bears (max settings.attempts 1) faults

/-- What a move is for a call for `op` that had these setbacks, the last of them in the move. -/
structure Fares (settings : Settings) (op : Op) (faults : List Fault) (c : Client) (id : CallId)
    (m : Move) : Prop where
  bears : m.1.Bears settings op (if c.goal? id = m.1.goal? id then faults else []) id
  /-- If no broker could be reached all attempts were made. -/
  fails : ∀ e, .finish id (.error e) ∈ m.2 → c.isHeard id = false → ∀ f, e.fault? = some f →
    faults.head? = some f ∧ e = op.failure false f ∧
      (f.isUnavailable = true → ∀ goal due, c.calls.get? id = some (.linking goal due) →
        faults.length = max settings.attempts 1)

section Table

variable {op : Op} {s : Subscription} {f : Fault}

theorem fault?_failure (op : Op) (joined : Bool) (f : Fault) :
    (op.failure joined f).fault? = some f := by
  unfold Op.failure
  split <;> rfl

theorem failure_of_publishing (h : op.aim = .publishing) :
    op.failure false f = .ofPublish f := by
  cases op with
  | publish | publishToSubject =>
    simp only [Op.failure, CallError.ofPublish]
    cases f.status <;> rfl
  | _ => cases h

theorem failure_of_subscribing (h : op.aim = .subscribing s) : op.failure false f = .rpc f := by
  cases op with
  | subscribe stream o => simp only [Op.failure]
  | _ => cases h

theorem failure_of_joined (h : op.aim = .subscribing s) :
    op.failure true f = .ofHandshake s.stream s.partition f := by
  cases op with
  | subscribe stream o =>
    obtain rfl := Aim.subscribing.inj h
    simp only [Op.failure, CallError.ofHandshake, SubscribeOptions.subscription]
    cases f.status <;> rfl
  | _ => cases h

theorem Stage.Suits.eq_closing {stage : Stage} (h : stage.Suits .close) : stage = .closing := by
  cases stage with
  | closing => rfl
  | linking goal due =>
    have hgoal : goal.Suits .close := h
    cases goal with
    | create name => obtain ⟨o, ho⟩ := hgoal; cases ho
    | created => obtain ⟨name, o, ho⟩ := hgoal; cases ho
    | _ => cases hgoal
  | _ => cases h

theorem settle_failure (draw : Nat) (c : Client) (id : CallId) {goal : Goal} (h : goal.Suits op)
    (f : Fault) : goal = .created ∧ settle draw c id goal (.error f) = c.finish id (.ok .done) ∨
      settle draw c id goal (.error f) = c.finish id (.error (op.failure false f)) := by
  cases goal with
  | created => exact .inl ⟨rfl, rfl⟩
  | connect | fetch =>
    obtain rfl := h
    right
    simp only [settle, Op.failure]
  | create name =>
    obtain ⟨o, rfl⟩ := h
    right
    simp only [settle, Op.failure, CallError.ofCreate]
    cases f.status <;> rfl
  | delete name =>
    obtain rfl := h
    right
    simp only [settle, Op.failure, CallError.ofDelete]
    cases f.status <;> rfl
  | publish =>
    right
    rw [settle, failure_of_publishing h]
  | resolve s left =>
    right
    rw [settle, failure_of_subscribing h]

end Table

section Link

variable {settings : Settings} {op : Op} {draw : Nat} {c : Client} {e : Event} {id : CallId}
  {faults : List Fault} {total : Nat}

inductive Dispatches (draw : Nat) (goal : Goal) (total : Nat) (faults : List Fault) (c : Client)
    (e : Event) (id : CallId) (m : Move) : Prop
  | turns (due : Option Nat) (t : Link.Turn Request Reply) (before : List Effect) :
    Link.Fares id total ((c.mishap? id e).toList ++ faults) t → t.link.attempts = c.link.attempts →
      (∀ reply, t.ending = some (.reply (.ok reply)) → e = .answered (.caller id) (.ok reply)) →
      Plain before → m = (engage draw c id goal due t).after before →
        Dispatches draw goal total faults c e id m
  | stays : c.mishap? id e = none → m = c.stay → Dispatches draw goal total faults c e id m
  | abandons : e = .abandon id → m = c.abandon id → Dispatches draw goal total faults c e id m

theorem wants_of_bears {j : Job Request} (hj : c.link.jobs.get? id = some j)
    (hb : j.Bears total faults) : ∃ q, c.link.Wants id q := by
  obtain ⟨e', he', -⟩ := hb.last
  refine ⟨e'.request, fun j' hj' => ?_⟩
  obtain rfl := Option.some.inj (hj.symm.trans hj')
  cases j <;> cases he' <;> rfl

theorem dispatches_of_fares {goal : Goal} {q : Request} (due : Option Nat)
    {t : Link.Turn Request Reply} {m : Move}
    (h : Link.Fares id total ((c.mishap? id e).toList ++ faults) t)
    (hattempts : t.link.attempts = c.link.attempts) (hseeks : Link.Seeks (c.pick draw) c.link id q t)
    (hm : m = engage draw c id goal due t) : Dispatches draw goal total faults c e id m :=
  .turns due t [] h hattempts (fun _ hok => absurd hok (hseeks.unanswered _)) plain_nil hm

theorem dispatches_answered (goal : Goal) (due : Option Nat) {a : Address} {j : Job Request}
    (hpick : c.pick draw = some a) (hj : c.link.jobs.get? id = some j) (hb : j.Bears total faults)
    (r : Except Fault Reply) {before : List Effect} (hplain : Plain before) {m : Move}
    (hmishap : (c.asked id).isSome → c.mishap? id e = match r with
      | .ok _ => none
      | .error f => some f)
    (hidle : c.asked id = none → c.mishap? id e = none)
    (hok : ∀ reply, r = .ok reply → e = .answered (.caller id) (.ok reply))
    (hm : m = (engage draw c id goal due (c.link.answered (c.pick draw) id r)).after before) :
    Dispatches draw goal total faults c e id m := by
  refine .turns due (c.link.answered (c.pick draw) id r) before ?_
    (Link.attempts_step _ c.link (.answered id r))
    (fun reply hending => hok reply (Link.ok_of_answered hending)) hplain hm
  rw [hpick]
  by_cases hcalling : ∃ e' conn, c.link.jobs.get? id = some (.calling e' conn)
  · obtain ⟨e', conn, hj'⟩ := hcalling
    obtain rfl := Option.some.inj (hj.symm.trans hj')
    have hasked : c.asked id = some e'.request := asked_eq_some.2 ⟨e', conn, hj, rfl⟩
    have hfares := Link.answered_fares a hj hb r
    rw [hmishap (by simp [hasked])]
    cases r <;> exact hfares
  · have hnone : ∀ e' conn, c.link.jobs.get? id ≠ some (.calling e' conn) :=
      fun e' conn h => hcalling ⟨e', conn, h⟩
    have hasked : c.asked id = none := by
      refine Option.eq_none_iff_forall_ne_some.2 fun q hq => ?_
      obtain ⟨e', conn, hj', -⟩ := asked_eq_some.1 hq
      exact hnone e' conn hj'
    rw [hidle hasked, Link.answered_idle _ hnone]
    exact Link.fares_still hj hb

theorem dispatches_lapse {goal : Goal} {due : Option Nat} {a : Address} {j : Job Request}
    (hpick : c.pick draw = some a) (hs : c.calls.get? id = some (.linking goal due))
    (hj : c.link.jobs.get? id = some j) (hb : j.Bears total faults) :
    Dispatches draw goal total faults c (.lapse id) id (lapse draw c id) := by
  cases due with
  | none =>
    refine .stays ?_ (by simp only [lapse, hs])
    simp [mishap?, hs]
  | some due =>
    cases hd : (c.asked id).bind Request.deadline with
    | none =>
      refine .stays ?_ (by simp only [lapse, hs, hd])
      simp [mishap?, hs, hd]
    | some d =>
      by_cases hdue : due ≤ c.now
      · have hplain : Plain [.withdraw (.caller id)] := ⟨fun _ => rfl, by simp⟩
        refine dispatches_answered goal none hpick hj hb (.error (noAck d)) hplain (fun _ => ?_)
          (fun hnone => ?_) (by simp) (by simp only [lapse, hs, hd, if_pos hdue])
        · simp [mishap?, hs, hd, hdue]
        · simp [hnone] at hd
      · refine .stays ?_ (by simp only [lapse, hs, hd, if_neg hdue])
        simp [mishap?, hs, hd, hdue]

theorem dispatches_step {goal : Goal} {due : Option Nat} {a : Address} {j : Job Request}
    (hpick : c.pick draw = some a) (hs : c.calls.get? id = some (.linking goal due))
    (hj : c.link.jobs.get? id = some j) (hb : j.Bears total faults) (hpos : 0 < total)
    (hstart : ∀ op, e ≠ .start id op) (hdialing : ∀ r, e = .dialed id r → c.isDialing id = true)
    (he : e.caller? = some id) : Dispatches draw goal total faults c e id (step draw c e) := by
  obtain ⟨q, hwants⟩ := wants_of_bears hj hb
  cases Event.ofCall he with
  | start op => exact absurd rfl (hstart op)
  | dialed r =>
    obtain ⟨e', hj'⟩ := dialing_of_isDialing hs (hdialing r rfl)
    obtain rfl := Option.some.inj (hj.symm.trans hj')
    have hfares := Link.dialed_fares (A := Reply) a hj hb r
    refine dispatches_of_fares due (t := c.link.dialed (c.pick draw) id r) ?_
      (Link.attempts_step (A := Reply) _ c.link (.dialed id r)) (Link.dialed_seeks _ hwants r) ?_
    · rw [hpick]
      cases r <;> simpa [mishap?] using hfares
    · simp only [step, dialed, hs]
  | answered r =>
    refine dispatches_answered goal due hpick hj hb r plain_nil (fun hasked => ?_)
      (fun hnone => ?_) (fun reply hr => by rw [hr]) ?_
    · cases r <;> simp [mishap?, hasked]
    · cases r <;> simp [mishap?, hnone]
    · simp only [step, answered, hs]
      rfl
  | chosen partition => exact .stays rfl (by simp only [step, chosen, hs])
  | run =>
    refine dispatches_of_fares due (t := c.link.resume (c.pick draw) id) ?_
      (Link.attempts_step (A := Reply) _ c.link (.resume id)) (Link.resume_seeks _ hwants) ?_
    · rw [hpick]
      exact Link.resume_fares a hj hb hpos
    · simp only [step, run, hs]
  | abandon => exact .abandons rfl rfl
  | lapse => exact dispatches_lapse hpick hs hj hb

end Link

section Moves

variable {settings : Settings} {op : Op} {draw : Nat} {c : Client} {id : CallId} {m : Move}
  {faults : List Fault} {s : Subscription}

theorem Fares.after {before : List Effect} (h : Fares settings op faults c id m)
    (hp : Plain before) : Fares settings op faults c id (m.after before) where
  bears := h.bears
  fails e he := h.fails e ((List.mem_append.1 he).resolve_left (hp.2 id _))

theorem fares_of_off (hstage : ∀ stage, m.1.calls.get? id = some stage → stage.Suits op ∧
      (∀ rest, stage ≠ .probing rest) ∧ ∀ goal due, stage ≠ .linking goal due)
    (hfails : ∀ e, .finish id (.error e) ∈ m.2 → e.fault? = none) :
    Fares settings op faults c id m where
  bears := {
    suits := fun stage hs => (hstage stage hs).1
    probes := fun rest hs => absurd rfl ((hstage _ hs).2.1 rest)
    linked := fun goal due hs => absurd rfl ((hstage _ hs).2.2 goal due) }
  fails e he _ f hf := by
    rw [hfails e he] at hf
    cases hf

theorem fares_finish (c' : Client) {r : Except CallError Outcome}
    (hr : ∀ e, r = .error e → e.fault? = none) :
    Fares settings op faults c id (c'.finish id r) := by
  refine fares_of_off (by simp) fun e he => ?_
  obtain ⟨-, heq⟩ := Effect.finish.inj (List.mem_singleton.1 he)
  exact hr e heq.symm

theorem fares_failure (c' : Client) {f : Fault} (hf : faults.head? = some f)
    (hall : f.isUnavailable = true → ∀ goal due, c.calls.get? id = some (.linking goal due) →
      faults.length = max settings.attempts 1) :
    Fares settings op faults c id (c'.finish id (.error (op.failure false f))) where
  bears := ⟨by simp, by simp, by simp⟩
  fails e he _ f' hf' := by
    obtain ⟨-, heq⟩ := Effect.finish.inj (List.mem_singleton.1 he)
    obtain rfl := Except.error.inj heq
    obtain rfl : f = f' := Option.some.inj ((fault?_failure op false f).symm.trans hf')
    exact ⟨hf, rfl, hall⟩

theorem fares_put (stage : Stage) {c' : Client} {effects : List Effect} (hs : stage.Suits op)
    (hprobing : ∀ rest, stage ≠ .probing rest) (hlinking : ∀ goal due, stage ≠ .linking goal due)
    (hp : Plain effects) : Fares settings op faults c id (c'.put id stage, effects) := by
  refine fares_of_off (fun stage' hs' => ?_) fun e he => absurd he (hp.2 id _)
  obtain rfl : stage = stage' := by simpa using hs'
  exact ⟨hs, hprobing, hlinking⟩

theorem fares_launch (h : op.aim = .subscribing s) (c' : Client) (a : Address) (conn : Conn) :
    Fares settings op faults c id (c'.launch id s a conn) :=
  fares_put (.greeting s none _) h (by simp) (by simp) ⟨fun _ => rfl, by simp⟩

theorem fares_lookup (h : op.aim = .subscribing s) (c' : Client) (left : Nat) :
    Fares settings op faults c id (lookup draw c' id s left) := by
  cases lookup_finds draw c' id s left with
  | nowhere _ _ hm =>
    rw [hm]
    refine fares_finish c' fun e he => ?_
    obtain rfl := Except.error.inj he
    rfl
  | later n due _ _ hm =>
    rw [hm]
    exact fares_put _ h (by simp) (by simp) plain_nil
  | late a _ _ hm =>
    rw [hm]
    refine fares_finish c' fun e he => ?_
    obtain rfl := Except.error.inj he
    rfl
  | reuses a conn p _ _ _ hm =>
    rw [hm]
    exact fares_launch h _ a conn
  | dials a _ _ _ hm =>
    rw [hm]
    exact fares_put _ h (by simp) (by simp) (plain_dial id a)

/-- What counts for a call that goes on or begins with `goal`. -/
def counted (c : Client) (id : CallId) (goal : Goal) (faults : List Fault) : List Fault :=
  if c.goal? id = some goal then faults else []

theorem counted_eq {goal : Goal} {f : Fault} (h : (c.counted id goal faults).head? = some f) :
    c.counted id goal faults = faults := by
  unfold counted at h ⊢
  split at h
  · next hgoal => rw [if_pos hgoal]
  · cases h

theorem fares_linking {goal : Goal} {due : Option Nat} {c' : Client} {j : Job Request}
    {effects : List Effect} (hgoal : goal.Suits op) (hj : c'.link.jobs.get? id = some j)
    (hb : j.Bears (max settings.attempts 1) (c.counted id goal faults)) (hp : Plain effects) :
    Fares settings op faults c id (c'.put id (.linking goal due), effects) where
  bears := {
    suits := fun stage hs => by
      obtain rfl : Stage.linking goal due = stage := by simpa using hs
      exact hgoal
    probes := fun rest hs => by simp at hs
    linked := fun goal' due' hs => by
      have hgoal? : (c'.put id (.linking goal due)).goal? id = some goal := by
        simp [goal?, Stage.goal?]
      rw [hgoal?]
      exact ⟨j, hj, hb⟩ }
  fails e he := absurd he (hp.2 id _)

theorem fares_follow (goal : Goal) {due : Option Nat} {t : Link.Turn Request Reply}
    (next : Client → Except Fault Reply → Move) {c' : Client} (hgoal : goal.Suits op)
    (ht : Link.Fares id (max settings.attempts 1) (c.counted id goal faults) t)
    (hok : ∀ reply, Fares settings op faults c id (next { c' with link := t.link } (.ok reply)))
    (hfail : ∀ f, faults.head? = some f →
      (f.isUnavailable = true → faults.length = max settings.attempts 1) →
        Fares settings op faults c id (next { c' with link := t.link } (.error f))) :
    Fares settings op faults c id (c'.follow id goal due t next) := by
  have hplain := plain_map_ofOrder t.orders
  cases ht with
  | goes j hr hj hb =>
    simp only [follow, hr]
    exact fares_linking hgoal hj hb hplain
  | succeeds reply he hj =>
    simp only [follow, he]
    exact (hok reply).after hplain
  | fails f hf hall he hj =>
    simp only [follow, he]
    have hsame := counted_eq hf
    rw [hsame] at hf hall
    exact (hfail f hf hall).after hplain

theorem fares_created (name : String) (o : CreateOptions) (c' : Client) (r : Except Fault Reply) :
    Fares settings (.createStream name o) faults c id (c'.created id r) := by
  cases r <;> exact fares_finish _ (by simp)

theorem submit_fares {c' : Client} {a : Address} (hpick : c'.pick draw = some a)
    (hattempts : c'.link.attempts = max settings.attempts 1) (q : Request) :
    Link.Fares id (max settings.attempts 1) []
      (c'.link.submit (c'.pick draw) id q : Link.Turn Request Reply) := by
  rw [hpick, ← hattempts]
  exact Link.submit_fares a q (by omega)

theorem fares_answer (c' : Client) {goal : Goal} (hgoal : goal.Suits op)
    (hbefore : c.goal? id ≠ some .created) {a : Address} (hpick : c'.pick draw = some a)
    (hattempts : c'.link.attempts = max settings.attempts 1) (reply : Reply) :
    Fares settings op faults c id (settle draw c' id goal (.ok reply)) := by
  cases goal with
  | connect | fetch | delete name | publish => exact fares_finish _ (by simp)
  | created =>
    obtain ⟨name, o, rfl⟩ := hgoal
    exact fares_created name o c' (.ok reply)
  | resolve s left => exact fares_lookup hgoal _ left
  | create name =>
    obtain ⟨o, rfl⟩ := hgoal
    -- the refresh has attempts of its own
    have hsubmit : Link.Fares id (max settings.attempts 1) (c.counted id .created faults)
        (c'.link.submit (c'.pick draw) id .fetchMetadata : Link.Turn Request Reply) := by
      rw [counted, if_neg hbefore]
      exact submit_fares hpick hattempts .fetchMetadata
    have hcreated (c' : Client) (r : Except Fault Reply) :
        Fares settings (.createStream name o) faults c id (c'.created id r) :=
      fares_created name o c' r
    exact fares_follow .created (fun c r => c.created id r) ⟨name, o, rfl⟩ hsubmit
      (fun reply => hcreated _ (.ok reply)) fun f _ _ => hcreated _ (.error f)

theorem fares_engage {goal : Goal} {due : Option Nat} {t : Link.Turn Request Reply} {c' : Client}
    {a : Address} (hgoal : goal.Suits op) (hbefore : goal = .created ∨ c.goal? id ≠ some .created)
    (hpick : c'.pick draw = some a) (hattempts : t.link.attempts = max settings.attempts 1)
    (ht : Link.Fares id (max settings.attempts 1) (c.counted id goal faults) t) :
    Fares settings op faults c id (engage draw c' id goal due t) := by
  refine fares_follow goal _ hgoal ht (fun reply => ?_) fun f hf hall => ?_
  · rcases hbefore with rfl | hbefore
    · obtain ⟨name, o, rfl⟩ := hgoal
      exact fares_created name o _ (.ok reply)
    · exact fares_answer { c' with link := t.link } hgoal hbefore hpick hattempts reply
  · rcases settle_failure draw { c' with link := t.link } id hgoal f with ⟨-, h⟩ | h
    · rw [h]
      exact fares_finish _ (by simp)
    · rw [h]
      exact fares_failure _ hf fun hf' _ _ _ => hall hf'

theorem fares_submit (goal : Goal) (c' : Client) {a : Address} (hgoal : goal.Suits op)
    (hbefore : c.goal? id = none) (hpick : c'.pick draw = some a)
    (hattempts : c'.link.attempts = max settings.attempts 1) (q : Request) :
    Fares settings op faults c id (submit draw c' id goal q) := by
  refine fares_engage hgoal (.inr (by simp [hbefore])) hpick ?_ ?_
  · rw [← hattempts]
    exact Link.attempts_step (A := Reply) _ c'.link (.submit id q)
  · rw [counted, if_neg (by simp [hbefore])]
    exact submit_fares hpick hattempts q

theorem Bears.still {e : Event} (h : Bears settings op faults c id)
    (hmishap : c.mishap? id e = none)
    (hcalls : ∀ stage, m.1.calls.get? id = some stage → c.calls.get? id = some stage ∨
      ∃ s v due v', stage = .greeting s v due ∧ c.calls.get? id = some (.greeting s v' due))
    (hjobs : m.1.link.jobs.get? id = c.link.jobs.get? id) (hfinish : ∀ r, .finish id r ∉ m.2) :
    Fares settings op ((c.mishap? id e).toList ++ faults) c id m := by
  have hsame {stage : Stage} (hs : m.1.calls.get? id = some stage)
      (hgreeting : ∀ s v due, stage ≠ .greeting s v due) : c.calls.get? id = some stage := by
    rcases hcalls stage hs with h | ⟨s, v, due, v', heq, -⟩
    · exact h
    · exact absurd heq (hgreeting s v due)
  rw [hmishap]
  exact {
    bears := {
      suits := fun stage hs => by
        rcases hcalls stage hs with hs' | ⟨s, v, due, v', rfl, hs'⟩
        · exact h.suits stage hs'
        · have hsuits := h.suits _ hs'
          exact hsuits
      probes := fun rest hs => by
        have hs' := hsame hs (by simp)
        have hgoal : c.goal? id = m.1.goal? id := by simp [goal?, hs, hs']
        rw [if_pos hgoal]
        exact h.probes rest hs'
      linked := fun goal due hs => by
        have hs' := hsame hs (by simp)
        have hgoal : c.goal? id = m.1.goal? id := by simp [goal?, hs, hs']
        rw [if_pos hgoal, hjobs]
        exact h.linked goal due hs' }
    fails := fun e he => absurd he (hfinish _) }

theorem Bears.stay {e : Event} (h : Bears settings op faults c id)
    (hmishap : c.mishap? id e = none) :
    Fares settings op ((c.mishap? id e).toList ++ faults) c id c.stay :=
  h.still hmishap (fun _ hs => .inl hs) rfl (by simp [Client.stay])

end Moves

end Client
end StreamClient
