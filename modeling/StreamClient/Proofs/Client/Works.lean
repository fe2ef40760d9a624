import StreamClient.Proofs.Client.Lookups

/-! For whom a client asks for something: an event of a call dials and calls brokers for that call
only, and only the start of a publish asks a partitioner. -/

namespace StreamClient.Client

def Effect.isFor (id : CallId) : Effect → Bool
  | .dial k _ | .call (.caller k) .. => k == id
  | .consult .. => false
  | _ => true

/-- Nobody but `id` dials or calls a broker, and no partitioner is asked. -/
def Works (id : CallId) (effects : List Effect) : Prop := ∀ x ∈ effects, x.isFor id = true

def Op.question? (c : Client) : Op → Option Consultation
  | .publish stream value o =>
    if c.closed || o.partition.isSome then none
    else some {
      partitioner := o.partitioner, stream, key := o.key, value, ackPolicy := o.ackPolicy
      snapshot := c.snapshot }
  | _ => none

inductive Asks (c : Client) (e : Event) (m : Move) : Prop
  | nobody : e.caller? = none → Light m.2 → Asks c e m
  | call (id : CallId) : e.caller? = some id → (∀ op, e = .start id op → op.question? c = none) →
    Works id m.2 → Asks c e m
  | partitioner (id : CallId) (op : Op) (question : Consultation) : e = .start id op →
    op.question? c = some question → m.2 = [.consult id question] → Asks c e m

section Works

variable {draw : Nat} {c : Client} {e : Event} {id : CallId} {m : Move} {effects : List Effect}

theorem works_nil (id : CallId) : Works id [] := fun x hx => by cases hx

theorem Works.append {a b : List Effect} (ha : Works id a) (hb : Works id b) : Works id (a ++ b) :=
  fun x hx => (List.mem_append.1 hx).elim (ha x) (hb x)

theorem works_singleton {x : Effect} (h : x.isFor id = true) : Works id [x] := fun y hy => by
  rwa [List.mem_singleton.1 hy]

theorem Light.works (h : Light effects) (id : CallId) : Works id effects := fun x hx => by
  have hwork := h x hx
  unfold Effect.isWork at hwork
  split at hwork
  · cases hwork
  · cases hwork
  · cases hwork
  · next hdial hcall hconsult =>
    unfold Effect.isFor
    split
    · exact absurd rfl (hdial _ _)
    · exact absurd rfl (hcall _ _ _)
    · exact absurd rfl (hconsult _ _)
    · rfl

theorem works_finish (c : Client) (id : CallId) (r : Except CallError Outcome) :
    Works id (c.finish id r).2 := works_singleton rfl

theorem works_map_ofOrder {orders : List (Link.Order Request)}
    (hcalls : ∀ k conn q, .call k conn q ∈ orders → k = id)
    (hdials : ∀ k a, .dial k a ∈ orders → k = id) : Works id (orders.map ofOrder) := by
  intro x hx
  obtain ⟨o, ho, rfl⟩ := List.mem_map.1 hx
  cases o with
  | dial k a => exact beq_iff_eq.2 (hdials k a ho)
  | call k conn q => exact beq_iff_eq.2 (hcalls k conn q ho)
  | _ => rfl

theorem works_of_seeks {A : Type} {pick : Option Address} {l : Link Request} {q : Request}
    {t : Link.Turn Request A} (h : Link.Seeks pick l id q t) : Works id (t.orders.map ofOrder) :=
  works_map_ofOrder (fun k conn q' hc => (h.calls k conn q' hc).1) fun k a hd => (h.dials k a hd).1

theorem works_of_silent {orders : List (Link.Order Request)} (h : Link.Silent orders) :
    Works id (orders.map ofOrder) :=
  works_map_ofOrder (fun k conn q hc => absurd hc (h.call_notMem k conn q))
    fun k a hd => absurd hd (h.dial_notMem k a)

theorem works_follow {goal : Goal} {due : Option Nat} {t : Link.Turn Request Reply}
    {next : Client → Except Fault Reply → Move} (ht : Works id (t.orders.map ofOrder))
    (hnext : ∀ c' r, Works id (next c' r).2) : Works id (c.follow id goal due t next).2 := by
  rw [follow]
  split
  · exact ht
  · exact ht.append (hnext _ _)
  · exact ht.append (works_finish _ id _)

theorem works_lookup (draw : Nat) (c : Client) (id : CallId) (s : Subscription) (left : Nat) :
    Works id (lookup draw c id s left).2 := by
  cases lookup_finds draw c id s left with
  | nowhere _ _ hm | late _ _ _ hm =>
    rw [hm]
    exact works_finish c id _
  | later _ _ _ _ hm =>
    rw [hm]
    exact works_nil id
  | reuses _ _ _ _ _ _ hm =>
    rw [hm]
    exact works_singleton rfl
  | dials _ _ _ _ hm =>
    rw [hm]
    exact works_singleton (beq_self_eq_true id)

theorem works_settle (draw : Nat) (c : Client) (id : CallId) (goal : Goal)
    (r : Except Fault Reply) : Works id (settle draw c id goal r).2 := by
  have hcreated (c : Client) (r : Except Fault Reply) : Works id (c.created id r).2 := by
    cases r <;> exact works_finish _ id _
  cases goal <;> cases r
  case create.ok =>
    exact works_follow (works_of_seeks (Link.submit_seeks _ c.link id .fetchMetadata)) hcreated
  case resolve.ok s left reply => exact works_lookup draw _ id s left
  all_goals exact works_finish _ id _

theorem works_engage (draw : Nat) {goal : Goal} {due : Option Nat} {t : Link.Turn Request Reply}
    (ht : Works id (t.orders.map ofOrder)) : Works id (engage draw c id goal due t).2 :=
  works_follow ht fun c r => works_settle draw c id goal r

theorem works_submit (draw : Nat) (c : Client) (id : CallId) (goal : Goal) (q : Request) :
    Works id (submit draw c id goal q).2 :=
  works_engage draw (works_of_seeks (Link.submit_seeks _ c.link id q))

theorem works_answered (draw : Nat) (hs : c.Sensible) {goal : Goal} {due due' : Option Nat}
    (hstage : c.calls.get? id = some (.linking goal due)) (r : Except Fault Reply) :
    Works id (engage draw c id goal due' (c.link.answered (c.pick draw) id r)).2 := by
  obtain ⟨q, hwants, -⟩ := hs.wants id goal due hstage
  cases r with
  | error f => exact works_engage draw (works_of_seeks (Link.answered_error_seeks _ hwants f))
  | ok reply =>
    refine works_engage draw ?_
    unfold Link.answered
    split <;> exact works_nil id

theorem works_closeLink {t : Link.Turn Request Reply} (ht : Link.Silent t.orders) :
    Works id (c.closeLink id t).2 := by
  rw [closeLink]
  split
  · exact works_of_silent ht
  · exact (works_of_silent ht).append (works_finish _ id _)

theorem works_probe (c : Client) (id : CallId) (last : Option Fault) (addresses : List Address) :
    Works id (c.probe id last addresses).2 := by
  cases addresses with
  | nil => exact works_finish c id _
  | cons a rest => exact works_singleton (beq_self_eq_true id)

theorem works_flatMap_close {α : Type} (l : List α) (f : α → List Conn) :
    Works id (l.flatMap fun x => (f x).map .close) := fun x hx => by
  obtain ⟨y, -, hy⟩ := List.mem_flatMap.1 hx
  obtain ⟨conn, -, rfl⟩ := List.mem_map.1 hy
  rfl

theorem works_abandon (c : Client) (id : CallId) : Works id (c.abandon id).2 := fun x hx => by
  rcases effect_of_abandon hx with ⟨who, rfl⟩ | ⟨who, rfl⟩ <;> rfl

theorem question?_of_closed (h : c.closed = true) (op : Op) : op.question? c = none := by
  cases op <;> simp [Op.question?, h]

theorem asks_start (draw : Nat) (c : Client) (id : CallId) (op : Op) :
    Asks c (.start id op) (start draw c id op) := by
  have hworks {m : Move} (hq : op.question? c = none) (hm : Works id m.2) :
      Asks c (.start id op) m := by
    refine .call id rfl (fun op' h => ?_) hm
    obtain ⟨-, rfl⟩ := Event.start.inj h
    exact hq
  unfold start
  split
  · next hclosed =>
    exact hworks (question?_of_closed (Bool.and_eq_true_iff.1 hclosed).1 op) (works_finish c id _)
  · next hopen =>
    cases op with
    | connect =>
      refine hworks rfl ?_
      rw [openCall, connect]
      split
      · exact works_finish c id _
      · exact works_probe c id none _
    | createStream name o =>
      refine hworks rfl ?_
      rw [openCall]
      split
      · exact works_finish c id _
      · exact works_submit draw c id _ _
    | deleteStream name => exact hworks rfl (works_submit draw c id _ _)
    | publish stream value o =>
      have hclosed : c.closed = false := by simpa using hopen
      cases hp : o.partition with
      | some p =>
        refine hworks (by simp [Op.question?, hp]) ?_
        simp only [openCall, hp]
        exact works_submit draw c id _ _
      | none =>
        refine .partitioner id _ _ rfl ?_ (by simp only [openCall, hp]; rfl)
        simp [Op.question?, hclosed, hp]
    | publishToSubject subject value o => exact hworks rfl (works_submit draw c id _ _)
    | subscribe stream o => exact hworks rfl (works_lookup draw c id _ _)
    | fetchMetadata => exact hworks rfl (works_submit draw c id _ _)
    | close =>
      refine hworks rfl ?_
      rw [openCall, close]
      split
      · exact works_finish c id _
      · exact (works_flatMap_close c.pools.values fun p => p.close.2).append
          (works_closeLink (Link.shut_silent c.link id).2)

theorem works_dialed (draw : Nat) (hs : c.Sensible) (r : Except Fault Conn) :
    Works id (dialed draw c id r).2 := by
  unfold dialed
  split
  · exact works_submit draw _ id _ _
  · exact works_probe c id _ _
  · next goal due hstage =>
    obtain ⟨q, hwants, -⟩ := hs.wants id goal due hstage
    exact works_engage draw (works_of_seeks (Link.dialed_seeks _ hwants _))
  · exact works_singleton rfl
  · exact works_finish c id _
  · exact works_nil id

theorem works_run (draw : Nat) (hc : c.Coherent) (hs : c.Sensible) :
    Works id (run draw c (.caller id)).2 := by
  simp only [run]
  split
  · next goal due hstage =>
    obtain ⟨q, hwants, -⟩ := hs.wants id goal due hstage
    exact works_engage draw (works_of_seeks (Link.resume_seeks _ hwants))
  · next hstage =>
    have hjob : c.link.jobs.get? id = some .shutting := by
      have hf := hc.fits id
      rw [hstage] at hf
      exact hf
    exact works_closeLink (Link.resume_shutting_silent _ hjob).2
  · exact works_finish c id _
  · exact works_nil id

theorem works_lapse (draw : Nat) (hs : c.Sensible) : Works id (lapse draw c id).2 := by
  unfold lapse
  split
  · next goal due hstage =>
    split
    · split
      · exact Works.append (works_singleton rfl) (works_answered draw hs hstage _)
      · exact works_nil id
    · exact works_nil id
  · split
    · exact works_submit draw c id _ _
    · exact works_nil id
  · exact works_finish c id _
  · split
    · split
      · exact ((light_unsubscribe c id).works id).append (works_finish _ id _)
      · exact works_nil id
    · exact works_nil id
  · exact works_nil id

theorem step_asks (draw : Nat) (hc : c.Coherent) (hs : c.Sensible) (e : Event) :
    Asks c e (step draw c e) := by
  have hcall {k : CallId} {e : Event} (he : e.caller? = some k) (hstart : ∀ op, e ≠ .start k op)
      (hm : Works k (step draw c e).2) : Asks c e (step draw c e) :=
    .call k he (fun op h => absurd h (hstart op)) hm
  cases e with
  | start k op => exact asks_start draw c k op
  | dialed k r => exact hcall rfl (by simp) (works_dialed draw hs r)
  | answered who r =>
    cases who with
    | session k => exact .nobody rfl (light_stimulate c k _)
    | caller k =>
      refine hcall rfl (by simp) ?_
      simp only [step, answered]
      split
      · next goal due hstage => exact works_answered draw hs hstage r
      · exact works_nil k
  | chosen k partition =>
    refine hcall rfl (by simp) ?_
    simp only [step, chosen]
    split
    · exact works_submit draw c k _ _
    · exact works_nil k
  | run who =>
    cases who with
    | session k => exact .nobody rfl (light_stimulate c k _)
    | caller k => exact hcall rfl (by simp) (works_run draw hc hs)
  | item k i => exact .nobody rfl (light_stimulate c k _)
  | ended k => exact .nobody rfl (light_stimulate c k _)
  | unsubscribe k => exact .nobody rfl (light_unsubscribe c k)
  | abandon k => exact hcall rfl (by simp) (works_abandon c k)
  | lapse k => exact hcall rfl (by simp) (works_lapse draw hs)
  | tick now => exact .nobody rfl light_nil
  | expire =>
    refine .nobody rfl fun x hx => ?_
    obtain ⟨p, -, hp⟩ := List.mem_flatMap.1 hx
    obtain ⟨conn, -, rfl⟩ := List.mem_map.1 hp
    rfl

end Works

end StreamClient.Client
