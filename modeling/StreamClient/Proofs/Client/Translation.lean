import StreamClient.Proofs.Client.Delivery
import StreamClient.Proofs.Client.Search

/-! How failures are told: whatever a call or a running subscription fails with is the fault that
ended it, under the name that the operation and its phase have for it. -/

namespace StreamClient

namespace Session

section Reports

variable {s : Session} {heard : Bool} {stimulus : Stimulus} {e : CallError}

theorem report_mem_farewell {report : Option CallError} :
    .report e ∈ s.farewell report ↔ report = some e := by
  simp [farewell, eq_comm]

theorem report_mem_deeds : .report e ∈ s.deeds heard stimulus ↔ s.cancelled = false ∧
    s.phase = .streaming ∧ ∃ f, stimulus = .item (.error f) ∧ s.failure f = some e := by
  constructor
  · intro h
    cases ht : s.turn heard stimulus with
    | goOn s' actions =>
      simp only [deeds, ht] at h
      split at h <;> simp at h
    | «over» actions report =>
      have hc : report ≠ none → s.cancelled = false := fun hreport => by
        cases hc : s.cancelled with
        | false => rfl
        | true =>
          simp only [turn, hc, if_true] at ht
          exact absurd (Turn.over.inj ht).2.symm hreport
      obtain ⟨hdeeds, hends⟩ := ends_of_turn ht
      have hreport : report = some e := by
        rw [hdeeds] at h
        exact report_mem_farewell.1 ((List.mem_append.1 h).resolve_left (by simp))
      subst hreport
      refine ⟨hc (by simp), ?_⟩
      generalize s.takes stimulus = signals at hends
      generalize hreport : some e = report at hends
      cases hends with
      | fails f hp => exact ⟨hp, f, rfl, rfl⟩
      | _ => cases hreport
  · rintro ⟨hc, hp, f, rfl, hf⟩
    simp [deeds, turn, hc, hp, hf, farewell]

end Reports

end Session

namespace Client

open Session (Deed)

section Reports

variable {settings : Settings} {now : Nat} {history : History} {c : Client} {e : Event}
  {id : CallId} {error : CallError}

theorem mem_shown_report {effects : List Effect} :
    .report error ∈ shown effects id ↔ .report id error ∈ effects := by
  refine ⟨fun h => ?_, fun h => List.mem_filterMap.2 ⟨_, h, by simp [Effect.deed?]⟩⟩
  obtain ⟨x, hx, hd⟩ := List.mem_filterMap.1 h
  unfold Effect.deed? at hd
  split at hd <;> simp at hd
  obtain ⟨rfl, rfl⟩ := hd
  exact hx

theorem feedback_of_failure {s : Session} {f : Fault} :
    .error error ∈ s.subscription.feedback [.item (.error f)] ↔ s.failure f = some error := by
  rw [Session.feedback_error]
  simp

theorem Run.report_iff (h : Run settings now history c) (draw : Nat) (e : Event) :
    .report id error ∈ (step draw c e).2 ↔ ∃ f s, e = .item id (.error f) ∧
      c.sessions.get? id = some s ∧ s.phase = .streaming ∧ s.cancelled = false ∧
        .error error ∈ s.subscription.feedback [.item (.error f)] := by
  rw [← mem_shown_report]
  have hturn_of {f : Fault} (he : e = .item id (.error f)) :
      e.turn? = some (id, .item (.error f)) := by rw [he]; rfl
  cases meets draw h.keeps.coherent h.pooled e id with
  | elsewhere hskips _ _ =>
    rw [hskips.shown]
    refine ⟨fun hmem => (by cases hmem), ?_⟩
    rintro ⟨f, s, he, hs, hp, hc, hmem⟩
    -- a turn of the session that is there would be logged
    have hdeeds := hskips.deeds.1
    rw [(deeds_of_turn (hturn_of he) hs).1] at hdeeds
    have hreport : .report error ∈ s.deeds (c.isHeard id) (.item (.error f)) :=
      Session.report_mem_deeds.2 ⟨hc, hp, f, rfl, feedback_of_failure.1 hmem⟩
    rw [hdeeds] at hreport
    cases hreport
  | aside hturn haside =>
    rw [haside.silent]
    refine ⟨fun hmem => (by cases hmem), ?_⟩
    rintro ⟨f, s, he, -⟩
    rw [hturn_of he] at hturn
    cases hturn
  | turn stimulus s hturn hs =>
    rw [(turned_step draw hturn hs).shown, if_pos rfl, List.mem_filter, Session.report_mem_deeds]
    constructor
    · rintro ⟨⟨hc, hp, f, rfl, hf⟩, -⟩
      refine ⟨f, s, ?_, hs, hp, hc, feedback_of_failure.2 hf⟩
      unfold Event.turn? at hturn
      split at hturn <;> cases hturn
      rfl
    · rintro ⟨f, s', he, hs', hp, hc, hmem⟩
      obtain rfl := Option.some.inj (hs.symm.trans hs')
      obtain ⟨-, rfl⟩ := Prod.mk.inj (Option.some.inj (hturn.symm.trans (hturn_of he)))
      exact ⟨⟨hc, hp, f, rfl, feedback_of_failure.1 hmem⟩, rfl⟩

end Reports

section Ends

variable {settings : Settings} {now : Nat} {history : History} {c : Client} {draw : Nat} {e : Event}
  {id : CallId} {op : Op} {faults : List Fault} {a : Address} {f : Fault}
  {result : Except CallError Outcome}

theorem Bears.ends {goal : Goal} {due : Option Nat} (h : Bears settings op faults c id)
    (hs : c.calls.get? id = some (.linking goal due)) (hpick : c.pick draw = some a)
    (hstart : ∀ op, e ≠ .start id op) (hdialing : ∀ r, e = .dialed id r → c.isDialing id = true)
    (he : e.caller? = some id) (hok : ∀ reply, e ≠ .answered (.caller id) (.ok reply))
    (hf : ((c.mishap? id e).toList ++ faults).head? = some f)
    (hresult : .finish id result ∈ (Client.step draw c e).2) :
    result = .error (op.failure false f) ∨ c.goal? id = some .created ∧ result = .ok .done := by
  obtain ⟨j, hj, hb⟩ := h.linked goal due hs
  cases dispatches_step hpick hs hj hb (by omega) hstart hdialing he with
  | stays _ hm =>
    rw [hm] at hresult
    cases hresult
  | abandons _ hm =>
    rw [hm] at hresult
    exact absurd hresult ((plain_abandon c id).2 id _)
  | turns due' t before ht _ hanswer hplain hm =>
    rw [hm] at hresult
    have hturn := (List.mem_append.1 hresult).resolve_left (hplain.2 id _)
    have horders := plain_map_ofOrder t.orders
    cases ht with
    | goes j' hr hj' hb' =>
      simp only [engage, follow, hr] at hturn
      exact absurd hturn (horders.2 id _)
    | succeeds reply hr hj' => exact absurd (hanswer reply hr) (hok reply)
    | fails f' hf' hall hr hj' =>
      obtain rfl := Option.some.inj (hf.symm.trans hf')
      simp only [engage, follow, hr] at hturn
      have hlast := (List.mem_append.1 hturn).resolve_left (horders.2 id _)
      rcases settle_failure draw { c with link := t.link } id (h.suits _ hs) f with ⟨rfl, hm'⟩ | hm'
      · rw [hm'] at hlast
        obtain ⟨-, rfl⟩ := Effect.finish.inj (List.mem_singleton.1 hlast)
        exact .inr ⟨by simp [goal?, hs, Stage.goal?], rfl⟩
      · rw [hm'] at hlast
        obtain ⟨-, rfl⟩ := Effect.finish.inj (List.mem_singleton.1 hlast)
        exact .inl rfl

theorem Run.finish_of_probing (h : Run settings now history c) (hb : settings.bootstrap ≠ [])
    (draw : Nat) (hp : Possible history c e) {rest : List Address}
    (hs : c.calls.get? id = some (.probing rest))
    (hresult : .finish id result ∈ (step draw c e).2) : ∃ f, result = .error (.rpc f) := by
  obtain ⟨a, hpick⟩ := h.exists_pick hb draw
  obtain ⟨r, rfl⟩ := h.dialed_of_probing draw hp hs hresult
  cases r with
  | ok conn =>
    have hwaits := submit_waits (c := { c with link := { c.link with cached := some conn } })
      hpick h.attempts_pos id .connect .fetchMetadata
    simp only [step, dialed, hs] at hresult
    exact absurd hresult (hwaits.2.2 result)
  | error f =>
    simp only [step, dialed, hs] at hresult
    cases rest with
    | cons b rest => simp [probe] at hresult
    | nil => exact ⟨f, (Effect.finish.inj (List.mem_singleton.1 hresult)).2⟩

theorem Run.not_finish_of_choosing (h : Run settings now history c) (hb : settings.bootstrap ≠ [])
    (draw : Nat) (hp : Possible history c e) {d : Draft}
    (hs : c.calls.get? id = some (.choosing d)) : .finish id result ∉ (step draw c e).2 := by
  intro hresult
  obtain ⟨a, hpick⟩ := h.exists_pick hb draw
  have hstay {m : Move} (hm : m = c.stay) : .finish id result ∉ m.2 :=
    (plain_of_stay hm).2 id result
  cases Event.ofCall (h.caller_of_finish draw hs (by simp [Rests]) hresult) with
  | start op => cases hs.symm.trans (h.keeps.admits hp).1
  | dialed r => exact hstay (by simp only [step, dialed, hs]) hresult
  | answered r => exact hstay (by simp only [step, answered, hs]) hresult
  | chosen partition =>
    simp only [step, chosen, hs] at hresult
    exact (submit_waits hpick h.attempts_pos id .publish _).2.2 result hresult
  | run => exact hstay (by simp only [step, Client.run, hs]) hresult
  | abandon => exact (plain_abandon c id).2 id result hresult
  | lapse => exact hstay (by simp only [step, lapse, hs]) hresult

/-- A call that ends on a setback, and not with an answer, returns it under the name that its
operation has for it. Only a call that had created its stream before does not mind. -/
theorem Run.ends (h : Run settings now history c) (hb : settings.bootstrap ≠ []) (draw : Nat)
    (hp : Possible history c e)
    (hop : ∃ r ∈ (⟨c, draw, e⟩ :: history : History), r.event = .start id op)
    (hunheard : c.isHeard id = false) (hok : ∀ reply, e ≠ .answered (.caller id) (.ok reply))
    (hf : ((c.mishap? id e).toList ++ setbacks history id).head? = some f)
    (hresult : .finish id result ∈ (step draw c e).2) :
    result = .error (op.failure false f) ∨ c.goal? id = some .created ∧ result = .ok .done := by
  obtain ⟨a, hpick⟩ := h.exists_pick hb draw
  have hfails := (h.fares hb draw hp hop).fails
  have hrpc {f' : Fault} (hr : result = .error (.rpc f')) : result = .error (op.failure false f) := by
    subst hr
    obtain ⟨hhead, hkind, -⟩ := hfails _ hresult hunheard f' rfl
    obtain rfl := Option.some.inj (hhead.symm.trans hf)
    rw [hkind]
  obtain ⟨r, hr, hevent⟩ := hop
  rcases List.mem_cons.1 hr with rfl | hr
  · -- nothing went wrong before the call started
    dsimp only at hevent
    subst hevent
    rw [h.keeps.mishap_of_new hp.1 hp, h.setbacks_of_new hp.1] at hf
    cases hf
  have hid : id ∈ started history := mem_started.2 ⟨r, hr, _, hevent⟩
  have hbears := h.bears hb ⟨r, hr, hevent⟩
  cases hs : c.calls.get? id with
  | none => exact absurd hresult ((h.gone draw hp hs hid).2 result)
  | some stage =>
    cases stage with
    | greeting s v due => simp [isHeard, hs] at hunheard
    | linking goal due =>
      have he := h.caller_of_finish draw hs (by simp [Rests]) hresult
      exact hbears.ends hs hpick (hp.not_start hid) hp.dialing he hok hf hresult
    | joining s b =>
      obtain ⟨f', hr⟩ := h.finish_of_joining draw hp hs hresult
      exact .inl (hrpc hr)
    | pausing s left due =>
      cases h.pausing hb draw hp hs with
      | waits _ _ hnone | resumes _ _ _ _ hnone | abandoned _ _ hnone =>
        exact absurd hresult (hnone result)
    | closing =>
      obtain rfl : op = .close := hbears.suits _ hs
      have hmishap : c.mishap? id e = none :=
        h.keeps.mishap_of_off hp (by simp [hs]) (by simp [isDialing, hs])
      rw [hmishap, h.setbacks_of_close hb ⟨r, hr, hevent⟩] at hf
      cases hf
    | probing rest =>
      obtain ⟨f', hr⟩ := h.finish_of_probing hb draw hp hs hresult
      exact .inl (hrpc hr)
    | choosing d => exact absurd hresult (h.not_finish_of_choosing hb draw hp hs)

end Ends

section Law

variable {settings : Settings} {now : Nat} {history : History} {c : Client} {e : Event}
  {id : CallId}

/-- `f` is what the broker decided in time, what the client made of the end of the time for the
handshake in the event `e`, or that the session was over because it was unsubscribed. -/
def EndsHandshake (settings : Settings) (earlier : History) (id : CallId) (e : Event) (f : Fault) :
    Prop :=
  (∃ t, verdicts earlier id = [(t, .error f)]) ∨
  (e = .lapse id ∧ verdicts earlier id = [] ∧
    ∃ d, settings.handshakeTimeout = some d ∧ f = noHandshake d) ∨
  f = endedUnheard ∧ Unsubscribed earlier id

/-- How the failures of a run are told. -/
structure TranslationLaw (settings : Settings) (history : History) : Prop where
  /-- A call that has no session yet returns the latest of its setbacks. -/
  underway : ∀ r earlier, r :: earlier <:+ history → ∀ id error f,
    .finish id (.error error) ∈ r.move.2 → r.before.isHeard id = false → error.fault? = some f →
      ∃ op, (∃ r' ∈ r :: earlier, r'.event = .start id op) ∧ error = op.failure false f ∧
        error.status? = some f.status ∧
        ((r.before.mishap? id r.event).toList ++ setbacks earlier id).head? = some f
  /-- A call that ends on a setback, and not with an answer, returns it and nothing else, unless it
  had created its stream by then. -/
  ended : ∀ r earlier, r :: earlier <:+ history → ∀ id result f, .finish id result ∈ r.move.2 →
    r.before.isHeard id = false → (∀ reply, r.event ≠ .answered (.caller id) (.ok reply)) →
      ((r.before.mishap? id r.event).toList ++ setbacks earlier id).head? = some f →
        ∃ op, (∃ r' ∈ r :: earlier, r'.event = .start id op) ∧
          ((∃ error, result = .error error ∧ error = op.failure false f ∧ error.fault? = some f ∧
              error.status? = some f.status) ∨
            r.before.goal? id = some .created ∧ result = .ok .done)
  brought : ∀ id, ∀ f ∈ setbacks history id, ∃ r ∈ history, r.before.mishap? id r.event = some f
  handshake : ∀ r earlier, r :: earlier <:+ history → ∀ id error,
    .finish id (.error error) ∈ r.move.2 → r.before.isHeard id = true →
      ∃ op f, (∃ r' ∈ earlier, r'.event = .start id op) ∧ error = op.failure true f ∧
        error.fault? = some f ∧ error.status? = some f.status ∧
        EndsHandshake settings earlier id r.event f
  /-- A subscriber is told of the item that ends its stream, if it is told of an error at all. -/
  running : ∀ r ∈ history, ∀ id error, .report id error ∈ r.move.2 ↔
    ∃ f s, r.event = .item id (.error f) ∧ r.before.sessions.get? id = some s ∧
      s.phase = .streaming ∧ s.cancelled = false ∧
        .error error ∈ s.subscription.feedback [.item (.error f)]
  carried : ∀ r ∈ history, ∀ id error f, .report id error ∈ r.move.2 →
    r.event = .item id (.error f) → error.fault? = some f ∧ error.status? = some f.status
  subscribed : ∀ r earlier, r :: earlier <:+ history → ∀ id s,
    r.before.sessions.get? id = some s → ∃ r' ∈ earlier, ∃ stream o,
      r'.event = .start id (.subscribe stream o) ∧ s.subscription = o.subscription stream

theorem fault?_of_feedback {s : Subscription} {f : Fault} {error : CallError}
    (h : .error error ∈ s.feedback [.item (.error f)]) : error.fault? = some f := by
  unfold Subscription.feedback at h
  split at h
  · cases h
  all_goals
    obtain rfl := Callback.error.inj (List.mem_singleton.1 h)
    rfl

theorem fault?_reply {s : Subscription} {f : Fault} {error : CallError}
    (h : .error error = s.reply (.error f)) : error.fault? = some f := by
  obtain rfl := Except.error.inj h
  exact fault?_ofHandshake ..

theorem status?_of_fault? {error : CallError} {f : Fault} (h : error.fault? = some f) :
    error.status? = some f.status := by
  rw [CallError.status?, h]
  rfl

theorem Run.ends_handshake (h : Run settings now history c) (draw : Nat) (hp : Possible history c e)
    (hheard : c.isHeard id = true) {error : CallError}
    (he : .finish id (.error error) ∈ (step draw c e).2) :
    ∃ s due v f, c.calls.get? id = some (.greeting s v due) ∧
      .error error = s.reply (.error f) ∧ EndsHandshake settings history id e f := by
  rcases h.replies draw hp hheard he with
    ⟨s, v, due, hs, hreply⟩ | ⟨s, due, d, hlapse, hs, hd, -, hreply⟩
  · cases v with
    | ok u => cases hreply
    | error f =>
      refine ⟨s, due, _, f, hs, hreply, ?_⟩
      rcases ((h.shakes id).of_told hs).1 with ⟨t, hverdicts, -⟩ | ⟨hunheard, hunsubscribed⟩
      · exact .inl ⟨t, hverdicts⟩
      · exact .inr (.inr ⟨Except.error.inj hunheard, hunsubscribed⟩)
  · have hverdicts := ((h.shakes id).of_waiting hs).2.1
    exact ⟨s, some due, none, noHandshake d, hs, hreply, .inr (.inl ⟨hlapse, hverdicts, d, hd, rfl⟩)⟩

/-- Over every run of a client with a bootstrap list that the build accepts: an error carries the
fault that ended the call or the subscription, and its kind is decided by the operation, by whether
the call had a connection of its own, and by the status alone. The dialer keeps to `Fresh`. -/
theorem Run.translation_law (h : Run settings now history c) (hb : settings.bootstrap ≠ []) :
    TranslationLaw settings history where
  underway r earlier hsuffix id error f he hunheard hf := by
    obtain ⟨hrun, hp⟩ := h.of_suffix hsuffix
    obtain ⟨r', hr', op, hevent⟩ := hrun.started_of_finish r.draw hp he
    obtain ⟨hhead, hkind, -⟩ :=
      (hrun.fares hb r.draw hp ⟨r', hr', hevent⟩).fails error he hunheard f hf
    exact ⟨op, ⟨r', hr', hevent⟩, hkind, status?_of_fault? hf, hhead⟩
  ended r earlier hsuffix id result f hresult hunheard hok hf := by
    obtain ⟨hrun, hp⟩ := h.of_suffix hsuffix
    obtain ⟨r', hr', op, hevent⟩ := hrun.started_of_finish r.draw hp hresult
    refine ⟨op, ⟨r', hr', hevent⟩, ?_⟩
    rcases hrun.ends hb r.draw hp ⟨r', hr', hevent⟩ hunheard hok hf hresult with rfl | hcreated
    · have hfault := fault?_failure op false f
      exact .inl ⟨_, rfl, rfl, hfault, status?_of_fault? hfault⟩
    · exact .inr hcreated
  brought id f hf := mem_setbacks hf
  handshake r earlier hsuffix id error he hheard := by
    obtain ⟨hrun, hp⟩ := h.of_suffix hsuffix
    obtain ⟨s, due, v, f, hs, hreply, hends⟩ := hrun.ends_handshake r.draw hp hheard he
    obtain ⟨r', hr', op, hevent, haim⟩ := (hrun.life id).aim _ hs
    have hf := fault?_reply hreply
    refine ⟨op, f, ⟨r', hr', hevent⟩, ?_, hf, status?_of_fault? hf, hends⟩
    rw [failure_of_joined haim]
    exact Except.error.inj hreply
  running r hr id error := by
    obtain ⟨earlier, hrun, -⟩ := h.of_mem hr
    exact hrun.report_iff r.draw r.event
  carried r hr id error f he hevent := by
    obtain ⟨earlier, hrun, -⟩ := h.of_mem hr
    obtain ⟨f', s, hevent', -, -, -, hfeedback⟩ := (hrun.report_iff r.draw r.event).1 he
    obtain ⟨-, heq⟩ := Event.item.inj (hevent.symm.trans hevent')
    obtain rfl := Except.error.inj heq
    have hfault := fault?_of_feedback hfeedback
    exact ⟨hfault, status?_of_fault? hfault⟩
  subscribed r earlier hsuffix id s hs := by
    obtain ⟨hrun, -⟩ := h.of_suffix hsuffix
    obtain ⟨hresolved, -⟩ := hrun.routes.held id s hs
    exact hrun.routes.asked id _ _ hresolved

end Law

/-- A broker that has no stream to delete is reached at the second attempt. One subscription is not
accepted, and another one fails after it was. -/
def refused : List (Nat × Event) :=
  [(0, .start 0 .connect), (0, .dialed 0 (.ok 1)),
    (0, .answered (.caller 0) (.ok { topology := lone })), (0, .start 1 (.deleteStream "t")),
    (0, .answered (.caller 1) (.error (.unavailable "gone"))), (0, .dialed 1 (.ok 2)),
    (0, .answered (.caller 1) (.error (.notFound "no t"))), (0, .start 2 (.subscribe "s" {})),
    (0, .dialed 2 (.ok 3)), (0, .run (.session 2)),
    (0, .answered (.session 2) (.error (.notFound "not here"))), (0, .run (.caller 2)),
    (0, .start 3 (.subscribe "s" {})), (0, .run (.session 3)), (0, .answered (.session 3) (.ok {})),
    (0, .item 3 (.ok {})), (0, .run (.caller 3)),
    (0, .item 3 (.error ⟨.failedPrecondition, "paused"⟩))]

theorem translation_law_refused :
    ∃ s, play ([], .fresh { bootstrap := ["a:1"], attempts := 2 } 0) refused = some s ∧
      TranslationLaw { bootstrap := ["a:1"], attempts := 2 } s.1 ∧
      .finish 1 (.error (.noSuchStream "t" (.notFound "no t"))) ∈ trail s.1 ∧
      .finish 2 (.error (.noSuchPartition "s" 0 (some (.notFound "not here")))) ∈ trail s.1 ∧
      told (trail s.1) 3 =
        [.error (.partitionPaused "s" 0 ⟨.failedPrecondition, "paused"⟩)] := by
  have hends : (play ([], .fresh { bootstrap := ["a:1"], attempts := 2 } 0) refused).map
      (fun s => decide (
        .finish 1 (.error (.noSuchStream "t" (.notFound "no t"))) ∈ trail s.1 ∧
        .finish 2 (.error (.noSuchPartition "s" 0 (some (.notFound "not here")))) ∈ trail s.1 ∧
        told (trail s.1) 3 =
          [.error (.partitionPaused "s" 0 ⟨.failedPrecondition, "paused"⟩)])) = some true := by
    decide +kernel
  obtain ⟨s, hs, hrun, hends⟩ := exists_run hends
  exact ⟨s, hs, hrun.translation_law (by simp), hends⟩

end Client

end StreamClient
