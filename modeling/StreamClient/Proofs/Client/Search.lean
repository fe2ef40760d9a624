import StreamClient.Proofs.Client.Fallbacks
import StreamClient.Proofs.Client.Routing
import StreamClient.Proofs.Client.Verdicts

/-! How a subscribe call looks for its broker: it looks its partition up, pauses and refreshes the
metadata in turns, until the partition is found or no lookup is left. -/

namespace StreamClient.Client

/-- What a subscribe call does to find its broker. -/
inductive Leg where
  | looks (t : Nat) (answer : Option Topology) (found : Option Address)
  | refreshes (t : Nat)
  deriving DecidableEq

def Leg.isLookup : Leg → Bool
  | .looks .. => true
  | .refreshes _ => false

def Leg.isRefresh : Leg → Bool
  | .looks .. => false
  | .refreshes _ => true

def Leg.isMiss : Leg → Bool
  | .looks _ _ none => true
  | _ => false

def Leg.answer? : Leg → Option Topology
  | .looks _ answer _ => answer
  | .refreshes _ => none

def resumes (c : Client) (id : CallId) : Event → Bool
  | .lapse k =>
    match c.calls.get? k with
    | some (.pausing _ _ due) => k == id && decide (due ≤ c.now)
    | _ => false
  | _ => false

def Record.leg? (id : CallId) (r : Record) : Option Leg :=
  match r.before.looksUp? r.event with
  | some (k, _, _) =>
    if k = id then
      some (.looks r.before.now (r.before.fetched? r.event)
        (r.resolved?.map fun found => found.2.2))
    else none
  | none => if r.before.resumes id r.event then some (.refreshes r.before.now) else none

def way (history : History) (id : CallId) : List Leg := history.filterMap (Record.leg? id)

/-- The ways with `n` lookups. `last` is when the last of these was and what it found, unless the
metadata are being refreshed since. -/
inductive Searches (delay : Nat) : Nat → Option (Nat × Option Address) → List Leg → Prop
  | start : Searches delay 0 none []
  | looks {n : Nat} {way : List Leg} (t : Nat) (answer : Option Topology) (found : Option Address) :
    Searches delay n none way → (answer.isSome ↔ n ≠ 0) →
      Searches delay (n + 1) (some (t, found)) (.looks t answer found :: way)
  | refreshes {n t : Nat} {way : List Leg} (t' : Nat) : Searches delay n (some (t, none)) way →
    Span.pauseEnd t delay ≤ t' → Searches delay n none (.refreshes t' :: way)

section Way

variable {delay n t : Nat} {last : Option (Nat × Option Address)} {l : List Leg}

theorem Searches.counts (h : Searches delay n last l) : l.countP Leg.isLookup = n ∧
    l.countP Leg.isRefresh + last.toList.length = n ∧ (l.filterMap Leg.answer?).length = n - 1 := by
  induction h with
  | start => exact ⟨rfl, rfl, rfl⟩
  | @looks n l t answer found _ hanswer ih =>
    obtain ⟨hlookups, hrefreshes, hanswers⟩ := ih
    refine ⟨?_, ?_, ?_⟩
    · rw [List.countP_cons_of_pos rfl, hlookups]
    · rw [List.countP_cons_of_neg (by simp [Leg.isRefresh])]
      simpa using hrefreshes
    · cases answer with
      | none =>
        have hn : n = 0 := by simpa using hanswer
        simp only [List.filterMap_cons, Leg.answer?, hanswers, hn]
      | some answer =>
        have hn : n ≠ 0 := by simpa using hanswer
        simp only [List.filterMap_cons, Leg.answer?, List.length_cons, hanswers]
        omega
  | refreshes t' _ _ ih =>
    obtain ⟨hlookups, hrefreshes, hanswers⟩ := ih
    refine ⟨?_, ?_, ?_⟩
    · rw [List.countP_cons_of_neg (by simp [Leg.isLookup]), hlookups]
    · rw [List.countP_cons_of_pos rfl]
      simpa using hrefreshes
    · simp only [List.filterMap_cons, Leg.answer?, hanswers]

theorem Searches.misses (h : Searches delay n last l) :
    l.countP Leg.isMiss + (last.bind Prod.snd).toList.length = n := by
  induction h with
  | start => rfl
  | looks t answer found _ _ ih =>
    cases found with
    | none =>
      rw [List.countP_cons_of_pos rfl]
      simpa using ih
    | some a =>
      rw [List.countP_cons_of_neg (by simp [Leg.isMiss])]
      simpa using ih
  | refreshes t' _ _ ih =>
    rw [List.countP_cons_of_neg (by simp [Leg.isMiss])]
    simpa using ih

theorem Searches.of_found (h : Searches delay n last l) {answer : Option Topology} {a : Address}
    (hm : .looks t answer (some a) ∈ l) :
    last = some (t, some a) ∧ ∃ before, l = .looks t answer (some a) :: before := by
  induction h with
  | start => cases hm
  | looks t' answer' found _ _ ih =>
    rcases List.mem_cons.1 hm with heq | hm
    · obtain ⟨rfl, rfl, rfl⟩ := Leg.looks.inj heq
      exact ⟨rfl, _, rfl⟩
    · cases (ih hm).1
  | refreshes t' _ _ ih =>
    rcases List.mem_cons.1 hm with heq | hm
    · cases heq
    · cases (ih hm).1

theorem Searches.exists_looks {found : Option Address} (h : Searches delay n (some (t, found)) l) :
    ∃ answer before, l = .looks t answer found :: before := by
  cases h with
  | looks t answer found _ _ => exact ⟨answer, _, rfl⟩

theorem Searches.ne_zero {x : Nat × Option Address} (h : Searches delay n (some x) l) : n ≠ 0 := by
  cases h
  exact Nat.succ_ne_zero _

end Way

section Step

variable {settings : Settings} {now : Nat} {history : History} {c : Client} {draw : Nat} {e : Event}
  {id : CallId} {s : Subscription} {left : Nat}

theorem resumes_iff : c.resumes id e = true ↔ e = .lapse id ∧
    ∃ s left due, c.calls.get? id = some (.pausing s left due) ∧ due ≤ c.now := by
  constructor
  · intro h
    unfold resumes at h
    split at h
    · next k =>
      split at h
      · next s left due hs =>
        obtain ⟨rfl, hdue⟩ : k = id ∧ due ≤ c.now := by simpa using h
        exact ⟨rfl, s, left, due, hs, hdue⟩
      · cases h
    · cases h
  · rintro ⟨rfl, s, left, due, hs, hdue⟩
    simp [resumes, hs, hdue]

theorem due_le_of_resumes {due : Nat} (h : c.resumes id e = true)
    (hs : c.calls.get? id = some (.pausing s left due)) : due ≤ c.now := by
  obtain ⟨-, s', left', due', hs', hdue⟩ := resumes_iff.1 h
  obtain ⟨-, -, rfl⟩ : s = s' ∧ left = left' ∧ due = due' := by simpa using hs.symm.trans hs'
  exact hdue

theorem looksUp?_start (hopen : c.closed = false) (stream : String) (o : SubscribeOptions) :
    c.looksUp? (.start id (.subscribe stream o)) =
      some (id, o.subscription stream, c.settings.lookups - 1) := by
  simp [looksUp?, hopen]

theorem step_start_closed (draw : Nat) (hclosed : c.closed = true) (id : CallId) (stream : String)
    (o : SubscribeOptions) :
    step draw c (.start id (.subscribe stream o)) = c.finish id (.error .closed) := by
  simp [step, start, hclosed]

theorem leg?_of_looksUp? (hl : c.looksUp? e = some (id, s, left)) :
    Record.leg? id ⟨c, draw, e⟩ = some (.looks c.now (c.fetched? e)
      ((Record.resolved? ⟨c, draw, e⟩).map fun found => found.2.2)) := by
  simp only [Record.leg?, hl, if_true]

theorem leg?_of_resumes (h : c.resumes id e = true) :
    Record.leg? id ⟨c, draw, e⟩ = some (.refreshes c.now) := by
  obtain ⟨rfl, -⟩ := resumes_iff.1 h
  simp only [Record.leg?, looksUp?, h, if_true]

theorem leg?_eq_none (hl : ∀ s left, c.looksUp? e ≠ some (id, s, left))
    (hr : c.resumes id e = false) : Record.leg? id ⟨c, draw, e⟩ = none := by
  unfold Record.leg?
  split
  · next k s left hl' =>
    refine if_neg ?_
    rintro rfl
    exact hl s left hl'
  · exact if_neg (by simp [hr])

theorem resumes_eq_false (h : ∀ s left due, c.calls.get? id ≠ some (.pausing s left due)) :
    c.resumes id e = false := by
  refine Bool.eq_false_iff.2 fun hr => ?_
  obtain ⟨-, s, left, due, hs, -⟩ := resumes_iff.1 hr
  exact h s left due hs

theorem way_same (h : Record.leg? id ⟨c, draw, e⟩ = none) :
    way (⟨c, draw, e⟩ :: history) id = way history id := List.filterMap_cons_none h

theorem way_next {leg : Leg} (h : Record.leg? id ⟨c, draw, e⟩ = some leg) :
    way (⟨c, draw, e⟩ :: history) id = leg :: way history id := List.filterMap_cons_some h

theorem Run.untouched (h : Run settings now history c) (draw : Nat) {stage : Stage}
    (hs : c.calls.get? id = some stage) (hr : ¬ Rests (some stage)) (he : e.caller? ≠ some id) :
    (step draw c e).1.calls.get? id = c.calls.get? id ∧ ∀ r, .finish id r ∉ (step draw c e).2 := by
  cases meets draw h.keeps.coherent h.pooled e id with
  | elsewhere _ hcalls hfinish => exact ⟨hcalls, hfinish⟩
  | turn stimulus session _ hsession =>
    have hone := (h.life id).toLodges.acquired_eq hsession
    exact absurd (hs ▸ (h.life id).rests (by simp [hone])) hr
  | aside _ haside =>
    obtain ⟨hcalls, -, hfinish⟩ := haside.away id he
    exact ⟨hcalls, hfinish⟩

theorem Run.caller_of_finish (h : Run settings now history c) (draw : Nat) {stage : Stage}
    (hs : c.calls.get? id = some stage) (hrests : ¬ Rests (some stage))
    {r : Except CallError Outcome} (hr : .finish id r ∈ (step draw c e).2) : e.caller? = some id := by
  by_contra he
  exact (h.untouched draw hs hrests he).2 r hr

theorem Run.gone (h : Run settings now history c) (draw : Nat) (hp : Possible history c e)
    (hs : c.calls.get? id = none) (hid : id ∈ started history) :
    (step draw c e).1.calls.get? id = none ∧ ∀ r, .finish id r ∉ (step draw c e).2 := by
  cases meets draw h.keeps.coherent h.pooled e id with
  | elsewhere _ hcalls hfinish => exact ⟨hcalls.trans hs, hfinish⟩
  | turn stimulus session hturn hsession =>
    refine ⟨?_, (turned_step draw hturn hsession).finish id⟩
    rw [stage_step draw hturn hsession, hs]
    rfl
  | aside _ haside =>
    cases haside.passes id with
    | still hcalls _ hfinish => exact ⟨hcalls.trans hs, hfinish⟩
    | comes a haims _ =>
      rcases haims with ⟨stage, hs', -⟩ | ⟨op, rfl, -⟩
      · cases hs.symm.trans hs'
      · exact absurd hid hp.1
    | told _ _ _ hs' => cases hs.symm.trans hs'
    | expelled _ _ _ _ hs' => cases hs.symm.trans hs'
    | quits he hm =>
      obtain ⟨⟨sessions, hframe⟩, -⟩ := unsubscribe_frame c id
      rw [hm]
      exact ⟨by rw [hframe]; exact hs, (plain_unsubscribe c id).2 id⟩
    | abandoned he hm =>
      rw [hm]
      exact ⟨calls_abandon c id, (plain_abandon c id).2 id⟩

theorem Run.under_way (h : Run settings now history c) (draw : Nat) (hp : Possible history c e)
    (hid : id ∈ started history) (hs : ((step draw c e).1.calls.get? id).isSome ∨
      ∃ r, .finish id r ∈ (step draw c e).2) : (c.calls.get? id).isSome := by
  refine Option.isSome_iff_ne_none.2 fun hnone => ?_
  obtain ⟨hcalls, hfinish⟩ := h.gone draw hp hnone hid
  rcases hs with hs | ⟨r, hr⟩
  · simp [hcalls] at hs
  · exact hfinish r hr

inductive Refreshing (e : Event) (id : CallId) (s : Subscription) (left : Nat) (m : Move) : Prop
  | goes (due : Option Nat) : m.1.calls.get? id = some (.linking (.resolve s left) due) →
    (∀ r, .finish id r ∉ m.2) → Refreshing e id s left m
  | fails (f : Fault) : m.1.calls.get? id = none → .finish id (.error (.rpc f)) ∈ m.2 →
    Refreshing e id s left m
  | abandoned : e = .abandon id → m.1.calls.get? id = none → (∀ r, .finish id r ∉ m.2) →
    Refreshing e id s left m

theorem refreshing_engage {q : Request} {t : Link.Turn Request Reply} (due : Option Nat)
    (h : Link.Seeks (c.pick draw) c.link id q t) :
    Refreshing e id s left (engage draw c id (.resolve s left) due t) := by
  simp only [engage, follow]
  cases he : t.ending with
  | none => exact .goes _ (by simp; rfl) ((plain_map_ofOrder _).2 id)
  | some ending =>
    obtain ⟨f, rfl⟩ := h.ending ending he
    exact .fails f (by simp [settle, Move.after]) (by simp [settle, Move.after, finish])

theorem Refreshing.after {m : Move} {before : List Effect} (h : Refreshing e id s left m)
    (hp : Plain before) : Refreshing e id s left (m.after before) := by
  have hnone (hm : ∀ r, .finish id r ∉ m.2) : ∀ r, .finish id r ∉ (m.after before).2 :=
    fun r hr => (List.mem_append.1 hr).elim (hp.2 id r) (hm r)
  cases h with
  | goes due hs hm => exact .goes due hs (hnone hm)
  | fails f hs hm => exact .fails f hs (List.mem_append_right _ hm)
  | abandoned he hs hm => exact .abandoned he hs (hnone hm)

theorem Run.refreshing (h : Run settings now history c) (draw : Nat) (hp : Possible history c e)
    {due : Option Nat} (hs : c.calls.get? id = some (.linking (.resolve s left) due))
    (hl : c.looksUp? e ≠ some (id, s, left)) : Refreshing e id s left (step draw c e) := by
  obtain ⟨q, hwants, -⟩ := h.sensible.wants id _ due hs
  have hstay : Refreshing e id s left c.stay := .goes due hs (by simp [stay])
  by_cases he : e.caller? = some id
  · cases Event.ofCall he with
    | start op => cases hs.symm.trans (h.keeps.admits hp).1
    | dialed r =>
      simp only [step, dialed, hs]
      exact refreshing_engage due (Link.dialed_seeks _ hwants r)
    | answered r =>
      simp only [step, answered, hs]
      by_cases hj : ∃ e conn, c.link.jobs.get? id = some (.calling e conn)
      · obtain ⟨e, conn, hj⟩ := hj
        cases r with
        | error f => exact refreshing_engage due (Link.answered_error_seeks _ hwants f)
        | ok reply =>
          -- with this answer the call would look its partition up
          have hasked : c.asked id = some e.request := asked_eq_some.2 ⟨e, conn, hj, rfl⟩
          exact absurd (by simp only [looksUp?, hs, hasked]) hl
      · rw [Link.answered_idle _ fun e conn h => hj ⟨e, conn, h⟩]
        exact refreshing_engage due
          (Link.seeks_waiting hwants (Link.asks_of_same rfl) Link.silent_nil rfl)
    | chosen partition => simpa only [step, chosen, hs] using hstay
    | run =>
      simp only [step, run, hs]
      exact refreshing_engage due (Link.resume_seeks _ hwants)
    | abandon => exact .abandoned rfl (calls_abandon c id) ((plain_abandon c id).2 id)
    | lapse =>
      cases due with
      | none => simpa only [step, lapse, hs] using hstay
      | some due =>
        simp only [step, lapse, hs]
        split
        · split
          · -- the client answers itself that the broker is too slow
            exact (refreshing_engage none (Link.answered_error_seeks _ hwants _)).after
              ⟨fun _ => rfl, by simp⟩
          · exact hstay
        · exact hstay
  · obtain ⟨hcalls, hfinish⟩ := h.untouched draw hs (by simp [Rests]) he
    exact .goes due (hcalls.trans hs) hfinish

theorem submit_waits {a : Address} (hpick : c.pick draw = some a) (hpos : 0 < c.link.attempts)
    (id : CallId) (goal : Goal) (q : Request) :
    (∃ due, (submit draw c id goal q).1.calls.get? id = some (.linking goal due)) ∧
      (submit draw c id goal q).1.link.Wants id q ∧
      ∀ r, .finish id r ∉ (submit draw c id goal q).2 := by
  have hfares : Link.Fares (A := Reply) id c.link.attempts [] (c.link.submit (some a) id q) :=
    Link.submit_fares a q hpos
  have hseeks := Link.submit_seeks (A := Reply) (c.pick draw) c.link id q
  rw [← hpick] at hfares
  simp only [submit, engage, follow]
  cases hfares with
  | goes j he hj _ =>
    simp only [he]
    exact ⟨⟨_, by simp; rfl⟩, hseeks.wants, (plain_map_ofOrder _).2 id⟩
  | succeeds reply he =>
    obtain ⟨f, hf⟩ := hseeks.ending _ he
    cases hf
  | fails f hf => cases hf

inductive Pausing (c : Client) (e : Event) (id : CallId) (s : Subscription) (left : Nat)
    (m : Move) : Prop
  | waits : c.resumes id e = false → m.1.calls.get? id = c.calls.get? id →
    (∀ r, .finish id r ∉ m.2) → Pausing c e id s left m
  | resumes (due : Option Nat) : c.resumes id e = true →
    m.1.calls.get? id = some (.linking (.resolve s left) due) → m.1.link.Wants id .fetchMetadata →
    (∀ r, .finish id r ∉ m.2) → Pausing c e id s left m
  | abandoned : e = .abandon id → m.1.calls.get? id = none → (∀ r, .finish id r ∉ m.2) →
    Pausing c e id s left m

theorem Run.pausing (h : Run settings now history c) (hb : settings.bootstrap ≠ []) (draw : Nat)
    (hp : Possible history c e) {due : Nat} (hs : c.calls.get? id = some (.pausing s left due)) :
    Pausing c e id s left (step draw c e) := by
  by_cases he : e.caller? = some id
  · have hstay (hr : c.resumes id e = false) (hm : step draw c e = c.stay) :
        Pausing c e id s left (step draw c e) := by
      rw [hm]
      exact .waits hr rfl (by simp [stay])
    cases Event.ofCall he with
    | start op => cases hs.symm.trans (h.keeps.admits hp).1
    | dialed r => exact hstay rfl (by simp only [step, dialed, hs])
    | answered r => exact hstay rfl (by simp only [step, answered, hs])
    | chosen partition => exact hstay rfl (by simp only [step, chosen, hs])
    | run => exact hstay rfl (by simp only [step, run, hs])
    | abandon => exact .abandoned rfl (calls_abandon c id) ((plain_abandon c id).2 id)
    | lapse =>
      by_cases hdue : due ≤ c.now
      · have hsubmit :
            step draw c (.lapse id) = submit draw c id (.resolve s left) .fetchMetadata := by
          simp only [step, lapse, hs, if_pos hdue]
        obtain ⟨a, hpick⟩ := h.exists_pick hb draw
        obtain ⟨⟨due', hs'⟩, hwants, hfinish⟩ :=
          submit_waits hpick h.attempts_pos id (.resolve s left) .fetchMetadata
        rw [hsubmit]
        exact .resumes due' (resumes_iff.2 ⟨rfl, s, left, due, hs, hdue⟩) hs' hwants hfinish
      · have hm : step draw c (.lapse id) = c.stay := by simp only [step, lapse, hs, if_neg hdue]
        exact hstay (Bool.eq_false_iff.2 fun hr => hdue (due_le_of_resumes hr hs)) hm
  · obtain ⟨hcalls, hfinish⟩ := h.untouched draw hs (by simp [Rests]) he
    refine .waits (Bool.eq_false_iff.2 fun hr => ?_) hcalls hfinish
    obtain ⟨rfl, -⟩ := resumes_iff.1 hr
    exact he rfl

theorem Run.finish_of_joining (h : Run settings now history c) (draw : Nat)
    (hp : Possible history c e) {a : Address} (hs : c.calls.get? id = some (.joining s a))
    {r : Except CallError Outcome} (hr : .finish id r ∈ (step draw c e).2) :
    ∃ f, r = .error (.rpc f) := by
  have hstay {m : Move} (hm : m = c.stay) : .finish id r ∉ m.2 := (plain_of_stay hm).2 id r
  cases Event.ofCall (h.caller_of_finish draw hs (by simp [Rests]) hr) with
  | start op => cases hs.symm.trans (h.keeps.admits hp).1
  | dialed result =>
    simp only [step, dialed, hs] at hr
    cases result with
    | ok conn => simp [launch] at hr
    | error f => exact ⟨f, (Effect.finish.inj (List.mem_singleton.1 hr)).2⟩
  | answered result => exact absurd hr (hstay (by simp only [step, answered, hs]))
  | chosen partition => exact absurd hr (hstay (by simp only [step, chosen, hs]))
  | run => exact absurd hr (hstay (by simp only [step, run, hs]))
  | abandon => exact absurd hr ((plain_abandon c id).2 id r)
  | lapse => exact absurd hr (hstay (by simp only [step, lapse, hs]))

theorem reply_ne_unknown (s : Subscription) (v : Except Fault Unit) (stream : String)
    (partition : Int32) : s.reply v ≠ .error (.noSuchPartition stream partition none) := by
  cases v with
  | ok u => simp [Subscription.reply]
  | error f =>
    simp only [Subscription.reply, CallError.ofHandshake]
    split <;> simp

theorem Run.known_of_settled (h : Run settings now history c) (draw : Nat)
    (hp : Possible history c e) (hid : id ∈ started history) (hpurposed : Purposed .subscribe c id)
    (hsettled : ¬ c.Resolving id) (stream : String) (partition : Int32) :
    .finish id (.error (.noSuchPartition stream partition none)) ∉ (step draw c e).2 := by
  cases hs : c.calls.get? id with
  | none => exact (h.gone draw hp hs hid).2 _
  | some stage =>
    have hpurpose := hpurposed stage hs
    intro hr
    cases stage with
    | joining s a =>
      obtain ⟨f, hf⟩ := h.finish_of_joining draw hp hs hr
      cases hf
    | greeting s v due =>
      have hheard : c.isHeard id = true := by rw [isHeard, hs]
      rcases h.replies draw hp hheard hr with
        ⟨s', v', _, -, hreply⟩ | ⟨s', _, d, -, -, -, -, hreply⟩
      · exact reply_ne_unknown s' v' stream partition hreply.symm
      · exact reply_ne_unknown s' _ stream partition hreply.symm
    | linking goal due =>
      -- a subscription needs the link for its refreshes alone
      refine hsettled ⟨_, hs, ?_⟩
      cases goal <;> first | rfl | cases hpurpose
    | pausing s left due => exact hsettled ⟨_, hs, rfl⟩
    | probing rest => cases hpurpose
    | choosing d => cases hpurpose
    | closing => cases hpurpose

theorem Deals.missed (h : Deals draw c e (step draw c e)) (hl : c.looksUp? e = some (id, s, left))
    (hr : Record.resolved? ⟨c, draw, e⟩ = none) :
    (left = 0 ∧ (step draw c e).1.calls.get? id = none ∧
      (step draw c e).2 = [.finish id (.error (.noSuchPartition s.stream s.partition none))]) ∨
    ∃ k, left = k + 1 ∧ (step draw c e).2 = [] ∧ (step draw c e).1.calls.get? id =
      some (.pausing s k (Span.pauseEnd c.now c.settings.lookupDelay.ceilMillis)) := by
  rw [h.resolved?_eq hl, Option.map_eq_none_iff] at hr
  cases h with
  | other _ hl' _ => cases hl.symm.trans hl'
  | refresh _ _ _ _ _ hl' _ _ => cases hl.symm.trans hl'
  | lookup id' s' left' link hl' _ hm =>
    obtain ⟨rfl, rfl, rfl⟩ : id = id' ∧ s = s' ∧ left = left' := by simpa using hl.symm.trans hl'
    rw [informed_frame c e] at hm
    rw [hm]
    cases left with
    | zero => exact .inl ⟨rfl, by simp [Client.lookup, hr], by simp [Client.lookup, hr, finish]⟩
    | succ k => exact .inr ⟨k, rfl, by simp only [Client.lookup, hr], by simp [Client.lookup, hr]⟩

theorem Joins.known {a : Address} {m : Move} (h : Joins c id s a m) (stream : String)
    (partition : Int32) :
    .finish id (.error (.noSuchPartition stream partition none)) ∉ m.2 := by
  cases h with
  | late _ _ _ heffects | reuses _ _ _ _ _ _ _ heffects | dials _ _ _ _ heffects =>
    simp [heffects]

theorem Run.way_of_new (h : Run settings now history c) (hnew : id ∉ started history) :
    way history id = [] := by
  refine h.until_start (P := fun history => way history id = []) hnew rfl ?_
  intro earlier before e draw hrun hp hnew' ih
  -- it is not started by this event either, so it has no stage and begins nothing
  have hnone := hrun.keeps.call_of_new (mt mem_started_cons hnew')
  have hleg : Record.leg? id ⟨before, draw, e⟩ = none := by
    refine leg?_eq_none (fun s left hl => ?_) (resumes_eq_false fun _ _ _ => by simp [hnone])
    rcases exists_of_looksUp? hl with ⟨stream, o, he, -⟩ | ⟨due, hs⟩
    · exact not_start_of_new hnew' _ he
    · cases hnone.symm.trans hs
  rw [way_same hleg, ih]

/-- How a subscribe call for `s` stands that may look `total` times. -/
inductive Course (delay total : Nat) (history : History) (c : Client) (id : CallId)
    (s : Subscription) : Prop
  | refused : way history id = [] → c.calls.get? id = none →
    .finish id (.error .closed) ∈ trail history → Course delay total history c id s
  | pauses (n left t : Nat) :
    c.calls.get? id = some (.pausing s left (Span.pauseEnd t delay)) →
    Searches delay n (some (t, none)) (way history id) → n + left + 1 = total →
    (Punctual history id → c.now ≤ Span.pauseEnd t delay) → Course delay total history c id s
  | refreshes (n left : Nat) (due : Option Nat) :
    c.calls.get? id = some (.linking (.resolve s left) due) →
    Searches delay n none (way history id) → n ≠ 0 → n + left + 1 = total →
    Course delay total history c id s
  | found (n t : Nat) (a : Address) : ¬ c.Resolving id →
    Searches delay n (some (t, some a)) (way history id) → n ≤ total →
    (∀ stream partition,
      .finish id (.error (.noSuchPartition stream partition none)) ∉ trail history) →
    Course delay total history c id s
  | unknown (t : Nat) : c.calls.get? id = none →
    Searches delay total (some (t, none)) (way history id) →
    .finish id (.error (.noSuchPartition s.stream s.partition none)) ∈ trail history →
    Course delay total history c id s
  | failed (n : Nat) (f : Fault) : c.calls.get? id = none →
    Searches delay n none (way history id) → n < total →
    .finish id (.error (.rpc f)) ∈ trail history → Course delay total history c id s
  | abandoned (n : Nat) (last : Option (Nat × Option Address)) : c.calls.get? id = none →
    Searches delay n last (way history id) → n < total → (∀ r, .finish id r ∉ trail history) →
    Course delay total history c id s

theorem Run.course_of_lookup (h : Run settings now history c) (draw : Nat)
    (hp : Possible history c e) (hl : c.looksUp? e = some (id, s, left)) {n : Nat}
    (hs : Searches settings.lookupDelay.ceilMillis n none (way history id))
    (hn : n + left + 1 = max settings.lookups 1) (hanswer : (c.fetched? e).isSome ↔ n ≠ 0)
    (hunfinished : ∀ r, .finish id r ∉ trail history) :
    Course settings.lookupDelay.ceilMillis (max settings.lookups 1) (⟨c, draw, e⟩ :: history)
      (step draw c e).1 id s := by
  have hdeals := h.deals draw e
  have hlooks := hs.looks c.now (c.fetched? e)
    ((Record.resolved? ⟨c, draw, e⟩).map fun found => found.2.2) hanswer
  rw [← way_next (leg?_of_looksUp? hl)] at hlooks
  cases hr : Record.resolved? ⟨c, draw, e⟩ with
  | some found =>
    obtain ⟨rfl, rfl⟩ : id = found.1 ∧ s = found.2.1 := by
      rw [hdeals.resolved?_eq hl] at hr
      obtain ⟨a, -, rfl⟩ := Option.map_eq_some_iff.1 hr
      exact ⟨rfl, rfl⟩
    have hjoins := hdeals.joins (a := found.2.2) hr
    rw [hr] at hlooks
    refine .found (n + 1) c.now found.2.2 hjoins.not_resolving hlooks (by omega)
      fun stream partition hm => ?_
    exact (List.mem_append.1 hm).elim (hunfinished _) (hjoins.known stream partition)
  | none =>
    rw [hr] at hlooks
    rcases hdeals.missed hl hr with ⟨rfl, hnone, heffects⟩ | ⟨k, rfl, -, hstage⟩
    · refine .unknown c.now hnone ?_ (List.mem_append_right _ ?_)
      · rw [← hn]
        exact hlooks
      · rw [Record.move, heffects]
        exact List.mem_singleton_self _
    · rw [h.settings_eq] at hstage
      refine .pauses (n + 1) k c.now hstage hlooks (by omega) fun _ => ?_
      rw [hdeals.now_eq fun t ht => by subst ht; cases hl]
      exact Nat.le_add_right _ _

theorem Run.course_start (h : Run settings now history c) (draw : Nat) {op : Op}
    (hp : Possible history c (.start id op)) (haim : op.aim = .subscribing s) :
    Course settings.lookupDelay.ceilMillis (max settings.lookups 1)
      (⟨c, draw, .start id op⟩ :: history) (step draw c (.start id op)).1 id s := by
  obtain ⟨stream, o, rfl, rfl⟩ := subscribe_of_aim haim
  have hnone := h.way_of_new hp.1
  cases hclosed : c.closed with
  | true =>
    have hl : c.looksUp? (.start id (.subscribe stream o)) = none := by simp [looksUp?, hclosed]
    have hrefused := step_start_closed draw hclosed id stream o
    have hleg : Record.leg? id ⟨c, draw, .start id (.subscribe stream o)⟩ = none :=
      leg?_eq_none (by simp [hl]) rfl
    refine .refused ((way_same hleg).trans hnone) (by simp [hrefused]) (List.mem_append_right _ ?_)
    rw [Record.move, hrefused]
    exact List.mem_singleton_self _
  | false =>
    refine h.course_of_lookup draw hp (looksUp?_start hclosed stream o) (n := 0) (hnone ▸ .start)
      ?_ (by simp [fetched?])
      fun r hr => hp.1 ((h.life id).finish r hr).2.1
    rw [h.settings_eq]
    omega

theorem Course.refreshing {delay total : Nat} (h : Course delay total history c id s)
    {s' : Subscription} {due : Option Nat}
    (hs : c.calls.get? id = some (.linking (.resolve s' left) due)) : s' = s ∧
      ∃ n, Searches delay n none (way history id) ∧ n ≠ 0 ∧ n + left + 1 = total := by
  cases h with
  | refreshes n left' due' hs' hsearch hn htotal =>
    obtain ⟨⟨rfl, rfl⟩, -⟩ : (s' = s ∧ left = left') ∧ due = due' := by
      simpa using hs.symm.trans hs'
    exact ⟨rfl, n, hsearch, hn, htotal⟩
  | pauses _ _ _ hs' => cases hs.symm.trans hs'
  | found _ _ _ hnot => exact absurd ⟨_, hs, rfl⟩ hnot
  | refused _ hs' => cases hs.symm.trans hs'
  | unknown _ hs' => cases hs.symm.trans hs'
  | failed _ _ hs' => cases hs.symm.trans hs'
  | abandoned _ _ hs' => cases hs.symm.trans hs'

theorem Run.answered_of_lookup (h : Run settings now history c) (hp : Possible history c e)
    (hl : c.looksUp? e = some (id, s, left)) {due : Option Nat}
    (hs : c.calls.get? id = some (.linking (.resolve s left) due)) : ∃ reply,
      e = .answered (.caller id) (.ok reply) ∧ c.fetched? e = some reply.topology := by
  obtain ⟨q, hwants, rfl⟩ := h.sensible.wants id _ due hs
  unfold looksUp? at hl
  split at hl
  · next k stream o =>
    split at hl
    · cases hl
    · obtain ⟨rfl, -⟩ : k = id ∧ _ := by simpa using hl
      cases hs.symm.trans (h.keeps.admits hp).1
  · next k reply =>
    split at hl
    · next s' left' due' q' hs' hasked =>
      obtain ⟨rfl, -⟩ : k = id ∧ _ := by simpa using hl
      obtain ⟨e, conn, hj, rfl⟩ := asked_eq_some.1 hasked
      have hrequest : e.request = .fetchMetadata := hwants.request hj rfl
      exact ⟨reply, rfl, by simp [fetched?, hasked, hrequest]⟩
    · cases hl
  · cases hl

theorem Course.next
    (h : Course settings.lookupDelay.ceilMillis (max settings.lookups 1) history c id s)
    (hrun : Run settings now history c) (hb : settings.bootstrap ≠ []) (draw : Nat)
    (hp : Possible history c e) (ha : Aimed history id (.subscribing s)) :
    Course settings.lookupDelay.ceilMillis (max settings.lookups 1) (⟨c, draw, e⟩ :: history)
      (step draw c e).1 id s := by
  have hid : id ∈ started history := (hrun.life id).known _ ha
  by_cases hl : ∃ s' left, c.looksUp? e = some (id, s', left)
  · obtain ⟨s', left, hl⟩ := hl
    rcases exists_of_looksUp? hl with ⟨stream, o, rfl, -⟩ | ⟨due, hs⟩
    · exact absurd hid hp.1
    · obtain ⟨rfl, n, hsearch, hn, htotal⟩ := h.refreshing hs
      obtain ⟨reply, -, ht⟩ := hrun.answered_of_lookup hp hl hs
      exact hrun.course_of_lookup draw hp hl hsearch htotal (by simp [ht, hn])
        ((hrun.life id).unfinished hs)
  -- without a lookup only the end of a pause adds to the way
  have hsame (hr : c.resumes id e = false) :
      way (⟨c, draw, e⟩ :: history) id = way history id :=
    way_same (leg?_eq_none (fun s' left hl' => hl ⟨s', left, hl'⟩) hr)
  have hover (hs : c.calls.get? id = none) : (step draw c e).1.calls.get? id = none ∧
      way (⟨c, draw, e⟩ :: history) id = way history id ∧
      ∀ r, .finish id r ∉ (step draw c e).2 := by
    obtain ⟨hs', hfinish⟩ := hrun.gone draw hp hs hid
    exact ⟨hs', hsame (resumes_eq_false (by simp [hs])), hfinish⟩
  have hunfinished (hbefore : ∀ r, .finish id r ∉ trail history)
      (hnow : ∀ r, .finish id r ∉ (step draw c e).2) :
      ∀ r, .finish id r ∉ trail (⟨c, draw, e⟩ :: history) :=
    fun r hr => (List.mem_append.1 hr).elim (hbefore r) (hnow r)
  cases h with
  | refused hway hs hfinish =>
    obtain ⟨hs', hway', -⟩ := hover hs
    exact .refused (hway'.trans hway) hs' (mem_trail_cons hfinish)
  | pauses n left t hs hsearch htotal hle =>
    cases hrun.pausing hb draw hp hs with
    | waits hr hcalls _ =>
      refine .pauses n left t (hcalls.trans hs) ?_ htotal fun hp' => ?_
      · rwa [hsame hr]
      · exact now_le_of_punctual hrun hp' hs rfl (hle hp'.of_cons)
    | resumes due hr hs' _ _ =>
      refine .refreshes n left due hs' ?_ hsearch.ne_zero htotal
      rw [way_next (leg?_of_resumes hr)]
      exact hsearch.refreshes c.now (due_le_of_resumes hr hs)
    | abandoned he hs' hfinish =>
      subst he
      exact .abandoned n _ hs' (by rwa [hsame rfl]) (by omega)
        (hunfinished ((hrun.life id).unfinished hs) hfinish)
  | refreshes n left due hs hsearch hn htotal =>
    have hway := hsame (resumes_eq_false (by simp [hs]))
    cases hrun.refreshing draw hp hs fun hl' => hl ⟨s, left, hl'⟩ with
    | goes due' hs' _ => exact .refreshes n left due' hs' (by rwa [hway]) hn htotal
    | fails f hs' hf =>
      exact .failed n f hs' (by rwa [hway]) (by omega) (List.mem_append_right _ hf)
    | abandoned _ hs' hfinish =>
      exact .abandoned n none hs' (by rwa [hway]) (by omega)
        (hunfinished ((hrun.life id).unfinished hs) hfinish)
  | found n t a hsettled hsearch htotal hknown =>
    have hway := hsame (resumes_eq_false fun s' left due hs => hsettled ⟨_, hs, rfl⟩)
    obtain ⟨r, hr, op, hevent, haim⟩ := ha
    obtain ⟨stream, o, rfl, -⟩ := subscribe_of_aim haim
    refine .found n t a (fun hresolving => ?_) (by rwa [hway]) htotal fun stream' partition hm => ?_
    · -- only a call that begins starts to look for its broker
      rcases ((hrun.deals draw e).guides.resolving id hresolving).2 with hbefore | ⟨op, rfl⟩
      · exact hsettled hbefore
      · exact hp.1 hid
    · rcases List.mem_append.1 hm with hm | hm
      · exact hknown stream' partition hm
      · exact hrun.known_of_settled draw hp hid (hrun.purposed ⟨r, hr, hevent⟩).1 hsettled stream'
          partition hm
  | unknown t hs hsearch hfinish =>
    obtain ⟨hs', hway, -⟩ := hover hs
    exact .unknown t hs' (by rwa [hway]) (mem_trail_cons hfinish)
  | failed n f hs hsearch hn hfinish =>
    obtain ⟨hs', hway, -⟩ := hover hs
    exact .failed n f hs' (by rwa [hway]) hn (mem_trail_cons hfinish)
  | abandoned n last hs hsearch hn hfinish =>
    obtain ⟨hs', hway, hnow⟩ := hover hs
    exact .abandoned n last hs' (by rwa [hway]) hn (hunfinished hfinish hnow)

theorem Run.course (h : Run settings now history c) (hb : settings.bootstrap ≠ [])
    (ha : Aimed history id (.subscribing s)) :
    Course settings.lookupDelay.ceilMillis (max settings.lookups 1) history c id s := by
  induction h with
  | fresh =>
    obtain ⟨r, hr, -⟩ := ha
    cases hr
  | @next history c e draw hrun hp ih =>
    rcases aimed_cons.1 ha with ⟨op, rfl, haim⟩ | hbefore
    · exact hrun.course_start draw hp haim
    · exact (ih hbefore).next hrun hb draw hp hbefore

end Step

end StreamClient.Client
