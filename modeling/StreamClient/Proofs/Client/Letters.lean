import StreamClient.Proofs.Client.Setbacks.Moves
import StreamClient.Proofs.Client.Works
import StreamClient.Proofs.Link.Failover

/-! The letters of a call: what it sends to brokers, one letter for each attempt that comes to a
connection, and what it hears of them. All say the same, and another one follows only if the one
before was lost. -/

namespace StreamClient.Client

open Link (Advances Errand Job)

/-- A request on its way to a broker, and what was heard of it and when. -/
structure Letter where
  conn : Conn
  request : Request
  sent : Nat
  heard : Option (Nat × Except Fault Reply) := none
  deriving DecidableEq

def Letter.isLost (l : Letter) : Bool := l.heard.any fun h => Link.unreached h.2

/-- What the call `id` hears in an event: the answer that it waits for, or that its time is up. -/
def hears? (c : Client) (id : CallId) (e : Event) : Option (Except Fault Reply) :=
  match e with
  | .answered (.caller k) r => if k = id ∧ (c.asked id).isSome then some r else none
  | .lapse _ => (c.mishap? id e).map .error
  | _ => none

def Effect.letter? (now : Nat) (id : CallId) : Effect → Option Letter
  | .call (.caller k) conn request =>
    if k = id then some { conn, request, sent := now } else none
  | _ => none

def posted (now : Nat) (effects : List Effect) (id : CallId) : List Letter :=
  (effects.filterMap (Effect.letter? now id)).reverse

def delivered (now : Nat) : Option (Except Fault Reply) → List Letter → List Letter
  | some r, l :: earlier => { l with heard := some (now, r) } :: earlier
  | _, letters => letters

/-- The letters of the call `id`, the latest in front. -/
def letters : History → CallId → List Letter
  | [], _ => []
  | r :: earlier, id => posted r.before.now r.move.2 id ++
      delivered r.before.now (r.before.hears? id r.event) (letters earlier id)

def Lost (q : Request) (letters : List Letter) : Prop :=
  ∀ l ∈ letters, l.request = q ∧ l.isLost = true

/-- How a call for `q` stands on the link that may send `total` letters: it waits for the answer to
the latest, until `due` if `q` has a deadline, or all are lost. -/
inductive Corresponds (total : Nat) (q : Request) : List Letter → Option Nat → Job Request → Prop
  | seeks (letters : List Letter) (j : Job Request) (e : Errand Request) : j.errand? = some e →
    (∀ e conn, j ≠ .calling e conn) → e.Serves q → Lost q letters →
      letters.length + j.callsLeft ≤ total → Corresponds total q letters none j
  | waits (earlier : List Letter) (e : Errand Request) (conn : Conn) (t : Nat) : e.Serves q →
    Lost q earlier → earlier.length + 1 + e.left ≤ total →
      Corresponds total q ({ conn, request := q, sent := t } :: earlier)
        (q.deadline.map fun d => t + d.ceilMillis) (.calling e conn)

/-- How a call for `q` ends on the link that may send `total` letters: with the answer to the latest,
or with an error after all are lost. -/
inductive Concludes (total : Nat) (q : Request) : List Letter → Except Fault Reply → Prop
  | answered (earlier : List Letter) (conn : Conn) (t t' : Nat) (r : Except Fault Reply) :
    Lost q earlier → earlier.length + 1 ≤ total → Link.unreached r = false →
      Concludes total q ({ conn, request := q, sent := t, heard := some (t', r) } :: earlier) r
  | failed (letters : List Letter) (f : Fault) : Lost q letters → letters.length ≤ total →
    Concludes total q letters (.error f)

structure Repeats (total : Nat) (q : Request) (letters : List Letter) : Prop where
  same : ∀ l ∈ letters, l.request = q
  lost : ∀ l ∈ letters.tail, l.isLost = true
  few : letters.length ≤ total

def Dials (c : Client) (e : Event) (id : CallId) (j : Job Request) (effects : List Effect) : Prop :=
  ∀ e', j = .dialing e' →
    (∃ a, .dial id a ∈ effects) ∨ c.link.jobs.get? id = some j ∧ ∀ r, e ≠ .dialed id r

/-- What an event comes to for a call for `q` that is on the link for `goal` and has `letters`, with
what it hears in the event. -/
inductive Exchanges (draw : Nat) (goal : Goal) (total : Nat) (q : Request) (letters : List Letter)
    (c : Client) (e : Event) (id : CallId) (m : Move) : Prop
  | goes (due : Option Nat) (j : Job Request) : m.1.calls.get? id = some (.linking goal due) →
    m.1.link.jobs.get? id = some j →
      Corresponds total q (posted c.now m.2 id ++ letters) due j → Plain m.2 →
        Dials c e id j m.2 → Exchanges draw goal total q letters c e id m
  | returns (link : Link Request) (before : List Effect) (r : Except Fault Reply) :
    Plain before → posted c.now before id = [] → link.jobs.get? id = none →
      Concludes total q letters r →
        m = (settle draw { c with link } id goal r).after before →
          Exchanges draw goal total q letters c e id m
  | abandons (due : Option Nat) (j : Job Request) : e = .abandon id → m = c.abandon id →
    Corresponds total q letters due j → Exchanges draw goal total q letters c e id m

section Letters

variable {draw now total : Nat} {goal : Goal} {c : Client} {e : Event} {id : CallId} {q : Request}
  {due : Option Nat} {sent : List Letter} {j : Job Request} {m : Move}

theorem posted_nil : posted now [] id = [] := rfl

theorem posted_append (a b : List Effect) :
    posted now (a ++ b) id = posted now b id ++ posted now a id := by
  simp [posted, List.filterMap_append]

theorem posted_eq_nil {effects : List Effect}
    (h : ∀ conn q, .call (.caller id) conn q ∉ effects) : posted now effects id = [] := by
  rw [posted, List.reverse_eq_nil_iff, List.filterMap_eq_nil_iff]
  intro x hx
  unfold Effect.letter?
  split
  · next k conn request =>
    refine if_neg ?_
    rintro rfl
    exact h conn request hx
  · rfl

theorem posted_of_light {effects : List Effect} (h : Light effects) :
    posted now effects id = [] :=
  posted_eq_nil fun _ _ hx => by cases h _ hx

theorem posted_of_works {k : CallId} {effects : List Effect} (h : Works k effects) (hk : k ≠ id) :
    posted now effects id = [] :=
  posted_eq_nil fun _ _ hx => hk (beq_iff_eq.1 (h _ hx)).symm

theorem posted_abandon (c : Client) (id : CallId) : posted now (c.abandon id).2 id = [] :=
  posted_eq_nil fun _ _ hx => by
    rcases effect_of_abandon hx with ⟨who, hwho⟩ | ⟨who, hwho⟩ <;> cases hwho

theorem posted_of_asks (orders : List (Link.Order Request)) :
    posted now (orders.map ofOrder) id = posted now ((Link.asks orders).map ofOrder) id := by
  simp only [posted, Link.asks, List.filterMap_map, List.filterMap_filter]
  congr 1
  refine List.filterMap_congr fun o _ => ?_
  cases o <;> rfl

theorem answerDue_of_asks (orders : List (Link.Order Request)) :
    answerDue now orders = answerDue now (Link.asks orders) := by
  simp only [answerDue, Link.asks]
  induction orders with
  | nil => rfl
  | cons o rest ih => cases o <;> simp [List.findSome?_cons, ih]

theorem delivered_none (letters : List Letter) : delivered now none letters = letters := by
  cases letters <;> rfl

theorem length_delivered (now : Nat) (r : Option (Except Fault Reply)) (sent : List Letter) :
    (delivered now r sent).length = sent.length := by
  unfold delivered
  split <;> rfl

theorem Lost.tail (h : Lost q sent) : Lost q sent.tail := fun l hl => h l (List.mem_of_mem_tail hl)

theorem Corresponds.repeats (h : Corresponds total q sent due j) : Repeats total q sent := by
  cases h with
  | seeks _ _ e _ _ _ hlost hroom =>
    exact ⟨fun l hl => (hlost l hl).1, fun l hl => (hlost.tail l hl).2, by omega⟩
  | waits earlier e conn t _ hlost hroom =>
    refine ⟨fun l hl => ?_, fun l hl => (hlost l hl).2, by simp only [List.length_cons]; omega⟩
    rcases List.mem_cons.1 hl with rfl | hl
    · rfl
    · exact (hlost l hl).1

theorem Concludes.repeats {r : Except Fault Reply} (h : Concludes total q sent r) :
    Repeats total q sent := by
  cases h with
  | answered earlier conn t t' r hlost hroom _ =>
    refine ⟨fun l hl => ?_, fun l hl => (hlost l hl).2, by simpa using hroom⟩
    rcases List.mem_cons.1 hl with rfl | hl
    · rfl
    · exact (hlost l hl).1
  | failed _ f hlost hroom =>
    exact ⟨fun l hl => (hlost l hl).1, fun l hl => (hlost.tail l hl).2, hroom⟩

theorem Corresponds.unheard (h : Corresponds total q sent due j) {l : Letter} (hl : l ∈ sent)
    (t : Nat) (reply : Reply) : l.heard ≠ some (t, .ok reply) := by
  have hlost {l : Letter} (hl : l.isLost = true) : l.heard ≠ some (t, .ok reply) := fun heq => by
    simp [Letter.isLost, heq, Link.unreached] at hl
  cases h with
  | seeks _ _ _ _ _ _ hall => exact hlost (hall l hl).2
  | waits earlier e conn t _ hall =>
    rcases List.mem_cons.1 hl with rfl | hl
    · simp
    · exact hlost (hall l hl).2

theorem Corresponds.due_eq_none (h : Corresponds total q sent due j)
    (hq : q.deadline = none) : due = none := by
  cases h with
  | seeks => rfl
  | waits => rw [hq]; rfl

theorem Corresponds.idle (h : Corresponds total q sent due j)
    (hj : c.link.jobs.get? id = some j) : (if (c.asked id).isSome then due else none) = due := by
  cases h with
  | seeks => exact ite_self none
  | waits earlier e conn t =>
    have hasked : c.asked id = some e.request := asked_eq_some.2 ⟨e, conn, hj, rfl⟩
    rw [hasked]
    rfl

theorem exchanges_advances {dials calls : Nat} {told : Option (Except Fault Reply)}
    {t : Link.Turn Request Reply} (ht : Advances id q dials calls told t)
    (htold : ∀ r, told = some r → ∃ f, r = .error f) (hlost : Lost q sent)
    (hroom : sent.length + calls ≤ total) (hdue : q.deadline = none → due = none) :
    Exchanges draw goal total q sent c e id (engage draw c id goal due t) := by
  have hplain := plain_map_ofOrder t.orders
  have hstill (hasked : Link.asks t.orders = []) : posted c.now (t.orders.map ofOrder) id = [] ∧
      answerDue c.now t.orders = none := by
    rw [posted_of_asks, answerDue_of_asks, hasked]
    exact ⟨rfl, rfl⟩
  cases ht with
  | waiting e' he hlen hr hj ha =>
    obtain ⟨hposted, hanswer⟩ := hstill ha
    have hasked : asked { c with link := t.link } id = none := by
      rcases hj with hj | ⟨conn, hj⟩ <;> simp [asked, hj]
    simp only [engage, follow, hr, hanswer, hasked]
    rcases hj with hj | ⟨conn, hj⟩
    · refine .goes none (.seeking e') (by simp) hj ?_ hplain (by simp [Dials])
      rw [hposted, List.nil_append]
      exact .seeks _ _ e' rfl (by simp) he hlost (by simp only [Job.callsLeft]; omega)
    · refine .goes none (.retiring e' conn) (by simp) hj ?_ hplain (by simp [Dials])
      rw [hposted, List.nil_append]
      exact .seeks _ _ e' rfl (by simp) he hlost (by simp only [Job.callsLeft]; omega)
  | dialing e' a he hlen hr hj ha =>
    have hposted : posted c.now (t.orders.map ofOrder) id = [] := by
      rw [posted_of_asks, ha]
      rfl
    have hanswer : answerDue c.now t.orders = none := by
      rw [answerDue_of_asks, ha]
      rfl
    have hasked : asked { c with link := t.link } id = none := by simp [asked, hj]
    simp only [engage, follow, hr, hanswer, hasked]
    have hdial : .dial id a ∈ t.orders.map ofOrder := by
      have hmem : .dial id a ∈ Link.asks t.orders := by simp [ha]
      exact List.mem_map.2 ⟨_, List.mem_of_mem_filter hmem, rfl⟩
    refine .goes none (.dialing e') (by simp) hj ?_ hplain fun _ _ => .inl ⟨a, hdial⟩
    rw [hposted, List.nil_append]
    exact .seeks _ _ e' rfl (by simp) he hlost (by simp only [Job.callsLeft]; omega)
  | calling e' conn he hlen hr hj ha =>
    have hposted : posted c.now (t.orders.map ofOrder) id =
        [{ conn, request := q, sent := c.now }] := by
      rw [posted_of_asks, ha]
      simp [posted, ofOrder, Effect.letter?]
    have hanswer : answerDue c.now t.orders = q.deadline.map fun d => c.now + d.ceilMillis := by
      rw [answerDue_of_asks, ha, answerDue]
      cases hd : q.deadline <;> simp [hd]
    -- without a deadline nothing was due before either
    have hafter : (answerDue c.now t.orders).or
        (if (asked { c with link := t.link } id).isSome then due else none) =
          q.deadline.map fun d => c.now + d.ceilMillis := by
      rw [hanswer]
      cases hd : q.deadline with
      | none => simp [hdue hd]
      | some d => rfl
    simp only [engage, follow, hr, hafter]
    refine .goes (q.deadline.map fun d => c.now + d.ceilMillis) (.calling e' conn) (by simp) hj ?_
      hplain (by simp [Dials])
    rw [hposted]
    exact .waits sent e' conn c.now he hlost (by omega)
  | returns r hresult hend hj ha =>
    obtain ⟨f, rfl⟩ : ∃ f, r = .error f := by
      rcases hresult with h | ⟨f, hf, -⟩
      · exact htold r h
      · exact ⟨f, hf⟩
    simp only [engage, follow, hend]
    exact .returns t.link _ (.error f) hplain (hstill ha).1 hj (.failed sent f hlost (by omega)) rfl

theorem exchanges_idle (h : Corresponds total q sent due j) (hj : c.link.jobs.get? id = some j)
    (he : ∀ r, e ≠ .dialed id r) :
    Exchanges draw goal total q sent c e id (engage draw c id goal due { link := c.link }) := by
  have hdue := h.idle hj
  refine .goes due j ?_ hj h (plain_map_ofOrder []) fun _ _ => .inr ⟨hj, he⟩
  simp only [engage, follow, answerDue, List.findSome?_nil, Option.none_or]
  simp [hdue]

theorem exchanges_stay (h : Corresponds total q sent due j) (hj : c.link.jobs.get? id = some j)
    (hs : c.calls.get? id = some (.linking goal due)) (he : ∀ r, e ≠ .dialed id r) :
    Exchanges draw goal total q sent c e id c.stay :=
  .goes due j hs hj h plain_nil fun _ _ => .inr ⟨hj, he⟩

theorem exchanges_answered {earlier : List Letter} {e' : Errand Request} {conn : Conn} {t : Nat}
    {r : Except Fault Reply} {before : List Effect} (hlost : Lost q earlier)
    (hroom : earlier.length + 1 + e'.left ≤ total)
    (hj : c.link.jobs.get? id = some (.calling e' conn)) (hr : Link.unreached r = false)
    (hplain : Plain before) (hposted : posted c.now before id = []) :
    Exchanges draw goal total q
      ({ conn, request := q, sent := t, heard := some (c.now, r) } :: earlier) c e id
      ((engage draw c id goal due (c.link.answered (c.pick draw) id r)).after before) := by
  rw [Link.answered_of_reached hj hr]
  simp only [engage, follow, Link.finish]
  refine .returns (c.link.forget id) before r hplain hposted (by simp)
    (.answered earlier conn t c.now r hlost (by omega) hr) ?_
  simp [Move.after]

theorem exchanges_lost {earlier : List Letter} {e' : Errand Request} {conn : Conn} {t : Nat}
    {f : Fault} (he : e'.Serves q) (hlost : Lost q earlier)
    (hroom : earlier.length + 1 + e'.left ≤ total)
    (hj : c.link.jobs.get? id = some (.calling e' conn)) (hf : f.isUnavailable = true)
    (hdue : q.deadline = none → due = none) :
    Exchanges draw goal total q
      ({ conn, request := q, sent := t, heard := some (c.now, .error f) } :: earlier) c e id
      (engage draw c id goal due (c.link.answered (c.pick draw) id (.error f))) := by
  have hnext : Errand.Serves q { e' with last := some f } := ⟨he.request, by simpa using hf⟩
  simp only [Link.answered, hj, hf, if_true]
  refine exchanges_advances (Link.retire_advances _ c.link id conn hnext) (by simp) ?_
    (by simp only [List.length_cons]; omega) hdue
  intro l hl
  rcases List.mem_cons.1 hl with rfl | hl
  · exact ⟨rfl, hf⟩
  · exact hlost l hl

theorem exchanges_resume (draw : Nat) (h : Corresponds total q sent due j)
    (hj : c.link.jobs.get? id = some j) (hdialed : ∀ r, e ≠ .dialed id r) :
    Exchanges draw goal total q sent c e id
      (engage draw c id goal due (c.link.resume (c.pick draw) id)) := by
  have hdue := h.due_eq_none
  cases h with
  | waits earlier e' conn t he hlost hroom =>
    rw [Link.resume_idle _ (by simp [hj]) (by simp [hj]) (by simp [hj])]
    exact exchanges_idle (.waits earlier e' conn t he hlost hroom) hj hdialed
  | seeks _ _ e' herrand hcalling he hlost hroom =>
    have hresumes (hj' : c.link.jobs.get? id = some (.seeking e') ∨
        ∃ conn, c.link.jobs.get? id = some (.retiring e' conn)) (hleft : j.callsLeft = e'.left) :
        Exchanges draw goal total q sent c e id
          (engage draw c id goal none (c.link.resume (c.pick draw) id)) :=
      exchanges_advances (Link.resume_advances _ hj' he) (by simp) hlost (hleft ▸ hroom) fun _ => rfl
    cases j with
    | seeking e'' =>
      obtain rfl := Option.some.inj herrand
      exact hresumes (.inl hj) rfl
    | retiring e'' conn =>
      obtain rfl := Option.some.inj herrand
      exact hresumes (.inr ⟨conn, hj⟩) rfl
    | dialing e'' =>
      rw [Link.resume_idle _ (by simp [hj]) (by simp [hj]) (by simp [hj])]
      exact exchanges_idle (.seeks _ _ e' herrand hcalling he hlost hroom) hj hdialed
    | calling e'' conn => exact absurd rfl (hcalling e'' conn)
    | shutting => cases herrand

theorem exchanges_told (draw : Nat) (h : Corresponds total q sent due j)
    (hj : c.link.jobs.get? id = some j) (hdialed : ∀ r, e ≠ .dialed id r) (r : Except Fault Reply) :
    Exchanges draw goal total q
      (delivered c.now (if (c.asked id).isSome then some r else none) sent) c e id
      (engage draw c id goal due (c.link.answered (c.pick draw) id r)) := by
  have hdue := h.due_eq_none
  cases h with
  | seeks _ _ e' herrand hcalling he hlost hroom =>
    have hnone : ∀ e' conn, c.link.jobs.get? id ≠ some (.calling e' conn) := fun e' conn h =>
      hcalling e' conn (Option.some.inj (hj.symm.trans h))
    have hasked : c.asked id = none := by
      refine Option.eq_none_iff_forall_ne_some.2 fun q' hq' => ?_
      obtain ⟨e'', conn, hj', -⟩ := asked_eq_some.1 hq'
      exact hnone e'' conn hj'
    rw [hasked, Link.answered_idle _ hnone]
    exact exchanges_idle (.seeks _ _ e' herrand hcalling he hlost hroom) hj hdialed
  | waits earlier e' conn t he hlost hroom =>
    have hasked : c.asked id = some e'.request := asked_eq_some.2 ⟨e', conn, hj, rfl⟩
    rw [hasked]
    cases hr : Link.unreached r with
    | false =>
      exact exchanges_answered hlost hroom hj hr plain_nil posted_nil
    | true =>
      cases r with
      | ok reply => cases hr
      | error f => exact exchanges_lost he hlost hroom hj hr hdue

theorem exchanges_lapse (draw : Nat) (h : Corresponds total q sent due j)
    (hs : c.calls.get? id = some (.linking goal due)) (hj : c.link.jobs.get? id = some j) :
    Exchanges draw goal total q (delivered c.now (c.hears? id (.lapse id)) sent) c (.lapse id) id
      (lapse draw c id) := by
  have hstay (hm : c.mishap? id (.lapse id) = none) :
      Exchanges draw goal total q (delivered c.now (c.hears? id (.lapse id)) sent) c (.lapse id) id
        c.stay := by
    rw [hears?, hm]
    exact exchanges_stay h hj hs (by simp)
  cases due with
  | none =>
    simp only [lapse, hs]
    exact hstay (by simp [mishap?, hs])
  | some due =>
    cases hd : (c.asked id).bind Request.deadline with
    | none =>
      simp only [lapse, hs, hd]
      exact hstay (by simp [mishap?, hs, hd])
    | some d =>
      by_cases hdue : due ≤ c.now
      · have hhears : c.hears? id (.lapse id) = some (.error (noAck d)) := by
          simp [hears?, mishap?, hs, hd, hdue]
        rw [hhears]
        simp only [lapse, hs, hd, if_pos hdue]
        generalize hw : some due = w at h
        cases h with
        | seeks _ _ e' _ _ _ _ _ => cases hw
        | waits earlier e' conn t he hlost hroom =>
          exact exchanges_answered hlost hroom hj rfl ⟨fun _ => rfl, by simp⟩ rfl
      · simp only [lapse, hs, hd, if_neg hdue]
        exact hstay (by simp [mishap?, hs, hd, hdue])

theorem Corresponds.step (draw : Nat) (h : Corresponds total q sent due j)
    (hs : c.calls.get? id = some (.linking goal due)) (hj : c.link.jobs.get? id = some j)
    (hstart : ∀ op, e ≠ .start id op) (hdialing : ∀ r, e = .dialed id r → c.isDialing id = true)
    (he : e.caller? = some id) :
    Exchanges draw goal total q (delivered c.now (c.hears? id e) sent) c e id
      (Client.step draw c e) := by
  cases Event.ofCall he with
  | start op => exact absurd rfl (hstart op)
  | dialed r =>
    obtain ⟨e', hj'⟩ := dialing_of_isDialing hs (hdialing r rfl)
    obtain rfl := Option.some.inj (hj.symm.trans hj')
    cases h with
    | seeks _ _ e'' herrand _ hserves hlost hroom =>
      obtain rfl := Option.some.inj herrand
      simp only [Client.step, dialed, hs]
      refine exchanges_advances (Link.dialed_advances _ r hj hserves) ?_ hlost hroom fun _ => rfl
      cases r with
      | ok conn => simp
      | error f => exact fun r hr => ⟨f, (Option.some.inj hr).symm⟩
  | answered r =>
    have hhears : c.hears? id (.answered (.caller id) r) =
        if (c.asked id).isSome then some r else none := by simp [hears?]
    rw [hhears]
    simp only [Client.step, answered, hs]
    exact exchanges_told draw h hj (by simp) r
  | chosen partition =>
    simp only [Client.step, chosen, hs]
    exact exchanges_stay h hj hs (by simp)
  | run =>
    simp only [Client.step, Client.run, hs]
    exact exchanges_resume draw h hj (by simp)
  | abandon => exact .abandons due j rfl rfl h
  | lapse => exact exchanges_lapse draw h hs hj

theorem exchanges_submit (draw : Nat) (c : Client) (id : CallId) (goal : Goal) (q : Request)
    (htotal : c.link.attempts = total) :
    Exchanges draw goal total q [] c e id (submit draw c id goal q) :=
  exchanges_advances (Link.submit_advances _ c.link id q) (by simp) (by simp [Lost])
    (by simp [htotal]) fun _ => rfl

end Letters

section Run

variable {settings : Settings} {now : Nat} {history : History} {c : Client} {draw : Nat} {e : Event}
  {id : CallId}

theorem letters_cons (c : Client) (draw : Nat) (e : Event) (history : History) (id : CallId) :
    letters (⟨c, draw, e⟩ :: history) id = posted c.now (step draw c e).2 id ++
      delivered c.now (c.hears? id e) (letters history id) := rfl

theorem returned_of_finish {c' : Client} {before : List Effect} {r : Except CallError Outcome}
    (hm : step draw c e = (c'.finish id r).after before) (hposted : posted c.now before id = []) :
    (step draw c e).1.calls.get? id = none ∧
      letters (⟨c, draw, e⟩ :: history) id =
        delivered c.now (c.hears? id e) (letters history id) ∧
      .finish id r ∈ trail (⟨c, draw, e⟩ :: history) := by
  have hsilent : posted c.now (step draw c e).2 id = [] := by
    rw [hm, Move.after, posted_append, hposted]
    rfl
  refine ⟨by simp [hm, Move.after], by rw [letters_cons, hsilent, List.nil_append], ?_⟩
  apply List.mem_append_right
  rw [Record.move, hm]
  exact List.mem_append_right _ (List.mem_singleton_self _)

theorem left_of_abandon (hm : step draw c e = c.abandon id)
    (hunfinished : ∀ r, .finish id r ∉ trail history) :
    (step draw c e).1.calls.get? id = none ∧
      letters (⟨c, draw, e⟩ :: history) id =
        delivered c.now (c.hears? id e) (letters history id) ∧
      ∀ r, .finish id r ∉ trail (⟨c, draw, e⟩ :: history) := by
  have hsilent : posted c.now (step draw c e).2 id = [] := by
    rw [hm]
    exact posted_abandon c id
  refine ⟨by rw [hm, calls_abandon], by rw [letters_cons, hsilent, List.nil_append], ?_⟩
  intro r hr
  refine (List.mem_append.1 hr).elim (hunfinished r) fun hr => ?_
  rw [Record.move, hm] at hr
  exact (plain_abandon c id).2 id r hr

theorem length_letters_le (c : Client) (draw : Nat) (e : Event) (history : History) (id : CallId) :
    (letters history id).length ≤ (letters (⟨c, draw, e⟩ :: history) id).length := by
  rw [letters_cons, List.length_append, length_delivered]
  exact Nat.le_add_left _ _

theorem caller?_of_hears {r : Except Fault Reply} (h : c.hears? id e = some r) :
    e.caller? = some id := by
  unfold hears? at h
  split at h
  · split at h <;> cases h
    next hk => rw [Event.caller?, hk.1]
  · next k =>
    obtain ⟨f, hf, -⟩ := Option.map_eq_some_iff.1 h
    unfold mishap? at hf
    dsimp only at hf
    split at hf
    · split at hf <;> cases hf
      next hk => rw [Event.caller?, hk.1]
    · cases hf
  · cases h

theorem hears?_of_unasked (h : c.asked id = none) (e : Event) : c.hears? id e = none := by
  unfold hears?
  split
  · simp [h]
  · simp [mishap?, h]
  · rfl

theorem Run.step_asks (h : Run settings now history c) (draw : Nat) (e : Event) :
    Asks c e (step draw c e) :=
  Client.step_asks draw h.keeps.coherent h.sensible e

theorem Run.letters_away (h : Run settings now history c) (draw : Nat)
    (he : e.caller? ≠ some id) :
    letters (⟨c, draw, e⟩ :: history) id = letters history id := by
  have hhears : c.hears? id e = none :=
    Option.eq_none_iff_forall_ne_some.2 fun r hr => he (caller?_of_hears hr)
  have hposted : posted c.now (step draw c e).2 id = [] := by
    cases h.step_asks draw e with
    | nobody _ hlight => exact posted_of_light hlight
    | call k hk _ hworks => exact posted_of_works hworks fun hid => he (hid ▸ hk)
    | partitioner k op question _ _ hm =>
      rw [hm]
      rfl
  rw [letters_cons, hhears, delivered_none, hposted, List.nil_append]

theorem Run.job_away (h : Run settings now history c) (draw : Nat) (he : e.caller? ≠ some id) :
    (step draw c e).1.link.jobs.get? id = c.link.jobs.get? id := by
  cases hturn : e.turn? with
  | some turn => rw [step_of_turn draw hturn, link_stimulate]
  | none => exact ((aside_step draw h.keeps.coherent h.pooled hturn).away id he).2.1

theorem step_of_gone (draw : Nat) (hs : c.calls.get? id = none) (he : e.caller? = some id)
    (hstart : ∀ op, e ≠ .start id op) : (step draw c e).2 = [] := by
  cases Event.ofCall he with
  | start op => exact absurd rfl (hstart op)
  | dialed r => simp only [step, dialed, hs, stay]
  | answered r => simp only [step, answered, hs, stay]
  | chosen partition => simp only [step, chosen, hs, stay]
  | run => simp only [step, run, hs, stay]
  | abandon => simp only [step, abandon, hs]
  | lapse => simp only [step, lapse, hs, stay]

theorem Run.letters_of_gone (h : Run settings now history c) (draw : Nat)
    (hs : c.calls.get? id = none) (hstart : ∀ op, e ≠ .start id op) :
    letters (⟨c, draw, e⟩ :: history) id = letters history id := by
  by_cases he : e.caller? = some id
  · have hasked : c.asked id = none := by
      refine Option.eq_none_iff_forall_ne_some.2 fun q hq => ?_
      obtain ⟨e', conn, hj, -⟩ := asked_eq_some.1 hq
      obtain ⟨goal, due, hs'⟩ := h.keeps.coherent.linking_of_job hj (by simp)
      cases hs.symm.trans hs'
    rw [letters_cons, hears?_of_unasked hasked, delivered_none, step_of_gone draw hs he hstart]
    rfl
  · exact h.letters_away draw he

theorem Run.letters_of_new (h : Run settings now history c) (hnew : id ∉ started history) :
    letters history id = [] := by
  refine h.until_start (P := fun history => letters history id = []) hnew rfl ?_
  intro earlier before e draw hrun hp hnew' ih
  have hs := hrun.keeps.call_of_new (mt mem_started_cons hnew')
  rw [hrun.letters_of_gone draw hs (not_start_of_new hnew'), ih]

end Run

end StreamClient.Client
