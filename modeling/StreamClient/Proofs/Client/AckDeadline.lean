import StreamClient.Proofs.Client.Deadlines
import StreamClient.Proofs.Client.Sole

/-! The ack deadline of a publish that runs alone: each request is waited for that long and no longer,
and dialing is not limited by it. -/

namespace StreamClient.Client

open Link (Job)

def Op.options? : Op → Option PublishOptions
  | .publish _ _ o | .publishToSubject _ _ o => some o
  | _ => none

/-- The time that passed while `p` held. -/
def spent (p : Client → Bool) : History → Nat
  | [] => 0
  | r :: earlier => (if p r.before then r.move.1.now - r.before.now else 0) + spent p earlier

/-- The call is under way, and neither is its partition chosen nor its dial open. -/
def isLingering (id : CallId) (c : Client) : Bool :=
  match c.calls.get? id with
  | none | some (.choosing _) => false
  | some _ => !c.isDialing id

/-- The call waits for the answer to `l`, as long as `d` after that was sent. -/
structure Pending (d : Span) (history : History) (c : Client) (id : CallId) (l : Letter) : Prop where
  latest : (letters history id).head? = some l
  unheard : l.heard = none
  stage : c.calls.get? id = some (.linking .publish (some (l.sent + d.ceilMillis)))
  job : ∃ e, c.link.jobs.get? id = some (.calling e l.conn)
  deadline : (c.asked id).bind Request.deadline = some d

/-- What holds of a publish that waits as long as `d` for an ack. -/
structure AckLaw (settings : Settings) (history : History) (id : CallId) (d : Span) : Prop where
  /-- A request that is sent is waited for until `d` has passed since, rounded up to milliseconds,
  be it the first or another attempt. -/
  waits : ∀ r earlier, r :: earlier <:+ history → (r.move.1.asked id).isSome →
    ∃ l, Pending d (r :: earlier) r.move.1 id l ∧ l.sent ≤ r.move.1.now ∧
      r.move.1.now ≤ l.sent + d.ceilMillis
  heard : ∀ l ∈ letters history id, ∀ t r, l.heard = some (t, r) →
    l.sent ≤ t ∧ t ≤ l.sent + d.ceilMillis
  /-- If nothing is heard by then the call ends at that time and not before, and says so. The
  connection stays cached. -/
  early : ∀ r earlier, r :: earlier <:+ history → r.event = .lapse id → ∀ l,
    Pending d earlier r.before id l → r.before.now < l.sent + d.ceilMillis → r.move = r.before.stay
  lapses : ∀ r earlier, r :: earlier <:+ history → r.event = .lapse id → ∀ l,
    Pending d earlier r.before id l → r.before.now = l.sent + d.ceilMillis →
      r.move.2 = [.withdraw (.caller id), .finish id (.error (.deadlineExceeded (noAck d)))] ∧
        r.move.1.link.cached = some l.conn
  silent : ∀ r earlier, r :: earlier <:+ history → ∀ out, .finish id out ∈ trail earlier →
    letters (r :: earlier) id = letters earlier id ∧ ∀ a, .dial id a ∉ r.move.2
  answers : ∀ r earlier, r :: earlier <:+ history → ∀ reply, r.event = .answered (.caller id) reply →
    ∀ l, Pending d earlier r.before id l → Link.unreached reply = false →
      r.move.2 = [.finish id (published reply)]
  /-- If no broker was reached it goes on with another connection, or fails with that. -/
  retries : ∀ r earlier, r :: earlier <:+ history → ∀ f, r.event = .answered (.caller id) (.error f) →
    ∀ l, Pending d earlier r.before id l → f.isUnavailable = true →
      (∃ a, r.move.2 = [.close l.conn, .dial id a]) ∨
        ∃ f', f'.isUnavailable = true ∧ (settings.bootstrap ≠ [] → f' = f) ∧
          r.move.2 = [.close l.conn, .finish id (.error (.rpc f'))]
  dials : ∀ r earlier, r :: earlier <:+ history → r.before.isDialing id = true →
    r.before.calls.get? id = some (.linking .publish none) ∧
      (r.event = .lapse id → r.move = r.before.stay)
  /-- Apart from dialing, a call takes no longer than all its attempts may take. -/
  total : spent (isLingering id) history ≤ max settings.attempts 1 * d.ceilMillis

section Deadline

variable {settings : Settings} {now total : Nat} {history : History} {c : Client} {draw : Nat}
  {e : Event} {id : CallId} {op : Op} {o : PublishOptions} {d : Span} {l : Letter}

theorem PublishOptions.deadline_eq (hpolicy : o.ackPolicy ≠ .none) (hd : o.ackDeadline = some d)
    (hzero : d.isZero = false) : o.deadline = some d := by
  cases hp : o.ackPolicy with
  | none => exact absurd hp hpolicy
  | leader | all => simp [PublishOptions.deadline, hp, hd, hzero]

theorem aim_of_options (h : op.options? = some o) : op.aim = .publishing := by
  cases op <;> first | rfl | cases h

theorem deadline_of_request {picked : Option Int32} {q : Request} (ho : op.options? = some o)
    (hq : op.request? picked = some q) : q.deadline = o.deadline := by
  cases op with
  | publish stream value o' =>
    obtain rfl := Option.some.inj ho
    obtain ⟨p, -, rfl⟩ := Option.map_eq_some_iff.1 hq
    rfl
  | publishToSubject subject value o' =>
    obtain rfl := Option.some.inj ho
    obtain rfl := Option.some.inj hq
    rfl
  | _ => cases ho

theorem Pending.asked (h : Pending d history c id l) : (c.asked id).isSome := by
  obtain ⟨e', hj⟩ := h.job
  exact Option.isSome_iff_exists.2 ⟨_, asked_eq_some.2 ⟨e', l.conn, hj, rfl⟩⟩

theorem Pending.mem (h : Pending d history c id l) : l ∈ letters history id :=
  List.mem_of_mem_head? h.latest

theorem Pending.letters_eq (h : Pending d history c id l) :
    ∃ rest, letters history id = l :: rest := by
  obtain ⟨rest, hrest⟩ := List.head?_eq_some_iff.1 h.latest
  exact ⟨rest, hrest⟩

theorem Pending.unique {l' : Letter} (h : Pending d history c id l)
    (h' : Pending d history c id l') : l' = l :=
  Option.some.inj (h'.latest.symm.trans h.latest)

theorem Posts.pending (h : Posts total history c id op) (hc : c.Coherent)
    (ho : op.options? = some o) (hd : o.deadline = some d) (hasked : (c.asked id).isSome) :
    ∃ l, Pending d history c id l := by
  obtain ⟨q, hq⟩ := Option.isSome_iff_exists.1 hasked
  obtain ⟨e', conn, hj, rfl⟩ := asked_eq_some.1 hq
  obtain ⟨goal, due, hs⟩ := hc.linking_of_job hj (by simp)
  cases h with
  | refused hs' | chooses _ hs' | returned _ _ hs' | abandoned hs' => cases hs'.symm.trans hs
  | links due' q j hs' hj' hrequest hcorresponds =>
    obtain rfl := Option.some.inj (hj.symm.trans hj')
    generalize hletters : letters history id = sent at hcorresponds
    cases hcorresponds with
    | seeks _ _ _ _ hne => exact absurd rfl (hne e' conn)
    | waits earlier _ _ t hserves =>
      have hdeadline : q.deadline = some d := (deadline_of_request ho hrequest).trans hd
      rw [hdeadline, Option.map_some] at hs'
      refine ⟨⟨conn, q, t, none⟩, by rw [hletters]; rfl, rfl, hs', ⟨e', hj⟩, ?_⟩
      rw [hq, Option.bind_some, hserves.request, hdeadline]

def OnlyStarts (history : History) (id : CallId) (op : Op) : Prop :=
  ∀ r ∈ history, ∀ op', r.event = .start id op' → op' = op

theorem OnlyStarts.of_suffix {earlier : History} (h : OnlyStarts history id op) (hs : earlier <:+ history) :
    OnlyStarts earlier id op := fun r hr => h r (hs.subset hr)

theorem Run.start_of_call (h : Run settings now history c) (hop : OnlyStarts history id op)
    (hs : (c.calls.get? id).isSome) : ∃ r ∈ history, r.event = .start id op := by
  obtain ⟨r, hr, op', hevent⟩ := mem_started.1 (h.keeps.known id (.inl hs))
  exact ⟨r, hr, hop r hr op' hevent ▸ hevent⟩

theorem Run.call_of_asked (h : Run settings now history c) (hasked : (c.asked id).isSome) :
    (c.calls.get? id).isSome := by
  refine Option.isSome_iff_ne_none.2 fun hnone => ?_
  rw [asked_eq_none h.keeps.coherent (by simp [hnone])] at hasked
  cases hasked

theorem Run.pending (h : Run settings now history c) (hop : OnlyStarts history id op)
    (ho : op.options? = some o) (hd : o.deadline = some d) (hasked : (c.asked id).isSome) :
    ∃ l, Pending d history c id l :=
  (h.posts (aim_of_options ho) (h.start_of_call hop (h.call_of_asked hasked))).pending
    h.keeps.coherent ho hd hasked

theorem mem_posted {at' : Nat} {effects : List Effect} (hl : l ∈ posted at' effects id) :
    l.sent = at' ∧ l.heard = none := by
  rw [posted, List.mem_reverse, List.mem_filterMap] at hl
  obtain ⟨x, -, hx⟩ := hl
  unfold Effect.letter? at hx
  split at hx
  · split at hx <;> cases hx
    exact ⟨rfl, rfl⟩
  · cases hx

theorem posted_of_call {at' : Nat} {effects : List Effect} {conn : Conn} {q : Request}
    (h : .call (.caller id) conn q ∈ effects) : posted at' effects id ≠ [] := by
  have hmem : { conn, request := q, sent := at' } ∈ posted at' effects id := by
    rw [posted, List.mem_reverse, List.mem_filterMap]
    exact ⟨_, h, by simp [Effect.letter?]⟩
  exact List.ne_nil_of_mem hmem

theorem Run.now_of_posted (h : Run settings now history c)
    (hl : (letters history id).length < (letters (⟨c, draw, e⟩ :: history) id).length) :
    (step draw c e).1.now = c.now := by
  refine (h.deals draw e).now_eq fun t ht => ?_
  subst ht
  rw [h.letters_away draw (by simp [Event.caller?])] at hl
  exact absurd hl (Nat.lt_irrefl _)

section Options

variable (hop : OnlyStarts history id op) (ho : op.options? = some o) (hd : o.deadline = some d)
include hop ho hd

theorem Run.mem_letters_cons (h : Run settings now history c)
    (hl : l ∈ letters (⟨c, draw, e⟩ :: history) id) :
    (l.sent = c.now ∧ l.heard = none) ∨ l ∈ letters history id ∨
      ∃ l' r, Pending d history c id l' ∧ l = { l' with heard := some (c.now, r) } := by
  rw [letters_cons, List.mem_append] at hl
  rcases hl with hl | hl
  · exact .inl (mem_posted hl)
  · cases hhears : c.hears? id e with
    | none =>
      rw [hhears, delivered_none] at hl
      exact .inr (.inl hl)
    | some r =>
      -- only a letter that is waited for is answered
      have hasked : (c.asked id).isSome := by
        refine Option.isSome_iff_ne_none.2 fun hnone => ?_
        rw [hears?_of_unasked hnone] at hhears
        cases hhears
      obtain ⟨l', hl'⟩ := h.pending hop ho hd hasked
      obtain ⟨rest, hrest⟩ := hl'.letters_eq
      rw [hhears, hrest] at hl
      rcases List.mem_cons.1 hl with rfl | hl
      · exact .inr (.inr ⟨l', r, hl', rfl⟩)
      · exact .inr (.inl (hrest ▸ List.mem_cons_of_mem _ hl))

theorem Run.pending_before (h : Run settings now history c)
    (hl : Pending d (⟨c, draw, e⟩ :: history) (step draw c e).1 id l) :
    (letters (⟨c, draw, e⟩ :: history) id = letters history id ∧ Pending d history c id l) ∨
      (l.sent = c.now ∧
        (letters history id).length < (letters (⟨c, draw, e⟩ :: history) id).length) := by
  have hletters := letters_cons c draw e history id
  have hlatest := hl.latest
  cases hposted : posted c.now (step draw c e).2 id with
  | cons new rest =>
    refine .inr ⟨?_, ?_⟩
    · rw [hletters, hposted, List.cons_append, List.head?_cons] at hlatest
      rw [← Option.some.inj hlatest]
      exact (mem_posted (hposted ▸ List.mem_cons_self ..)).1
    · rw [hletters, hposted, List.length_append, length_delivered, List.length_cons]
      omega
  | nil =>
    -- nothing was sent, so the call waited for an answer before
    have hasked : (c.asked id).isSome := by
      obtain ⟨q, hq⟩ := Option.isSome_iff_exists.1 hl.asked
      rcases (h.deals draw e).informs.asks id q hq with hbefore | ⟨conn, hcall⟩
      · exact Option.isSome_iff_exists.2 ⟨q, hbefore⟩
      · exact absurd hposted (posted_of_call hcall)
    obtain ⟨l', hl'⟩ := h.pending hop ho hd hasked
    obtain ⟨rest, hrest⟩ := hl'.letters_eq
    rw [hposted, List.nil_append, hrest] at hletters
    cases hhears : c.hears? id e with
    | none =>
      rw [hhears, delivered_none, ← hrest] at hletters
      rw [hletters, hl'.latest] at hlatest
      exact .inl ⟨hletters, Option.some.inj hlatest ▸ hl'⟩
    | some reply =>
      rw [hletters, hhears] at hlatest
      have hheard := hl.unheard
      rw [← Option.some.inj hlatest] at hheard
      cases hheard

theorem Run.sent_le (h : Run settings now history c) : ∀ l ∈ letters history id, l.sent ≤ c.now := by
  induction h with
  | fresh => exact fun l hl => absurd hl List.not_mem_nil
  | @next history c e draw hrun hp ih =>
    intro l hl
    have hop' := hop.of_suffix (List.suffix_cons _ history)
    have hnow := (hrun.deals draw e).now_le rfl
    rcases hrun.mem_letters_cons hop' ho hd hl with ⟨hsent, -⟩ | hl | ⟨l', r, hl', rfl⟩
    · exact hsent.le.trans hnow
    · exact (ih hop' l hl).trans hnow
    · exact (ih hop' l' hl'.mem).trans hnow

theorem Run.now_le_of_pending (h : Run settings now history c) (hpunctual : Punctual history id)
    (hl : Pending d history c id l) : c.now ≤ l.sent + d.ceilMillis := by
  induction h with
  | fresh => cases hl.latest
  | @next history c e draw hrun hp ih =>
    have hop' := hop.of_suffix (List.suffix_cons _ history)
    rcases hrun.pending_before hop' ho hd hl with ⟨-, hbefore⟩ | ⟨hsent, hlonger⟩
    · exact now_le_of_punctual hrun hpunctual hbefore.stage rfl (ih hop' hpunctual.of_cons hbefore)
    · rw [hrun.now_of_posted hlonger, hsent]
      exact Nat.le_add_right _ _

theorem Run.heard_in_time (h : Run settings now history c) (hpunctual : Punctual history id) :
    ∀ l ∈ letters history id, ∀ t r, l.heard = some (t, r) →
      l.sent ≤ t ∧ t ≤ l.sent + d.ceilMillis := by
  induction h with
  | fresh => exact fun l hl => absurd hl List.not_mem_nil
  | @next history c e draw hrun hp ih =>
    intro l hl t r ht
    have hop' := hop.of_suffix (List.suffix_cons _ history)
    rcases hrun.mem_letters_cons hop' ho hd hl with ⟨-, hnone⟩ | hl | ⟨l', r', hl', rfl⟩
    · cases hnone.symm.trans ht
    · exact ih hop' hpunctual.of_cons l hl t r ht
    · have hdue : c.now ≤ l'.sent + d.ceilMillis :=
        hrun.now_le_of_pending hop' ho hd hpunctual.of_cons hl'
      obtain ⟨rfl, -⟩ := Prod.mk.inj (Option.some.inj ht)
      exact ⟨hrun.sent_le hop' ho hd l' hl'.mem, hdue⟩

theorem Run.spent_asked (h : Run settings now history c) (hpunctual : Punctual history id) :
    (∀ l, Pending d history c id l → spent (fun c => (c.asked id).isSome) history + l.sent ≤
      ((letters history id).length - 1) * d.ceilMillis + c.now) ∧
    spent (fun c => (c.asked id).isSome) history ≤ (letters history id).length * d.ceilMillis := by
  induction h with
  | fresh => exact ⟨fun l hl => absurd hl.mem List.not_mem_nil, Nat.zero_le _⟩
  | @next history c e draw hrun hp ih =>
    have hop' := hop.of_suffix (List.suffix_cons _ history)
    obtain ⟨hpending, hspent⟩ := ih hop' hpunctual.of_cons
    have hrun' := hrun.next draw hp
    have hlonger := length_letters_le c draw e history id
    have hmono := Nat.mul_le_mul_right d.ceilMillis hlonger
    have hnow := (hrun.deals draw e).now_le rfl
    have hlatest (l) (hl : Pending d (⟨c, draw, e⟩ :: history) (step draw c e).1 id l) :
        spent (fun c => (c.asked id).isSome) (⟨c, draw, e⟩ :: history) + l.sent ≤
          ((letters (⟨c, draw, e⟩ :: history) id).length - 1) * d.ceilMillis +
            (step draw c e).1.now := by
      rw [spent, Record.move]
      rcases hrun.pending_before hop' ho hd hl with ⟨hsame, hbefore⟩ | ⟨hsent, hmore⟩
      · have hle := hpending l hbefore
        rw [hsame, if_pos hbefore.asked]
        dsimp only
        omega
      · have hstill := hrun.now_of_posted hmore
        have hle := Nat.mul_le_mul_right d.ceilMillis (Nat.le_sub_one_of_lt hmore)
        rw [hstill, hsent, Nat.sub_self, ite_self]
        omega
    refine ⟨hlatest, ?_⟩
    cases hasked : (asked (step draw c e).1 id).isSome with
    | true =>
      obtain ⟨l, hl⟩ := hrun'.pending hop ho hd hasked
      have hle := hlatest l hl
      have hdue := hrun'.now_le_of_pending hop ho hd hpunctual hl
      obtain ⟨rest, hrest⟩ := hl.letters_eq
      rw [hrest, List.length_cons, Nat.add_sub_cancel] at hle
      rw [hrest, List.length_cons, Nat.succ_mul]
      omega
    | false =>
      -- the clock stands still in the event that ends the wait
      have hstill : spent (fun c => (c.asked id).isSome) (⟨c, draw, e⟩ :: history) =
          spent (fun c => (c.asked id).isSome) history := by
        rw [spent, Record.move]
        dsimp only
        split
        · next hbefore =>
          have hne : ∀ t, e ≠ .tick t := by
            rintro t rfl
            have hsame : asked (step draw c (.tick t)).1 id = c.asked id := rfl
            rw [hsame, hbefore] at hasked
            cases hasked
          rw [(hrun.deals draw e).now_eq hne, Nat.sub_self, Nat.zero_add]
        · exact Nat.zero_add _
      rw [hstill]
      exact hspent.trans hmono

end Options

theorem Pending.mishap_eq (h : Pending d history c id l) : c.mishap? id (.lapse id) =
    if l.sent + d.ceilMillis ≤ c.now then some (noAck d) else none := by
  simp [mishap?, h.stage, h.deadline]

theorem Pending.early (h : Pending d history c id l) (draw : Nat)
    (hnow : c.now < l.sent + d.ceilMillis) : step draw c (.lapse id) = c.stay := by
  rw [step, lapse_eq draw h.stage, h.mishap_eq, if_neg (by omega)]

theorem engage_of_reached {e' : Link.Errand Request} {conn : Conn}
    (hj : c.link.jobs.get? id = some (.calling e' conn)) (draw : Nat) (due : Option Nat)
    {r : Except Fault Reply} (hr : Link.unreached r = false) :
    engage draw c id .publish due (c.link.answered (c.pick draw) id r) =
      finish { c with link := c.link.forget id } id (published r) := by
  simp only [engage, follow, Link.answered_of_reached hj hr, Link.finish, settle_publish]
  simp [Move.after]

theorem Pending.told (h : Pending d history c id l) (draw : Nat) (due : Option Nat)
    {r : Except Fault Reply} (hr : Link.unreached r = false) :
    engage draw c id .publish due (c.link.answered (c.pick draw) id r) =
      finish { c with link := c.link.forget id } id (published r) := by
  obtain ⟨e', hj⟩ := h.job
  exact engage_of_reached hj draw due hr

theorem Pending.lapses (h : Pending d history c id l) (draw : Nat)
    (hnow : l.sent + d.ceilMillis ≤ c.now) : step draw c (.lapse id) =
      (finish { c with link := c.link.forget id } id
        (.error (.deadlineExceeded (noAck d)))).after [.withdraw (.caller id)] := by
  rw [step, lapse_eq draw h.stage, h.mishap_eq, if_pos hnow]
  dsimp only
  rw [h.told draw none rfl]
  rfl

theorem Pending.answers (h : Pending d history c id l) (draw : Nat) {r : Except Fault Reply}
    (hr : Link.unreached r = false) :
    (step draw c (.answered (.caller id) r)).2 = [.finish id (published r)] := by
  simp only [step, answered, h.stage, h.told draw _ hr]
  rfl

theorem ofPublish_of_unavailable {f : Fault} (hf : f.isUnavailable = true) :
    CallError.ofPublish f = .rpc f := by
  rw [Fault.isUnavailable_iff] at hf
  simp [CallError.ofPublish, hf]

theorem Pending.retries (h : Pending d history c id l) (hsole : Link.Sole id c.link) (draw : Nat)
    {f : Fault} (hf : f.isUnavailable = true) :
    (∃ a, (step draw c (.answered (.caller id) (.error f))).2 = [.close l.conn, .dial id a]) ∨
      ∃ f', f'.isUnavailable = true ∧ (c.pick draw ≠ none → f' = f) ∧
        (step draw c (.answered (.caller id) (.error f))).2 =
          [.close l.conn, .finish id (.error (.rpc f'))] := by
  obtain ⟨e', hj⟩ := h.job
  obtain ⟨hlock, hcached⟩ := hsole.of_calling hj
  simp only [step, answered, h.stage, engage, follow,
    Link.answered_of_unreached hlock hcached hj hf]
  cases Link.pursue_uncached (A := Reply) (c.pick draw) id e'.request
      (l := { c.link with cached := none }) hlock rfl e'.left f hf with
  | dials a ho hend => exact .inl ⟨a, by simp [Link.Turn.after, ho, hend, ofOrder]⟩
  | fails f' hf' hlast ho hend =>
    refine .inr ⟨f', hf', hlast, ?_⟩
    simp [Link.Turn.after, ho, hend, ofOrder, settle, ofPublish_of_unavailable hf', finish,
      Move.after]

theorem Posts.isDialing (h : Posts total history c id op) (hd : c.isDialing id = true) :
    c.calls.get? id = some (.linking .publish none) := by
  cases h with
  | refused hs | returned _ _ hs | abandoned hs => simp [Client.isDialing, hs] at hd
  | chooses d hs => simp [Client.isDialing, hs] at hd
  | links due q j hs hj hq hcorresponds =>
    obtain ⟨e', hj'⟩ := dialing_of_isDialing hs hd
    obtain rfl := Option.some.inj (hj.symm.trans hj')
    obtain rfl : due = none := by
      generalize letters history id = sent at hcorresponds
      cases hcorresponds
      rfl
    exact hs

theorem Unshared.asked_of_isLingering (h : Unshared c id) (hl : isLingering id c = true)
    (hs : (∃ d, c.calls.get? id = some (.choosing d)) ∨
      ∃ due, c.calls.get? id = some (.linking .publish due))
    (hc : c.Coherent) : (c.asked id).isSome := by
  obtain ⟨d, hs⟩ | ⟨due, hs⟩ := hs
  · simp [isLingering, hs] at hl
  · obtain ⟨⟨j, hj, -⟩, -⟩ := hc.linking hs
    obtain ⟨e', rfl⟩ | ⟨e', conn, rfl⟩ := h.sole.job hj
    · simp [isLingering, hs, Client.isDialing, hj] at hl
    · exact Option.isSome_iff_exists.2 ⟨_, asked_eq_some.2 ⟨e', conn, hj, rfl⟩⟩

theorem spent_mono {p p' : Client → Bool} (h : ∀ r ∈ history, p r.before = true → p' r.before = true) :
    spent p history ≤ spent p' history := by
  induction history with
  | nil => exact Nat.le_refl _
  | cons r earlier ih =>
    have hrest := ih fun r' hr' => h r' (List.mem_cons_of_mem _ hr')
    have hfirst := h r (List.mem_cons_self ..)
    rw [spent, spent]
    split
    · next hp => rw [if_pos (hfirst hp)]; omega
    · omega

/-- Over every run in which no other call overlaps a publish and its timer is on time, whatever
dials and calls come to and however long they take: the ack deadline bounds each wait for an ack and
nothing else. The dialer keeps to `Fresh`, and time-outs run to their end (`Span.longestPause`). -/
theorem Run.ack_law (h : Run settings now history c) (hop : ∃ r ∈ history, r.event = .start id op)
    (ho : op.options? = some o) (hpolicy : o.ackPolicy ≠ .none) (hdeadline : o.ackDeadline = some d)
    (hzero : d.isZero = false) (hsolo : Solo history id) (hpunctual : Punctual history id) :
    AckLaw settings history id d := by
  have hd := PublishOptions.deadline_eq hpolicy hdeadline hzero
  have haim := aim_of_options ho
  have honly : OnlyStarts history id op := by
    obtain ⟨r, hr, hevent⟩ := hop
    exact fun r' hr' op' hevent' => h.started_once hr hr' hevent hevent'
  have hposts {earlier : History} {c' : Client} (hrun : Run settings now earlier c')
      (hearlier : earlier <:+ history) (hs : (c'.calls.get? id).isSome) :
      Posts (max settings.attempts 1) earlier c' id op ∧ Unshared c' id := by
    have hstart := hrun.start_of_call (honly.of_suffix hearlier) hs
    exact ⟨hrun.posts haim hstart,
      hrun.unshared (fun r hr => hsolo r (hearlier.subset hr)) haim hstart hs⟩
  have hdue {earlier : History} {c' : Client} {l : Letter} (hrun : Run settings now earlier c')
      (hearlier : earlier <:+ history) (hl : Pending d earlier c' id l) :
      c'.now ≤ l.sent + d.ceilMillis :=
    hrun.now_le_of_pending (honly.of_suffix hearlier) ho hd
      (fun r hr => hpunctual r (hearlier.subset hr)) hl
  have hbefore {r : Record} {earlier : History} (hs : r :: earlier <:+ history) :
      earlier <:+ history := (List.suffix_cons r earlier).trans hs
  exact {
    waits := fun r earlier hs hasked => by
      obtain ⟨hrun, hp⟩ := h.of_suffix hs
      have hrun' := hrun.next r.draw hp
      obtain ⟨l, hl⟩ := hrun'.pending (honly.of_suffix hs) ho hd hasked
      exact ⟨l, hl, hrun'.sent_le (honly.of_suffix hs) ho hd l hl.mem, hdue hrun' hs hl⟩
    heard := h.heard_in_time honly ho hd hpunctual
    early := fun r earlier hs he l hl hnow => by
      rw [Record.move, he]
      exact hl.early r.draw hnow
    lapses := fun r earlier hs he l hl hnow => by
      obtain ⟨hrun, -⟩ := h.of_suffix hs
      obtain ⟨-, hunshared⟩ := hposts hrun (hbefore hs) (hrun.call_of_asked hl.asked)
      obtain ⟨e', hj⟩ := hl.job
      rw [Record.move, he, hl.lapses r.draw hnow.ge]
      exact ⟨rfl, (hunshared.sole.of_calling hj).2⟩
    silent := fun r earlier hs out hout => by
      obtain ⟨hrun, hp⟩ := h.of_suffix hs
      obtain ⟨hnone, hid, -⟩ := (hrun.life id).finish out hout
      refine ⟨hrun.letters_of_gone r.draw hnone (hp.not_start hid), fun a ha => ?_⟩
      obtain ⟨stage, hstage, -⟩ := hrun.stage_of_dial r.draw ha
      cases hstage.symm.trans (hrun.gone r.draw hp hnone hid).1
    answers := fun r earlier hs reply he l hl hreply => by
      rw [Record.move, he]
      exact hl.answers r.draw hreply
    retries := fun r earlier hs f he l hl hf => by
      obtain ⟨hrun, -⟩ := h.of_suffix hs
      obtain ⟨-, hunshared⟩ := hposts hrun (hbefore hs) (hrun.call_of_asked hl.asked)
      rw [Record.move, he]
      refine (hl.retries hunshared.sole r.draw hf).imp_right ?_
      rintro ⟨f', hf', hlast, heffects⟩
      refine ⟨f', hf', fun hb => hlast ?_, heffects⟩
      obtain ⟨a, ha⟩ := hrun.exists_pick hb r.draw
      simp [ha]
    dials := fun r earlier hs hdialing => by
      obtain ⟨hrun, -⟩ := h.of_suffix hs
      have hstage := (hposts hrun (hbefore hs) (isSome_of_isDialing hdialing)).1.isDialing hdialing
      refine ⟨hstage, fun he => ?_⟩
      rw [Record.move, he]
      simp only [step, lapse, hstage]
    total := by
      have hle := (h.spent_asked honly ho hd hpunctual).2
      have hfew : (letters history id).length ≤ max settings.attempts 1 := by
        by_cases hne : letters history id = []
        · simp [hne]
        · obtain ⟨q, -, hrepeats⟩ := (h.posts haim hop).repeats hne
          exact hrepeats.few
      refine ((spent_mono fun r hr hl => ?_).trans hle).trans (Nat.mul_le_mul_right _ hfew)
      obtain ⟨later, earlier, rfl⟩ := List.append_of_mem hr
      have hs : r :: earlier <:+ later ++ r :: earlier := ⟨later, rfl⟩
      obtain ⟨hrun, -⟩ := h.of_suffix hs
      have hcall : (r.before.calls.get? id).isSome := by
        refine Option.isSome_iff_ne_none.2 fun hnone => ?_
        simp [isLingering, hnone] at hl
      obtain ⟨hposts', hunshared⟩ := hposts hrun (hbefore hs) hcall
      exact hunshared.asked_of_isLingering hl (hposts'.stage hcall) hrun.keeps.coherent }

end Deadline

/-- A publish that waits a millisecond and a half for each ack. Its first broker is gone, and the
second, whose dial takes long, never answers. -/
def overdue : List (Nat × Event) :=
  [(0, .start 0 .connect), (0, .dialed 0 (.ok 1)),
    (0, .answered (.caller 0) (.ok { topology := lone })),
    (0, .start 1 (.publish "s" [1] { partition := some 0, ackDeadline := some ⟨1500000⟩ })),
    (0, .tick 1), (0, .answered (.caller 1) (.error (.unavailable "gone"))),
    (0, .tick 50), (0, .lapse 1), (0, .dialed 1 (.ok 2)), (0, .tick 51), (0, .lapse 1),
    (0, .tick 52), (0, .lapse 1)]

theorem ack_law_overdue :
    ∃ s, play ([], .fresh { bootstrap := ["a:1"] } 0) overdue = some s ∧
      Solo s.1 1 ∧ Punctual s.1 1 ∧ AckLaw { bootstrap := ["a:1"] } s.1 1 ⟨1500000⟩ ∧
      .finish 1 (.error (.deadlineExceeded (noAck ⟨1500000⟩))) ∈ trail s.1 ∧
      (letters s.1 1).map (fun l => (l.conn, l.sent)) = [(2, 50), (1, 0)] ∧
      (letters s.1 1).map Letter.heard = [some (52, .error (noAck ⟨1500000⟩)),
        some (1, .error (.unavailable "gone"))] ∧
      spent (isLingering 1) s.1 = 3 ∧ s.2.link.cached = some 2 := by
  have hends : (play ([], .fresh { bootstrap := ["a:1"] } 0) overdue).map (fun s => decide
      ((∀ r ∈ s.1, r.isSolo 1 = true) ∧ (∀ r ∈ s.1, r.isPunctual 1 = true) ∧
        (∃ r ∈ s.1, r.event = .start 1
          (.publish "s" [1] { partition := some 0, ackDeadline := some ⟨1500000⟩ })) ∧
        .finish 1 (.error (.deadlineExceeded (noAck ⟨1500000⟩))) ∈ trail s.1 ∧
        (letters s.1 1).map (fun l => (l.conn, l.sent)) = [(2, 50), (1, 0)] ∧
        (letters s.1 1).map Letter.heard = [some (52, .error (noAck ⟨1500000⟩)),
          some (1, .error (.unavailable "gone"))] ∧
        spent (isLingering 1) s.1 = 3 ∧ s.2.link.cached = some 2)) = some true := by
    decide +kernel
  obtain ⟨s, hs, hrun, hsolo, hpunctual, hop, hfacts⟩ := exists_run hends
  exact ⟨s, hs, hsolo, hpunctual,
    hrun.ack_law hop rfl (by decide) rfl rfl hsolo hpunctual, hfacts⟩

end StreamClient.Client
