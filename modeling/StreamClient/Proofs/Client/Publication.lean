import StreamClient.Proofs.Client.Letters
import StreamClient.Proofs.Client.Search

/-! What a publish sends: its partition is chosen once, before the first attempt, and every attempt
says the same. Round-robin counters go on with the publishes and not with their attempts. -/

namespace StreamClient.Client

open Link (Job)

def Effect.question? (id : CallId) : Effect → Option Consultation
  | .consult k question => if k = id then some question else none
  | _ => none

def consulted (history : History) (id : CallId) : List Consultation :=
  (trail history).filterMap (Effect.question? id)

def picked : History → CallId → Option Int32
  | [], _ => none
  | r :: earlier, id =>
    match r.event, r.before.calls.get? id with
    | .chosen k partition, some (.choosing _) =>
      if k = id then some partition else picked earlier id
    | _, _ => picked earlier id

/-- What a call for `op` asks brokers for if `picked` was chosen for it. -/
def Op.request? (picked : Option Int32) : Op → Option Request
  | .publish stream value o => (o.partition.or picked).map fun partition =>
    .publish stream partition
      { key := o.key, value, headers := o.headers, ackPolicy := o.ackPolicy, ackInbox := o.ackInbox
        correlationId := o.correlationId }
      o.deadline
  | .publishToSubject subject value o => some <| .publishToSubject subject
      { key := o.key, value, headers := o.headers, ackPolicy := o.ackPolicy, ackInbox := o.ackInbox
        correlationId := o.correlationId }
      o.deadline
  | _ => none

def published : Except Fault Reply → Except CallError Outcome
  | .ok reply => .ok (.acked reply.ack)
  | .error f => .error (.ofPublish f)

def Effect.turned (counters : Partitioner.Counters) : Effect → Partitioner.Counters
  | .consult _ q => (q.partitioner.pick counters q.stream q.key q.snapshot).2
  | _ => counters

def counters (history : History) : Partitioner.Counters := (trail history).foldl Effect.turned ∅

def turns (counters : Partitioner.Counters) (name stream : String) : UInt64 :=
  (((counters.get? name).getD ∅).get? stream).getD 0

/-- A publish without a partition of its own begins, to a stream with known partitions and with a
round-robin partitioner that counts under `name`. -/
def Record.rotates (name stream : String) (r : Record) : Bool :=
  match r.event with
  | .start _ (.publish s _ o) => !r.before.closed && o.partition.isNone && s == stream &&
      o.partitioner == .roundRobin name && r.before.snapshot.partitionCount s != 0
  | _ => false

/-- How a call stands that was started for `op` to publish and may make `total` attempts. -/
inductive Posts (total : Nat) (history : History) (c : Client) (id : CallId) (op : Op) : Prop
  | refused : c.calls.get? id = none → letters history id = [] →
    .finish id (.error .closed) ∈ trail history → Posts total history c id op
  | chooses (d : Draft) : c.calls.get? id = some (.choosing d) → letters history id = [] →
    (∀ a, .dial id a ∉ trail history) →
      (∀ p, op.request? (some p) = some (.publish d.stream p d.payload d.deadline)) →
        Posts total history c id op
  | links (due : Option Nat) (q : Request) (j : Job Request) :
    c.calls.get? id = some (.linking .publish due) → c.link.jobs.get? id = some j →
      op.request? (picked history id) = some q →
        Corresponds total q (letters history id) due j → Posts total history c id op
  | returned (q : Request) (r : Except Fault Reply) : c.calls.get? id = none →
    op.request? (picked history id) = some q → Concludes total q (letters history id) r →
      .finish id (published r) ∈ trail history → Posts total history c id op
  | abandoned : c.calls.get? id = none → (∀ r, .finish id r ∉ trail history) →
    (letters history id = [] ∨ ∃ q due j, op.request? (picked history id) = some q ∧
      Corresponds total q (letters history id) due j) → Posts total history c id op

section Publication

variable {settings : Settings} {now total : Nat} {history : History} {c : Client} {draw : Nat}
  {e : Event} {id : CallId} {op : Op} {q : Request}

def Event.question? (c : Client) (id : CallId) : Event → Option Consultation
  | .start k op => if k = id then op.question? c else none
  | _ => none

theorem works_silent {k : CallId} {effects : List Effect} (h : Works k effects) (id : CallId) :
    effects.filterMap (Effect.question? id) = [] := by
  refine List.filterMap_eq_nil_iff.2 fun x hx => ?_
  have hfor := h x hx
  cases x <;> first | rfl | cases hfor

theorem Run.questions_eq (h : Run settings now history c) (draw : Nat) (e : Event)
    (id : CallId) : (step draw c e).2.filterMap (Effect.question? id) =
      (e.question? c id).toList := by
  cases h.step_asks draw e with
  | nobody he hlight =>
    rw [works_silent (hlight.works id) id]
    cases e <;> first | rfl | cases he
  | call k he hnone hworks =>
    rw [works_silent hworks id]
    cases e with
    | start k' op =>
      obtain rfl := Option.some.inj he
      simp [Event.question?, hnone op rfl]
    | _ => rfl
  | partitioner k op question he hq hm =>
    subst he
    rw [hm]
    by_cases hk : k = id <;> simp [Effect.question?, Event.question?, hk, hq]

theorem Run.consulted_cons (h : Run settings now history c) (draw : Nat) (e : Event)
    (id : CallId) :
    consulted (⟨c, draw, e⟩ :: history) id = consulted history id ++ (e.question? c id).toList := by
  rw [← h.questions_eq draw e id]
  exact List.filterMap_append ..

theorem question?_of_new (hnew : ∀ op, e ≠ .start id op) : e.question? c id = none := by
  cases e with
  | start k op =>
    refine if_neg ?_
    rintro rfl
    exact hnew op rfl
  | _ => rfl

theorem Run.consulted_of_new (h : Run settings now history c) (hnew : id ∉ started history) :
    consulted history id = [] := by
  refine h.until_start (P := fun history => consulted history id = []) hnew rfl ?_
  intro earlier before e draw hrun _ hnew' ih
  rw [hrun.consulted_cons, ih, question?_of_new (not_start_of_new hnew')]
  rfl

/-- The partitioner of a call is asked as the call starts, and never again. -/
theorem Run.consulted_eq (h : Run settings now history c) {r : Record} (hr : r ∈ history)
    (hevent : r.event = .start id op) : consulted history id = (op.question? r.before).toList := by
  refine h.since_start (P := fun history _ => consulted history id = (op.question? r.before).toList)
    hr hevent ?_ ?_
  · intro earlier hrun hp
    rw [hrun.consulted_cons, hrun.consulted_of_new hp.1]
    simp [Event.question?]
  · intro earlier before e draw hrun hp _ hid ih
    rw [hrun.consulted_cons, ih, question?_of_new (hp.not_start hid)]
    simp

theorem counters_cons (c : Client) (draw : Nat) (e : Event) (history : History) :
    counters (⟨c, draw, e⟩ :: history) =
      (step draw c e).2.foldl Effect.turned (counters history) := by
  rw [counters, trail, List.foldl_append]
  rfl

theorem turned_of_works {k : CallId} {effects : List Effect} (h : Works k effects)
    (counters : Partitioner.Counters) : effects.foldl Effect.turned counters = counters := by
  induction effects with
  | nil => rfl
  | cons x rest ih =>
    have hx : Effect.turned counters x = counters := by
      have hfor := h x (List.mem_cons_self ..)
      cases x <;> first | rfl | cases hfor
    rw [List.foldl_cons, hx]
    exact ih fun y hy => h y (List.mem_cons_of_mem _ hy)

theorem rotates_of_unasked {name stream : String} (h : ∀ id op, e = .start id op →
    op.question? c = none) : Record.rotates name stream ⟨c, draw, e⟩ = false := by
  cases e with
  | start id op =>
    have hnone := h id op rfl
    cases op with
    | publish s value o =>
      cases hc : c.closed <;> cases hp : o.partition <;> simp [Op.question?, Record.rotates, hc, hp]
        at hnone ⊢
    | _ => rfl
  | _ => rfl

theorem turns_pick (counters : Partitioner.Counters) (p : Partitioner) (s : String)
    (key : Option Bytes) (snapshot : Snapshot) (name stream : String) :
    turns (p.pick counters s key snapshot).2 name stream =
      turns counters name stream +
        if s = stream ∧ p = .roundRobin name ∧ snapshot.partitionCount s ≠ 0 then 1 else 0 := by
  cases p with
  | constant n | byKey | custom n => simp [Partitioner.pick]
  | roundRobin n =>
    by_cases hn : n = name
    · subst hn
      by_cases hcount : snapshot.partitionCount s = 0
      · simp [Partitioner.pick, Rotation.pick, hcount, turns, Table.get?_put]
      · by_cases hs : s = stream
        · subst hs
          simp [Partitioner.pick, Rotation.pick, hcount, turns, Table.get?_put]
        · simp [Partitioner.pick, Rotation.pick, hcount, turns, Table.get?_put, hs, Ne.symm hs]
    · simp [Partitioner.pick, turns, Table.get?_put, hn, Ne.symm hn]

theorem Run.turns_eq (h : Run settings now history c) (name stream : String) :
    turns (counters history) name stream =
      UInt64.ofNat (history.countP (Record.rotates name stream)) := by
  induction h with
  | fresh => rfl
  | @next history c e draw hrun hp ih =>
    rw [counters_cons, List.countP_cons]
    cases hrun.step_asks draw e with
    | nobody he hlight =>
      have hnone : Record.rotates name stream ⟨c, draw, e⟩ = false :=
        rotates_of_unasked fun id op heq => by rw [heq] at he; cases he
      rw [turned_of_works (hlight.works 0), ih, hnone]
      rfl
    | call k he hunasked hworks =>
      have hnone : Record.rotates name stream ⟨c, draw, e⟩ = false :=
        rotates_of_unasked fun id op heq => by
          subst heq
          obtain rfl := Option.some.inj he
          exact hunasked op rfl
      rw [turned_of_works hworks, ih, hnone]
      rfl
    | partitioner k op question he hq hm =>
      subst he
      rw [hm]
      cases op with
      | publish s value o =>
        cases hc : c.closed <;> cases hpart : o.partition <;> simp [Op.question?, hc, hpart] at hq
        subst hq
        simp only [List.foldl_cons, List.foldl_nil, Effect.turned]
        rw [turns_pick, ih]
        by_cases hrotates :
            s = stream ∧ o.partitioner = .roundRobin name ∧ c.snapshot.partitionCount s ≠ 0
        · have htrue : Record.rotates name stream
              ⟨c, draw, .start k (.publish s value o)⟩ = true := by
            obtain ⟨rfl, hround, hcount⟩ := hrotates
            simp [Record.rotates, hc, hpart, hround, hcount]
          rw [if_pos hrotates, htrue, if_pos rfl, UInt64.ofNat_add]
          rfl
        · have hfalse : Record.rotates name stream
              ⟨c, draw, .start k (.publish s value o)⟩ = false := by
            simpa [Record.rotates, hc, hpart] using hrotates
          rw [if_neg hrotates, hfalse]
          simp
      | _ => cases hq

theorem picked_same (h : ∀ d, c.calls.get? id = some (.choosing d) → ∀ p, e ≠ .chosen id p) :
    picked (⟨c, draw, e⟩ :: history) id = picked history id := by
  rw [picked]
  split
  · next k partition d hevent hs =>
    refine if_neg ?_
    rintro rfl
    exact h d hs partition hevent
  · rfl

theorem picked_of_linking {goal : Goal} {due : Option Nat}
    (h : c.calls.get? id = some (.linking goal due)) :
    picked (⟨c, draw, e⟩ :: history) id = picked history id :=
  picked_same fun d hs => by cases h.symm.trans hs

theorem Run.stage_of_dial (h : Run settings now history c) (draw : Nat) {a : Address}
    (hd : .dial id a ∈ (step draw c e).2) :
    ∃ stage, (step draw c e).1.calls.get? id = some stage ∧ ∀ d, stage ≠ .choosing d := by
  rcases (h.deals draw e).informs.dials id a hd with ⟨-, goal, due, hs⟩ | ⟨-, rest, hs⟩ | ⟨s, hs, -⟩
  · exact ⟨_, hs, by simp⟩
  · exact ⟨_, hs, by simp⟩
  · exact ⟨_, hs, by simp⟩

theorem Run.undialed_of_new (h : Run settings now history c) (hnew : id ∉ started history)
    (a : Address) : .dial id a ∉ trail history := by
  refine h.until_start (P := fun history => .dial id a ∉ trail history) hnew List.not_mem_nil ?_
  intro earlier before e draw hrun hp hnew' ih hd
  rcases List.mem_append.1 hd with hd | hd
  · exact ih hd
  · obtain ⟨stage, hs, -⟩ := hrun.stage_of_dial draw hd
    cases ((hrun.next draw hp).keeps.call_of_new hnew').symm.trans hs

theorem settle_publish (draw : Nat) (c : Client) (id : CallId) (r : Except Fault Reply) :
    settle draw c id .publish r = c.finish id (published r) := by
  cases r <;> rfl

theorem posts_of_exchanges (hq : op.request? (picked (⟨c, draw, e⟩ :: history) id) = some q)
    (hunfinished : ∀ r, .finish id r ∉ trail history)
    (h : Exchanges draw .publish total q (delivered c.now (c.hears? id e) (letters history id)) c e
      id (step draw c e)) :
    Posts total (⟨c, draw, e⟩ :: history) (step draw c e).1 id op := by
  cases h with
  | goes due j hs hj hcorresponds => exact .links due q j hs hj hq hcorresponds
  | returns link before r hplain hposted hj hconcludes hm =>
    have hm' : step draw c e = (finish { c with link } id (published r)).after before := by
      rw [hm, settle_publish]
    obtain ⟨hs, hletters, hfinish⟩ := returned_of_finish hm' hposted
    exact .returned q r hs hq (hletters ▸ hconcludes) hfinish
  | abandons due j he hm hcorresponds =>
    obtain ⟨hs, hletters, hleft⟩ := left_of_abandon hm hunfinished
    exact .abandoned hs hleft (.inr ⟨q, due, j, hq, hletters ▸ hcorresponds⟩)

inductive Begins (draw : Nat) (c : Client) (id : CallId) (op : Op) : Prop
  | refused : step draw c (.start id op) = c.finish id (.error .closed) → Begins draw c id op
  | submits (q : Request) : (∀ picked, op.request? picked = some q) →
    step draw c (.start id op) = submit draw c id .publish q → Begins draw c id op
  | chooses (d : Draft) (question : Consultation) :
    (∀ p, op.request? (some p) = some (.publish d.stream p d.payload d.deadline)) →
      step draw c (.start id op) = (c.put id (.choosing d), [.consult id question]) →
        Begins draw c id op

theorem begins_start (draw : Nat) (c : Client) (id : CallId) (haim : op.aim = .publishing) :
    Begins draw c id op := by
  by_cases hclosed : (c.closed && op != .close) = true
  · exact .refused (by simp only [step, start, if_pos hclosed])
  · have hm : step draw c (.start id op) = openCall draw c id op := by
      simp only [step, start, if_neg hclosed]
    cases op with
    | publishToSubject subject value o => exact .submits _ (fun _ => rfl) hm
    | publish stream value o =>
      cases hpart : o.partition with
      | some p =>
        refine .submits (.publish stream p (o.payload value) o.deadline) (fun picked => ?_) ?_
        · simp [Op.request?, hpart, PublishOptions.payload]
        · rw [hm]
          simp only [openCall, hpart]
      | none =>
        refine .chooses ⟨stream, o.payload value, o.deadline⟩
          ⟨o.partitioner, stream, o.key, value, o.ackPolicy, c.snapshot⟩ (fun p => ?_) ?_
        · simp [Op.request?, hpart, PublishOptions.payload]
        · rw [hm]
          simp only [openCall, hpart]
    | _ => cases haim

theorem Run.posts_start (h : Run settings now history c) (haim : op.aim = .publishing)
    (draw : Nat) (hp : Possible history c (.start id op)) :
    Posts (max settings.attempts 1) (⟨c, draw, .start id op⟩ :: history)
      (step draw c (.start id op)).1 id op := by
  have hnew := h.letters_of_new hp.1
  cases begins_start draw c id haim with
  | refused hm =>
    refine .refused (by simp [hm]) ?_ ?_
    · rw [letters_cons, hm, hnew]
      rfl
    · refine List.mem_append_right _ ?_
      rw [Record.move, hm]
      exact List.mem_singleton_self _
  | submits q hq hm =>
    have hunfinished (r) : .finish id r ∉ trail history := fun hr =>
      hp.1 ((h.life id).finish r hr).2.1
    refine posts_of_exchanges (q := q) (hq _) hunfinished ?_
    rw [hm, hnew]
    exact exchanges_submit draw c id .publish q h.attempts_eq
  | chooses d question hrequest hm =>
    refine .chooses d (by simp [hm]) ?_ (fun a ha => ?_) hrequest
    · rw [letters_cons, hm, hnew]
      rfl
    · refine (List.mem_append.1 ha).elim (h.undialed_of_new hp.1 a) fun ha => ?_
      rw [Record.move, hm] at ha
      cases List.mem_singleton.1 ha

theorem Posts.chosen (h : Run settings now history c) {d : Draft} (draw : Nat)
    (hs : c.calls.get? id = some (.choosing d)) (hletters : letters history id = [])
    (hundialed : ∀ a, .dial id a ∉ trail history)
    (hrequest : ∀ p, op.request? (some p) = some (.publish d.stream p d.payload d.deadline))
    (hp : Possible history c e) :
    Posts (max settings.attempts 1) (⟨c, draw, e⟩ :: history) (step draw c e).1 id op := by
  have hasked : c.asked id = none := asked_eq_none h.keeps.coherent (by simp [hs])
  have hheard : letters (⟨c, draw, e⟩ :: history) id = posted c.now (step draw c e).2 id := by
    rw [letters_cons, hears?_of_unasked hasked, hletters]
    simp [delivered]
  have hstays (hm : step draw c e = c.stay) :
      Posts (max settings.attempts 1) (⟨c, draw, e⟩ :: history) (step draw c e).1 id op := by
    have htrail : trail (⟨c, draw, e⟩ :: history) = trail history := by
      rw [trail, Record.move, hm]
      exact List.append_nil _
    rw [hm] at hheard ⊢
    exact .chooses d hs hheard (fun a => htrail ▸ hundialed a) hrequest
  by_cases he : e.caller? = some id
  · cases Event.ofCall he with
    | start op' => cases hs.symm.trans (h.keeps.admits hp).1
    | dialed r =>
      have hdialing := hp.1
      simp [isDialing, hs] at hdialing
    | answered r => exact hstays (by simp only [step, answered, hs])
    | run => exact hstays (by simp only [step, Client.run, hs])
    | lapse => exact hstays (by simp only [step, lapse, hs])
    | abandon =>
      refine .abandoned (calls_abandon c id) (fun r hr => ?_) (.inl ?_)
      · exact (List.mem_append.1 hr).elim ((h.life id).unfinished hs r)
          ((plain_abandon c id).2 id r)
      · rw [hheard]
        simp only [step, abandon, hs]
        rfl
    | chosen p =>
      have hpicked : picked (⟨c, draw, .chosen id p⟩ :: history) id = some p := by
        simp [picked, hs]
      refine posts_of_exchanges (hpicked ▸ hrequest p) ((h.life id).unfinished hs) ?_
      rw [hears?_of_unasked hasked, hletters]
      simp only [step, Client.chosen, hs]
      exact exchanges_submit draw c id .publish _ h.attempts_eq
  · obtain ⟨hcalls, -⟩ := h.untouched draw hs (by simp [Rests]) he
    refine .chooses d (hcalls.trans hs) ((h.letters_away draw he).trans hletters) (fun a ha => ?_)
      hrequest
    refine (List.mem_append.1 ha).elim (hundialed a) fun ha => ?_
    obtain ⟨stage, hstage, hne⟩ := h.stage_of_dial draw ha
    exact hne d (Option.some.inj (hstage.symm.trans (hcalls.trans hs)))

theorem Posts.next (h : Run settings now history c)
    (hposts : Posts (max settings.attempts 1) history c id op) (hid : id ∈ started history)
    (draw : Nat) (hp : Possible history c e) :
    Posts (max settings.attempts 1) (⟨c, draw, e⟩ :: history) (step draw c e).1 id op := by
  have hstart := hp.not_start hid
  -- of a call that is over nothing changes any more
  have hgone (hs : c.calls.get? id = none) : (step draw c e).1.calls.get? id = none ∧
      letters (⟨c, draw, e⟩ :: history) id = letters history id ∧
      picked (⟨c, draw, e⟩ :: history) id = picked history id ∧
      ∀ r, .finish id r ∉ (step draw c e).2 := by
    obtain ⟨hcalls, hfinish⟩ := h.gone draw hp hs hid
    exact ⟨hcalls, h.letters_of_gone draw hs hstart,
      picked_same (fun d hd => by cases hs.symm.trans hd), hfinish⟩
  cases hposts with
  | refused hs hletters hfinish =>
    obtain ⟨hs', hsame, -, -⟩ := hgone hs
    exact .refused hs' (hsame.trans hletters) (mem_trail_cons hfinish)
  | chooses d hs hletters hundialed hrequest =>
    exact Posts.chosen h draw hs hletters hundialed hrequest hp
  | links due q j hs hj hq hcorresponds =>
    have hpicked : picked (⟨c, draw, e⟩ :: history) id = picked history id := picked_of_linking hs
    by_cases he : e.caller? = some id
    · refine posts_of_exchanges (hpicked ▸ hq) ((h.life id).unfinished hs) ?_
      exact hcorresponds.step draw hs hj hstart hp.dialing he
    · obtain ⟨hcalls, -⟩ := h.untouched draw hs (by simp [Rests]) he
      refine .links due q j (hcalls.trans hs) ((h.job_away draw he).trans hj) (hpicked ▸ hq) ?_
      rw [h.letters_away draw he]
      exact hcorresponds
  | returned q r hs hq hconcludes hfinish =>
    obtain ⟨hs', hsame, hpicked, -⟩ := hgone hs
    refine .returned q r hs' (hpicked ▸ hq) ?_ (mem_trail_cons hfinish)
    rwa [hsame]
  | abandoned hs hunfinished hletters =>
    obtain ⟨hs', hsame, hpicked, hfinish⟩ := hgone hs
    refine .abandoned hs' (fun r hr => (List.mem_append.1 hr).elim (hunfinished r) (hfinish r)) ?_
    rwa [hsame, hpicked]

theorem Run.posts (h : Run settings now history c) (haim : op.aim = .publishing)
    (hop : ∃ r ∈ history, r.event = .start id op) :
    Posts (max settings.attempts 1) history c id op := by
  obtain ⟨r, hr, hevent⟩ := hop
  refine h.since_start (P := fun history c => Posts (max settings.attempts 1) history c id op)
    hr hevent ?_ ?_
  · exact fun earlier hrun hp => hrun.posts_start haim r.draw hp
  · exact fun draw hrun hp _ hid ih => Posts.next hrun ih hid draw hp

theorem Posts.repeats (h : Posts total history c id op) (hne : letters history id ≠ []) :
    ∃ q, op.request? (picked history id) = some q ∧ Repeats total q (letters history id) := by
  cases h with
  | refused _ hletters => exact absurd hletters hne
  | chooses _ _ hletters => exact absurd hletters hne
  | links due q j _ _ hq hcorresponds => exact ⟨q, hq, hcorresponds.repeats⟩
  | returned q r _ hq hconcludes => exact ⟨q, hq, hconcludes.repeats⟩
  | abandoned _ _ hletters =>
    obtain ⟨q, due, j, hq, hcorresponds⟩ := hletters.resolve_left hne
    exact ⟨q, hq, hcorresponds.repeats⟩

def Answered (letters : List Letter) (reply : Reply) : Prop :=
  ∃ l t, letters.head? = some l ∧ l.heard = some (t, .ok reply)

theorem Corresponds.not_answered {due : Option Nat} {j : Job Request} {sent : List Letter}
    (h : Corresponds total q sent due j) (reply : Reply) : ¬ Answered sent reply := by
  rintro ⟨l, t, hl, hheard⟩
  exact h.unheard (List.mem_of_mem_head? hl) t reply hheard

theorem Concludes.answered_iff {r : Except Fault Reply} {sent : List Letter}
    (h : Concludes total q sent r) (reply : Reply) : r = .ok reply ↔ Answered sent reply := by
  cases h with
  | answered earlier conn t t' r hlost hroom hr => simp [Answered]
  | failed _ f hlost hroom =>
    constructor
    · rintro ⟨⟩
    · rintro ⟨l, t, hl, hheard⟩
      have hl' := (hlost l (List.mem_of_mem_head? hl)).2
      simp [Letter.isLost, hheard, Link.unreached] at hl'

theorem Posts.acked_iff (h : Posts total history c id op) (hlife : Life history c id)
    (o : Outcome) : .finish id (.ok o) ∈ trail history ↔
      ∃ reply, Answered (letters history id) reply ∧ o = .acked reply.ack := by
  have hnever (hanswered : ∀ reply, ¬ Answered (letters history id) reply)
      (hfinish : .finish id (.ok o) ∉ trail history) : .finish id (.ok o) ∈ trail history ↔
        ∃ reply, Answered (letters history id) reply ∧ o = .acked reply.ack :=
    iff_of_false hfinish fun ⟨reply, hreply, _⟩ => hanswered reply hreply
  have hempty (hletters : letters history id = []) (reply : Reply) :
      ¬ Answered (letters history id) reply := by
    rintro ⟨l, t, hl, -⟩
    rw [hletters] at hl
    cases hl
  cases h with
  | refused _ hletters hfinish =>
    exact hnever (hempty hletters) fun ho => by cases (hlife.finish _ hfinish).2.2 _ ho
  | chooses d hs hletters _ _ => exact hnever (hempty hletters) (hlife.unfinished hs _)
  | links due q j hs _ _ hcorresponds =>
    exact hnever hcorresponds.not_answered (hlife.unfinished hs _)
  | abandoned _ hunfinished hletters =>
    rcases hletters with hletters | ⟨q, due, j, -, hcorresponds⟩
    · exact hnever (hempty hletters) (hunfinished _)
    · exact hnever hcorresponds.not_answered (hunfinished _)
  | returned q r hs hq hconcludes hfinish =>
    have honce : .finish id (.ok o) ∈ trail history ↔ published r = .ok o :=
      ⟨fun ho => ((hlife.finish _ hfinish).2.2 _ ho).symm, fun ho => ho ▸ hfinish⟩
    rw [honce]
    constructor
    · intro ho
      cases r with
      | ok reply => exact ⟨reply, (hconcludes.answered_iff reply).1 rfl, (Except.ok.inj ho).symm⟩
      | error f => cases ho
    · rintro ⟨reply, hreply, rfl⟩
      obtain rfl := (hconcludes.answered_iff reply).2 hreply
      rfl

/-- What holds of all publishes of a run. -/
structure PublishLaw (settings : Settings) (history : History) : Prop where
  /-- The partitioner of a call is asked once, or not at all if a partition is given, about the
  snapshot that the client had as the call started. -/
  consulted : ∀ r ∈ history, ∀ id op, r.event = .start id op →
    consulted history id = (op.question? r.before).toList
  first : ∀ r ∈ history, ∀ id question, .consult id question ∈ r.move.2 →
    (∃ op, r.event = .start id op ∧ op.question? r.before = some question) ∧
      r.move.2 = [.consult id question]
  early : ∀ r earlier, r :: earlier <:+ history → ∀ id d,
    r.move.1.calls.get? id = some (.choosing d) →
      letters (r :: earlier) id = [] ∧ ∀ a, .dial id a ∉ trail (r :: earlier)
  /-- Whatever is sent says the same and goes to the partition that was chosen. Another attempt to
  send it follows only if the one before has reached no broker. -/
  repeats : ∀ id op, (∃ r ∈ history, r.event = .start id op) → op.aim = .publishing →
    letters history id ≠ [] → ∃ q, op.request? (picked history id) = some q ∧
      Repeats (max settings.attempts 1) q (letters history id)
  acked : ∀ id op, (∃ r ∈ history, r.event = .start id op) → op.aim = .publishing → ∀ o,
    .finish id (.ok o) ∈ trail history ↔
      ∃ reply, Answered (letters history id) reply ∧ o = .acked reply.ack
  /-- Round-robin counters count the publishes. -/
  turned : ∀ name stream, turns (counters history) name stream =
    UInt64.ofNat (history.countP (Record.rotates name stream))

/-- Over every run, whatever partitioners choose and whatever fails: a publish has its partition
chosen once, before it sends anything, and sends the same in every attempt. The dialer keeps to
`Fresh`. -/
theorem Run.publish_law (h : Run settings now history c) : PublishLaw settings history where
  consulted r hr id op hevent := h.consulted_eq hr hevent
  first r hr id question hq := by
    obtain ⟨earlier, hrun, -⟩ := h.of_mem hr
    rw [Record.move] at hq ⊢
    cases hrun.step_asks r.draw r.event with
    | nobody _ hlight => cases hlight _ hq
    | call k _ _ hworks => cases hworks _ hq
    | partitioner k op question' he hquestion hm =>
      rw [hm] at hq ⊢
      obtain ⟨rfl, rfl⟩ := Effect.consult.inj (List.mem_singleton.1 hq)
      exact ⟨⟨op, he, hquestion⟩, rfl⟩
  early r earlier hsuffix id d hs := by
    obtain ⟨hrun, hp⟩ := h.of_suffix hsuffix
    have hnext := hrun.next r.draw hp
    obtain ⟨r', hr', op, hevent, haim⟩ := (hnext.life id).aim _ hs
    cases hnext.posts haim ⟨r', hr', hevent⟩ with
    | chooses _ _ hletters hundialed => exact ⟨hletters, hundialed⟩
    | refused hnone => cases hnone.symm.trans hs
    | links due q j hlinks => cases hlinks.symm.trans hs
    | returned q r hnone => cases hnone.symm.trans hs
    | abandoned hnone => cases hnone.symm.trans hs
  repeats id op hop haim hne := (h.posts haim hop).repeats hne
  acked id op hop haim o := (h.posts haim hop).acked_iff (h.life id) o
  turned := h.turns_eq

end Publication

def paired : Topology where
  brokers := [⟨"b1", "a", 1⟩]
  streams := [⟨"s", "s", [{ id := 0, leader := some "b1" }, { id := 1, leader := some "b1" }]⟩]

/-- Two messages are published by a round-robin partitioner. The first reaches its broker only in the
second attempt. -/
def alternating : List (Nat × Event) :=
  let options : PublishOptions := { partitioner := .roundRobin "p", key := some [7] }
  [(0, .start 0 .connect), (0, .dialed 0 (.ok 1)),
    (0, .answered (.caller 0) (.ok { topology := paired })),
    (0, .start 1 (.publish "s" [1] options)), (0, .chosen 1 0),
    (0, .answered (.caller 1) (.error (.unavailable "gone"))), (0, .dialed 1 (.ok 2)),
    (0, .answered (.caller 1) (.ok {})),
    (0, .start 2 (.publish "s" [2] options)), (0, .chosen 2 1), (0, .answered (.caller 2) (.ok {}))]

theorem publish_law_alternating :
    ∃ s, play ([], .fresh { bootstrap := ["a:1"] } 0) alternating = some s ∧
      PublishLaw { bootstrap := ["a:1"] } s.1 ∧ turns (counters s.1) "p" "s" = 2 ∧
      (letters s.1 1).map Letter.conn = [2, 1] ∧ (letters s.1 2).map Letter.conn = [2] := by
  have hends : (play ([], .fresh { bootstrap := ["a:1"] } 0) alternating).map (fun s => decide
      (turns (counters s.1) "p" "s" = 2 ∧ (letters s.1 1).map Letter.conn = [2, 1] ∧
        (letters s.1 2).map Letter.conn = [2])) = some true := by
    decide +kernel
  obtain ⟨s, hs, hrun, hfacts⟩ := exists_run hends
  exact ⟨s, hs, hrun.publish_law, hfacts⟩

end StreamClient.Client
