import StreamClient.Proofs.Client.Lives
import StreamClient.Proofs.Client.Lookups

/-! What a call is there for: it keeps to that over every run, and returns accordingly. -/

namespace StreamClient.Client

inductive Purpose where
  | connect
  | create
  | delete
  | publish
  | fetch
  | subscribe
  | close
  deriving DecidableEq

def Op.purpose : Op → Purpose
  | .connect => .connect
  | .createStream .. => .create
  | .deleteStream _ => .delete
  | .publish .. | .publishToSubject .. => .publish
  | .subscribe .. => .subscribe
  | .fetchMetadata => .fetch
  | .close => .close

def Goal.purpose : Goal → Purpose
  | .connect => .connect
  | .create _ | .created => .create
  | .delete _ => .delete
  | .publish => .publish
  | .fetch => .fetch
  | .resolve .. => .subscribe

def Stage.purpose : Stage → Purpose
  | .probing _ => .connect
  | .choosing _ => .publish
  | .linking goal _ => goal.purpose
  | .pausing .. | .joining .. | .greeting .. => .subscribe
  | .closing => .close

def Purpose.Allows : Purpose → Outcome → Prop
  | .connect, o | .fetch, o => ∃ s, o = .refreshed s
  | .publish, o => ∃ ack, o = .acked ack
  | _, o => o = .done

def Purposed (p : Purpose) (c : Client) (id : CallId) : Prop :=
  ∀ stage, c.calls.get? id = some stage → stage.purpose = p

/-- A move with which the call `id` goes on for `p`, or returns what it was there for. -/
structure Pursues (p : Purpose) (id : CallId) (m : Move) : Prop where
  stage : Purposed p m.1 id
  returns : ∀ o, .finish id (.ok o) ∈ m.2 → p.Allows o

section Moves

variable {p : Purpose} {c : Client} {m : Move} {id : CallId}

theorem Pursues.after {effects : List Effect} (h : Pursues p id m) (hp : Plain effects) :
    Pursues p id (m.after effects) where
  stage := h.stage
  returns o ho := h.returns o ((List.mem_append.1 ho).resolve_left (hp.2 id _))

theorem Purposed.still (h : Purposed p c id) (hcalls : m.1.calls.get? id = c.calls.get? id)
    (hfinish : ∀ r, .finish id r ∉ m.2) : Pursues p id m where
  stage stage hs := h stage (hcalls ▸ hs)
  returns _ ho := absurd ho (hfinish _)

theorem Purposed.stay (h : Purposed p c id) : Pursues p id c.stay :=
  h.still rfl (by simp [Client.stay])

theorem pursues_over (c : Client) {r : Except CallError Outcome} (hr : ∀ o, r = .ok o → p.Allows o) :
    Pursues p id (c.finish id r) where
  stage stage hs := by simp at hs
  returns o ho := by
    obtain ⟨-, heq⟩ := Effect.finish.inj (List.mem_singleton.1 ho)
    exact hr o heq.symm

theorem pursues_put (c : Client) (stage : Stage) {effects : List Effect} (hp : Plain effects) :
    Pursues stage.purpose id (c.put id stage, effects) where
  stage stage' hs' := by
    obtain rfl : stage = stage' := by simpa using hs'
    rfl
  returns o ho := absurd ho (hp.2 id _)

theorem pursues_launch (c : Client) (s : Subscription) (a : Address) (conn : Conn) :
    Pursues .subscribe id (c.launch id s a conn) :=
  pursues_put _ (.greeting s none _) ⟨fun _ => rfl, by simp⟩

theorem pursues_lookup (draw : Nat) (c : Client) (s : Subscription) (left : Nat) :
    Pursues .subscribe id (lookup draw c id s left) := by
  cases lookup_finds draw c id s left with
  | nowhere _ _ hm => exact hm ▸ pursues_over c (by simp)
  | later n due _ _ hm => exact hm ▸ pursues_put c (.pausing s n due) plain_nil
  | late a _ _ hm => exact hm ▸ pursues_over c (by simp)
  | reuses a conn p _ _ _ hm => exact hm ▸ pursues_launch _ s a conn
  | dials a _ _ _ hm => exact hm ▸ pursues_put _ (.joining s a) (plain_dial id a)

theorem pursues_follow {goal : Goal} (due : Option Nat) {t : Link.Turn Request Reply}
    {next : Client → Except Fault Reply → Move} (ht : t.ending ≠ some .shut)
    (hnext : ∀ c r, Pursues goal.purpose id (next c r)) :
    Pursues goal.purpose id (c.follow id goal due t next) := by
  have hplain := plain_map_ofOrder t.orders
  cases he : t.ending with
  | none =>
    simp only [follow, he]
    exact pursues_put _ (.linking goal _) hplain
  | some ending =>
    cases ending with
    | shut => exact absurd he ht
    | reply r =>
      simp only [follow, he]
      exact (hnext _ r).after hplain

theorem pursues_created (c : Client) (r : Except Fault Reply) :
    Pursues .create id (c.created id r) := by
  cases r <;> exact pursues_over _ fun o ho => (Except.ok.inj ho).symm

theorem pursues_settle (draw : Nat) (c : Client) (goal : Goal) (r : Except Fault Reply) :
    Pursues goal.purpose id (settle draw c id goal r) := by
  cases r with
  | error f =>
    cases goal with
    | created => exact pursues_created c (.error f)
    | _ => exact pursues_over c (by simp)
  | ok reply =>
    cases goal with
    | connect | fetch => exact pursues_over _ fun o ho => ⟨_, (Except.ok.inj ho).symm⟩
    | create name =>
      have hfollow : Pursues Goal.created.purpose id (c.follow id .created none
          (c.link.submit (c.pick draw) id .fetchMetadata) fun c' r' => c'.created id r') :=
        pursues_follow none (Link.submit_seeks _ c.link id .fetchMetadata).unshut pursues_created
      exact hfollow
    | created => exact pursues_created c (.ok reply)
    | delete name => exact pursues_over c fun o ho => (Except.ok.inj ho).symm
    | publish => exact pursues_over c fun o ho => ⟨_, (Except.ok.inj ho).symm⟩
    | resolve s left => exact pursues_lookup draw _ s left

theorem pursues_engage (draw : Nat) (c : Client) (goal : Goal) (due : Option Nat)
    {t : Link.Turn Request Reply} (ht : t.ending ≠ some .shut) :
    Pursues goal.purpose id (engage draw c id goal due t) :=
  pursues_follow due ht fun c' r => pursues_settle draw c' goal r

theorem pursues_submit (draw : Nat) (c : Client) (goal : Goal) (q : Request) :
    Pursues goal.purpose id (submit draw c id goal q) :=
  pursues_engage draw c goal none (Link.submit_seeks _ _ id q).unshut

theorem pursues_probe (c : Client) (last : Option Fault) (addresses : List Address) :
    Pursues .connect id (c.probe id last addresses) := by
  cases addresses with
  | nil => exact pursues_over c (by simp)
  | cons a rest => exact pursues_put c (.probing rest) (plain_dial id a)

theorem pursues_closeLink (c : Client) (t : Link.Turn Request Reply) :
    Pursues .close id (c.closeLink id t) := by
  have hplain := plain_map_ofOrder t.orders
  cases he : t.ending with
  | none =>
    simp only [closeLink, he]
    exact pursues_put _ .closing hplain
  | some ending =>
    simp only [closeLink, he]
    have hover : Pursues .close id (Client.finish { c with link := t.link } id (.ok .done)) :=
      pursues_over _ fun o ho => (Except.ok.inj ho).symm
    exact hover.after hplain

theorem pursues_greeted (c : Client) (s : Subscription) (verdict : Except Fault Unit) :
    Pursues .subscribe id (c.greeted id s verdict) := by
  cases verdict with
  | ok u => exact pursues_over c fun o ho => (Except.ok.inj ho).symm
  | error f => exact pursues_over c (by simp)

theorem pursues_close (c : Client) : Pursues .close id (c.close id) := by
  cases hclosed : c.closed with
  | true =>
    rw [close, if_pos hclosed]
    exact pursues_over c fun o ho => (Except.ok.inj ho).symm
  | false =>
    rw [close_eq hclosed]
    exact (pursues_closeLink _ _).after (plain_flatMap_close c.pools.values fun p => p.close.2)

theorem pursues_start (draw : Nat) (c : Client) (op : Op) :
    Pursues op.purpose id (start draw c id op) := by
  rw [start]
  split
  · exact pursues_over c (by simp)
  · cases op with
    | connect =>
      simp only [openCall, connect]
      split
      · exact pursues_over c (by simp)
      · exact pursues_probe c none _
    | createStream name o =>
      simp only [openCall]
      split
      · exact pursues_over c (by simp)
      · exact pursues_submit draw c (.create name) _
    | deleteStream name => exact pursues_submit draw c (.delete name) _
    | publish stream value o =>
      simp only [openCall]
      split
      · exact pursues_submit draw c .publish _
      · exact pursues_put c (.choosing _) ⟨fun _ => rfl, by simp⟩
    | publishToSubject subject value o => exact pursues_submit draw c .publish _
    | subscribe stream o => exact pursues_lookup draw c (o.subscription stream) _
    | fetchMetadata => exact pursues_submit draw c .fetch _
    | close => exact pursues_close c

end Moves

section Events

variable {p : Purpose} {c : Client} {e : Event} {id : CallId}

theorem Purposed.call (h : Purposed p c id) (draw : Nat) (hs : c.Sensible)
    (he : e.caller? = some id) (hstart : ∀ op, e = .start id op → op.purpose = p) :
    Pursues p id (step draw c e) := by
  have hwants {goal : Goal} {due : Option Nat} (hstage : c.calls.get? id = some (.linking goal due)) :
      goal.purpose = p ∧ ∃ q, c.link.Wants id q := by
    obtain ⟨q, hq, -⟩ := hs.wants id goal due hstage
    exact ⟨h _ hstage, q, hq⟩
  cases Event.ofCall he with
  | start op =>
    obtain rfl := hstart op rfl
    exact pursues_start draw c op
  | dialed r =>
    simp only [step, dialed]
    split
    · next hstage =>
      obtain rfl := h _ hstage
      exact pursues_submit draw _ .connect _
    · next hstage =>
      obtain rfl := h _ hstage
      exact pursues_probe c _ _
    · next goal due hstage =>
      obtain ⟨rfl, q, hq⟩ := hwants hstage
      exact pursues_engage draw c goal due (Link.dialed_seeks _ hq _).unshut
    · next s a conn hstage =>
      obtain rfl := h _ hstage
      exact pursues_launch c s a conn
    · next hstage =>
      obtain rfl := h _ hstage
      exact pursues_over c (by simp)
    · exact h.stay
  | answered r =>
    simp only [step, answered]
    split
    · next goal due hstage =>
      obtain ⟨rfl, q, hq⟩ := hwants hstage
      exact pursues_engage draw c goal due (Link.answered_unshut _ hq r)
    · exact h.stay
  | chosen partition =>
    simp only [step, chosen]
    split
    · next d hstage =>
      obtain rfl := h _ hstage
      exact pursues_submit draw c .publish _
    · exact h.stay
  | run =>
    simp only [step, run]
    split
    · next goal due hstage =>
      obtain ⟨rfl, q, hq⟩ := hwants hstage
      exact pursues_engage draw c goal due (Link.resume_seeks _ hq).unshut
    · next hstage =>
      obtain rfl := h _ hstage
      exact pursues_closeLink c _
    · next s verdict _ hstage =>
      obtain rfl := h _ hstage
      exact pursues_greeted c s verdict
    · exact h.stay
  | abandon =>
    refine ⟨fun stage hs' => ?_, fun o ho => absurd ho ((plain_abandon c id).2 id _)⟩
    rw [step, calls_abandon] at hs'
    cases hs'
  | lapse =>
    simp only [step, lapse]
    split
    · next goal due hstage =>
      obtain ⟨rfl, q, hq⟩ := hwants hstage
      split
      · next d hd =>
        split
        · have hlate : Pursues goal.purpose id (engage draw c id goal none
              (c.link.answered (c.pick draw) id (.error (noAck d)))) :=
            pursues_engage draw c goal none (Link.answered_unshut _ hq _)
          exact hlate.after ⟨fun _ => rfl, by simp⟩
        · exact h.stay
      · exact h.stay
    · next s left due hstage =>
      obtain rfl := h _ hstage
      split
      · exact pursues_submit draw c (.resolve s left) _
      · exact h.stay
    · next s verdict _ hstage =>
      obtain rfl := h _ hstage
      exact pursues_greeted c s verdict
    · next s due hstage =>
      obtain rfl := h _ hstage
      split
      · split
        · exact (pursues_greeted _ s _).after (plain_unsubscribe c id)
        · exact h.stay
      · exact h.stay
    · exact h.stay

theorem Purposed.step (h : Purposed p c id) (draw : Nat) (hc : c.Coherent) (hs : c.Sensible)
    (hpooled : c.Pooled) (hstart : ∀ op, e = .start id op → op.purpose = p) :
    Pursues p id (step draw c e) := by
  cases hturn : e.turn? with
  | some turn =>
    obtain ⟨k, stimulus⟩ := turn
    cases hsession : c.sessions.get? k with
    | none =>
      rw [step_of_turn draw hturn, stimulate, hsession]
      exact h.stay
    | some s =>
      have hturned := turned_step draw hturn hsession
      by_cases hk : id = k
      · subst hk
        refine ⟨fun stage hstage => ?_, fun o ho => absurd ho (hturned.finish id _)⟩
        -- at most the verdict is new, for a call that waits for it
        rcases hturned.stage with hsame | ⟨s', verdict, due, hbefore, hafter, -⟩
        · exact h stage (hsame ▸ hstage)
        · obtain rfl := Option.some.inj (hafter.symm.trans hstage)
          exact (h _ hbefore :)
      · exact h.still (hturned.calls id hk) (hturned.finish id)
  | none =>
    by_cases he : e.caller? = some id
    · exact h.call draw hs he hstart
    · obtain ⟨hcalls, -, hfinish⟩ := (aside_step draw hc hpooled hturn).away id he
      exact h.still hcalls hfinish

end Events

/-- Over every run a call is there for what it was started for, and that is what it returns. -/
theorem Run.purposed {settings : Settings} {now : Nat} {history : History} {c : Client}
    (h : Run settings now history c) {id : CallId} {op : Op}
    (hstart : ∃ r ∈ history, r.event = .start id op) :
    Purposed op.purpose c id ∧ ∀ o, .finish id (.ok o) ∈ trail history → op.purpose.Allows o := by
  induction h with
  | fresh =>
    obtain ⟨r, hr, -⟩ := hstart
    cases hr
  | @next history c e draw hrun hp ih =>
    have hbefore : Purposed op.purpose c id ∧
        (∀ o, .finish id (.ok o) ∈ trail history → op.purpose.Allows o) ∧
        ∀ op', e = .start id op' → op'.purpose = op.purpose := by
      obtain ⟨r, hr, hevent⟩ := hstart
      rcases List.mem_cons.1 hr with rfl | hr
      · -- it starts now, so it is not under way and has not returned
        obtain rfl : e = .start id op := hevent
        have hnew : id ∉ started history := hp.1
        refine ⟨fun stage hs => ?_, fun o ho => ?_, fun op' heq => ?_⟩
        · exact absurd (hrun.keeps.known id (.inl (by simp [hs]))) hnew
        · exact absurd ((hrun.life id).finish _ ho).2.1 hnew
        · obtain ⟨-, rfl⟩ := Event.start.inj heq
          rfl
      · obtain ⟨hstage, hreturns⟩ := ih ⟨r, hr, hevent⟩
        have hmem : id ∈ started history := mem_started.2 ⟨r, hr, _, hevent⟩
        exact ⟨hstage, hreturns, fun op' heq => absurd hmem (heq ▸ hp).1⟩
    have hpursues := hbefore.1.step draw hrun.keeps.coherent hrun.sensible hrun.pooled hbefore.2.2
    refine ⟨hpursues.stage, fun o ho => ?_⟩
    rcases List.mem_append.1 ho with ho | ho
    · exact hbefore.2.1 o ho
    · exact hpursues.returns o ho

end StreamClient.Client
