import StreamClient.Proofs.Client.Publication
import StreamClient.Proofs.Link.Sole

/-! A publish with no other call under way: nobody else is on the link. -/

namespace StreamClient.Client

/-- The call `id` starts while no other is under way, and no other starts while it is. -/
def Record.isSolo (id : CallId) (r : Record) : Bool :=
  match r.event with
  | .start k _ => if k = id then r.before.calls.keys.isEmpty else (r.before.calls.get? id).isNone
  | _ => true

def Solo (history : History) (id : CallId) : Prop := ∀ r ∈ history, r.isSolo id = true

/-- No other call is under way, and the link is left to `id`. -/
structure Unshared (c : Client) (id : CallId) : Prop where
  others : ∀ k, k ≠ id → c.calls.get? k = none
  sole : Link.Sole id c.link

section Sole

variable {settings : Settings} {now : Nat} {history : History} {c : Client} {draw : Nat}
  {e : Event} {id : CallId} {op : Op}

theorem Solo.of_cons {r : Record} (h : Solo (r :: history) id) : Solo history id :=
  fun r' hr' => h r' (List.mem_cons_of_mem _ hr')

theorem calls_of_keys (h : c.calls.keys.isEmpty = true) (k : CallId) : c.calls.get? k = none := by
  rw [← Option.not_isSome_iff_eq_none, ← Table.mem_keys_iff, List.isEmpty_iff.1 h]
  exact List.not_mem_nil

structure Still (c c' : Client) : Prop where
  link : c'.link = c.link
  snapshot : c'.snapshot = c.snapshot
  closed : c'.closed = c.closed

theorem still_refl (c : Client) : Still c c := ⟨rfl, rfl, rfl⟩

theorem still_of_gone (draw : Nat) {k : CallId} (hk : c.calls.get? k = none)
    (he : e.caller? = some k) (hstart : ∀ op, e ≠ .start k op) : Still c (step draw c e).1 := by
  have hstays (hm : step draw c e = c.stay) : Still c (step draw c e).1 := by
    rw [hm]
    exact still_refl c
  cases Event.ofCall he with
  | start op => exact absurd rfl (hstart op)
  | dialed r => exact hstays (by simp only [step, dialed, hk])
  | answered r => exact hstays (by simp only [step, answered, hk])
  | chosen partition => exact hstays (by simp only [step, chosen, hk])
  | run => exact hstays (by simp only [step, Client.run, hk])
  | lapse => exact hstays (by simp only [step, lapse, hk])
  | abandon =>
    simp only [step, abandon, hk]
    exact ⟨rfl, rfl, rfl⟩

theorem still_of_nobody (draw : Nat) (he : e.caller? = none) : Still c (step draw c e).1 := by
  cases hturn : e.turn? with
  | some turn =>
    obtain ⟨calls, sessions, pools, hframe⟩ := stimulate_frame c turn.1 turn.2
    rw [step_of_turn draw hturn, hframe]
    exact ⟨rfl, rfl, rfl⟩
  | none =>
    cases e with
    | unsubscribe id =>
      obtain ⟨⟨sessions, hframe⟩, -⟩ := unsubscribe_frame c id
      rw [step, hframe]
      exact ⟨rfl, rfl, rfl⟩
    | tick now | expire => exact ⟨rfl, rfl, rfl⟩
    | answered who r | run who =>
      cases who with
      | caller k => cases he
      | session k => cases hturn
    | item id i | ended id => cases hturn
    | start id op | dialed id r | chosen id partition | abandon id | lapse id => cases he

theorem still_of_idle (draw : Nat) (hidle : ∀ k, e.caller? = some k → c.calls.get? k = none)
    (hstart : ∀ k op, e ≠ .start k op) : Still c (step draw c e).1 := by
  cases hcaller : e.caller? with
  | none => exact still_of_nobody draw hcaller
  | some k => exact still_of_gone draw (hidle k hcaller) hcaller (hstart k)

theorem Run.calls_of_gone (h : Run settings now history c) (draw : Nat) (hp : Possible history c e)
    {k : CallId} (hk : c.calls.get? k = none) (hstart : ∀ op, e ≠ .start k op) :
    (step draw c e).1.calls.get? k = none := by
  by_cases hid : k ∈ started history
  · exact (h.gone draw hp hk hid).1
  · refine (h.next draw hp).keeps.call_of_new fun hid' => hid ?_
    obtain ⟨r, hr, op, hevent⟩ := mem_started.1 hid'
    rcases List.mem_cons.1 hr with rfl | hr
    · exact absurd hevent (hstart op)
    · exact mem_started.2 ⟨r, hr, op, hevent⟩

theorem Unshared.away (h : Unshared c id) (hrun : Run settings now history c) (draw : Nat)
    (hp : Possible history c e) (hstart : ∀ k op, e ≠ .start k op) (he : e.caller? ≠ some id) :
    Unshared (step draw c e).1 id where
  others k hk := hrun.calls_of_gone draw hp (h.others k hk) (hstart k)
  sole := by
    have hstill : Still c (step draw c e).1 := by
      refine still_of_idle draw (fun k hk => h.others k ?_) hstart
      rintro rfl
      exact he hk
    rw [hstill.link]
    exact h.sole

theorem lapse_eq (draw : Nat) {goal : Goal} {due : Option Nat}
    (hs : c.calls.get? id = some (.linking goal due)) :
    lapse draw c id = match c.mishap? id (.lapse id) with
      | some f => (engage draw c id goal none
          (c.link.answered (c.pick draw) id (.error f))).after [.withdraw (.caller id)]
      | none => c.stay := by
  cases due with
  | none => simp [lapse, mishap?, hs]
  | some due =>
    cases hd : (c.asked id).bind Request.deadline with
    | none => simp [lapse, mishap?, hs, hd]
    | some d => by_cases hdue : due ≤ c.now <;> simp [lapse, mishap?, hs, hd, hdue]

/-- A call with this goal is over when the link is done with it. -/
def Goal.IsLast (goal : Goal) : Prop :=
  ∀ draw (c : Client) id r, (settle draw c id goal r).1.calls.get? id = none

theorem isLast_publish : Goal.publish.IsLast := by
  intro draw c id r
  simp [settle_publish]

theorem isLast_connect : Goal.connect.IsLast := by
  intro draw c id r
  cases r <;> simp [settle]

theorem unshared_engage {goal : Goal} (hgoal : goal.IsLast)
    (hothers : ∀ k, k ≠ id → c.calls.get? k = none) (due : Option Nat)
    {t : Link.Turn Request Reply} (ht : Link.SoleTurn id t)
    (hs : ((engage draw c id goal due t).1.calls.get? id).isSome) :
    Unshared (engage draw c id goal due t).1 id ∧
      (engage draw c id goal due t).1.snapshot = c.snapshot := by
  unfold engage follow at hs ⊢
  cases hend : t.ending with
  | none =>
    exact ⟨⟨fun k hk => by simp [hk, hothers k hk], ht.sole⟩, rfl⟩
  | some ending =>
    cases ending with
    | reply r =>
      have hover := hgoal draw { c with link := t.link } id r
      simp [hend, Move.after, hover] at hs
    | shut => simp [hend, Move.after] at hs

theorem Unshared.linked (h : Unshared c id) (draw : Nat) {goal : Goal} {due : Option Nat}
    (hgoal : goal.IsLast) (hlinks : c.calls.get? id = some (.linking goal due))
    (hstart : ∀ op, e ≠ .start id op) (he : e.caller? = some id)
    (hs : ((Client.step draw c e).1.calls.get? id).isSome) :
    Unshared (Client.step draw c e).1 id ∧ (Client.step draw c e).1.snapshot = c.snapshot := by
  have hstays (hm : Client.step draw c e = c.stay) :
      Unshared (Client.step draw c e).1 id ∧ (Client.step draw c e).1.snapshot = c.snapshot := by
    rw [hm]
    exact ⟨h, rfl⟩
  cases Event.ofCall he with
  | start op => exact absurd rfl (hstart op)
  | dialed r =>
    simp only [Client.step, dialed, hlinks] at hs ⊢
    exact unshared_engage hgoal h.others due (Link.dialed_sole _ h.sole r) hs
  | answered r =>
    simp only [Client.step, answered, hlinks] at hs ⊢
    exact unshared_engage hgoal h.others due (Link.answered_sole _ h.sole r) hs
  | chosen partition => exact hstays (by simp only [Client.step, Client.chosen, hlinks])
  | run =>
    simp only [Client.step, Client.run, hlinks] at hs ⊢
    exact unshared_engage hgoal h.others due (Link.resume_sole _ h.sole) hs
  | abandon => simp [Client.step, calls_abandon] at hs
  | lapse =>
    have hlapse := lapse_eq draw hlinks
    cases hm : c.mishap? id (.lapse id) with
    | none =>
      rw [hm] at hlapse
      exact hstays hlapse
    | some f =>
      rw [hm] at hlapse
      rw [Client.step, hlapse] at hs ⊢
      exact unshared_engage hgoal h.others none (Link.answered_sole _ h.sole (.error f)) hs

theorem Unshared.step (h : Unshared c id) (hc : c.Coherent) (draw : Nat)
    (hstage : (∃ d, c.calls.get? id = some (.choosing d)) ∨
      ∃ due, c.calls.get? id = some (.linking .publish due))
    (hstart : ∀ op, e ≠ .start id op) (he : e.caller? = some id)
    (hs : ((Client.step draw c e).1.calls.get? id).isSome) :
    Unshared (Client.step draw c e).1 id := by
  rcases hstage with ⟨d, hchoosing⟩ | ⟨due, hlinks⟩
  · have hstays (hm : Client.step draw c e = c.stay) : Unshared (Client.step draw c e).1 id := by
      rw [hm]
      exact h
    have hj : c.link.jobs.get? id = none := by
      have hfits := hc.fits id
      rwa [hchoosing] at hfits
    cases Event.ofCall he with
    | start op => exact absurd rfl (hstart op)
    | dialed r => exact hstays (by simp only [Client.step, dialed, hchoosing])
    | answered r => exact hstays (by simp only [Client.step, answered, hchoosing])
    | run => exact hstays (by simp only [Client.step, Client.run, hchoosing])
    | lapse => exact hstays (by simp only [Client.step, lapse, hchoosing])
    | abandon => simp [Client.step, calls_abandon] at hs
    | chosen partition =>
      simp only [Client.step, Client.chosen, hchoosing] at hs ⊢
      exact (unshared_engage isLast_publish h.others none
        (Link.submit_sole _ _ (h.sole.lock_of_off hj)) hs).1
  · exact (h.linked draw isLast_publish hlinks hstart he hs).1

theorem Posts.stage {total : Nat} (h : Posts total history c id op)
    (hs : (c.calls.get? id).isSome) : (∃ d, c.calls.get? id = some (.choosing d)) ∨
      ∃ due, c.calls.get? id = some (.linking .publish due) := by
  cases h with
  | chooses d hs' => exact .inl ⟨d, hs'⟩
  | links due q j hs' => exact .inr ⟨due, hs'⟩
  | refused hnone | returned q r hnone | abandoned hnone => simp [hnone] at hs

theorem Run.unshared_start (h : Run settings now history c) (haim : op.aim = .publishing)
    (draw : Nat) (hcalls : ∀ k, c.calls.get? k = none)
    (hs : ((step draw c (.start id op)).1.calls.get? id).isSome) :
    Unshared (step draw c (.start id op)).1 id := by
  have hlock := h.unlocked hcalls
  cases begins_start draw c id haim with
  | refused hm => simp [hm] at hs
  | submits q _ hm =>
    rw [hm] at hs ⊢
    exact (unshared_engage isLast_publish (fun k _ => hcalls k) none
      (Link.submit_sole _ q hlock) hs).1
  | chooses d question _ hm =>
    have hfits := h.keeps.coherent.fits id
    rw [hcalls id] at hfits
    rw [hm]
    exact ⟨fun k hk => by simp [hk, hcalls k], .off hfits hlock⟩

theorem Run.unshared (h : Run settings now history c) (hsolo : Solo history id)
    (haim : op.aim = .publishing) (hop : ∃ r ∈ history, r.event = .start id op)
    (hs : (c.calls.get? id).isSome) : Unshared c id := by
  obtain ⟨r, hr, hevent⟩ := hop
  revert hsolo hs
  refine h.since_start
    (P := fun history c => Solo history id → (c.calls.get? id).isSome → Unshared c id) hr hevent ?_ ?_
  · intro earlier hrun hp hsolo hs
    have hfirst := hsolo _ (List.mem_cons_self ..)
    exact hrun.unshared_start haim r.draw
      (calls_of_keys (by simpa [Record.isSolo] using hfirst)) hs
  · intro earlier before e draw hrun hp hr hid ih hsolo hs
    have hfirst := hsolo _ (List.mem_cons_self ..)
    have hstart := hp.not_start hid
    have hunder := hrun.under_way draw hp hid (.inl hs)
    have hunshared := ih hsolo.of_cons hunder
    by_cases he : e.caller? = some id
    · exact hunshared.step hrun.keeps.coherent draw
        ((hrun.posts haim ⟨r, hr, hevent⟩).stage hunder) hstart he hs
    · refine hunshared.away hrun draw hp (fun k op hk => ?_) he
      subst hk
      have hk : k ≠ id := fun hk => he (congrArg some hk)
      simp [Record.isSolo, hk, Option.isSome_iff_ne_none.1 hunder] at hfirst

end Sole

end StreamClient.Client
