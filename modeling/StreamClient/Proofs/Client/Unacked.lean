import StreamClient.Proofs.Client.AckDeadline

/-! Publishing without acks: such a publish has no deadline, whatever its options say of one, so that
it ends only with what its dials and calls come to. An ack that comes unasked is handed on. -/

namespace StreamClient.Client

open Link (Advances Job)

/-- How a publish comes to return in an event. -/
inductive Yields (c : Client) (e : Event) (id : CallId) : Except CallError Outcome → Prop
  | closed : Yields c e id (.error .closed)
  | unreached (f : Fault) : f.isUnavailable = true → Yields c e id (published (.error f))
  | undialed (f : Fault) : e = .dialed id (.error f) → Yields c e id (published (.error f))
  | hears (r : Except Fault Reply) : c.hears? id e = some r → Yields c e id (published r)

/-- What holds of a publish that asks for no ack. -/
structure UnackedLaw (history : History) (id : CallId) : Prop where
  calls : ∀ conn q, .call (.caller id) conn q ∈ trail history → q.deadline = none
  undue : ∀ r earlier, r :: earlier <:+ history → ∀ stage,
    r.move.1.calls.get? id = some stage → stage.due? = none
  lapses : ∀ r ∈ history, r.event = .lapse id → r.move = r.before.stay
  /-- It returns that a deadline passed exactly when a dial or a call of it comes to that. -/
  missed : ∀ r ∈ history, ∀ f, .finish id (.error (.deadlineExceeded f)) ∈ r.move.2 ↔
    f.status = .deadlineExceeded ∧ (r.event = .dialed id (.error f) ∨
      (r.before.asked id).isSome ∧ r.event = .answered (.caller id) (.error f))
  /-- It succeeds exactly when a call of it is answered, with the ack that the answer has. -/
  succeeds : ∀ r ∈ history, ∀ o, .finish id (.ok o) ∈ r.move.2 ↔ ∃ reply,
    (r.before.asked id).isSome ∧ r.event = .answered (.caller id) (.ok reply) ∧
      o = .acked reply.ack
  ackless : (∀ o, .finish id (.ok o) ∈ trail history → o = .acked none) ↔
    ∀ r ∈ history, ∀ reply, (r.before.asked id).isSome →
      r.event = .answered (.caller id) (.ok reply) → reply.ack = none

section Unacked

variable {settings : Settings} {now total : Nat} {history : History} {c : Client} {draw : Nat}
  {e : Event} {id : CallId} {op : Op} {o : PublishOptions} {q : Request} {due : Option Nat}
  {j : Job Request} {out : Except CallError Outcome}

theorem PublishOptions.deadline_eq_none (hpolicy : o.ackPolicy = .none) : o.deadline = none := by
  rw [PublishOptions.deadline, hpolicy]

theorem Yields.of_ok {result : Outcome} (h : Yields c e id (.ok result)) :
    ∃ reply, c.hears? id e = some (.ok reply) ∧ result = .acked reply.ack := by
  generalize hout : (Except.ok result : Except CallError Outcome) = out at h
  cases h with
  | closed | unreached | undialed => cases hout
  | hears r hr =>
    cases r with
    | ok reply => exact ⟨reply, hr, Except.ok.inj hout⟩
    | error f => cases hout

theorem Yields.of_missed {f : Fault} (h : Yields c e id (.error (.deadlineExceeded f))) :
    f.status = .deadlineExceeded ∧
      (e = .dialed id (.error f) ∨ c.hears? id e = some (.error f)) := by
  generalize hout : (Except.error (.deadlineExceeded f) : Except CallError Outcome) = out at h
  have hfault {f' : Fault} (hout : .error (.deadlineExceeded f) = published (.error f')) :
      f'.status = .deadlineExceeded ∧ f' = f :=
    CallError.ofPublish_eq_deadlineExceeded.1 (Except.error.inj hout).symm
  cases h with
  | closed => cases hout
  | unreached f' hunavailable =>
    rw [Fault.isUnavailable_iff, (hfault hout).1] at hunavailable
    cases hunavailable
  | undialed f' he =>
    obtain ⟨hstatus, rfl⟩ := hfault hout
    exact ⟨hstatus, .inl he⟩
  | hears r hr =>
    cases r with
    | ok reply => cases hout
    | error f' =>
      obtain ⟨hstatus, rfl⟩ := hfault hout
      exact ⟨hstatus, .inr hr⟩

theorem published_of_advances {dials calls : Nat} {told : Option (Except Fault Reply)}
    {t : Link.Turn Request Reply} (ht : Advances id q dials calls told t)
    (hout : .finish id out ∈ (engage draw c id .publish due t).2) :
    ∃ r, out = published r ∧ (told = some r ∨ ∃ f, r = .error f ∧ f.isUnavailable = true) := by
  have hplain := plain_map_ofOrder t.orders
  cases ht with
  | waiting _ _ _ hr | dialing _ _ _ _ hr | calling _ _ _ _ hr =>
    simp only [engage, follow, hr] at hout
    exact absurd hout (hplain.2 id out)
  | returns r hresult hend =>
    simp only [engage, follow, hend, settle_publish] at hout
    have hlast := (List.mem_append.1 hout).resolve_left (hplain.2 id out)
    obtain ⟨-, rfl⟩ := Effect.finish.inj (List.mem_singleton.1 hlast)
    exact ⟨r, rfl, hresult⟩

theorem yields_of_advances {dials calls : Nat} {told : Option (Except Fault Reply)}
    {t : Link.Turn Request Reply} (ht : Advances id q dials calls told t)
    (htold : ∀ r, told = some r → Yields c e id (published r))
    (hout : .finish id out ∈ (engage draw c id .publish due t).2) : Yields c e id out := by
  obtain ⟨r, rfl, hr | ⟨f, rfl, hf⟩⟩ := published_of_advances ht hout
  · exact htold r hr
  · exact .unreached f hf

theorem yields_submit (hout : .finish id out ∈ (submit draw c id .publish q).2) :
    Yields c e id out :=
  yields_of_advances (Link.submit_advances _ c.link id q) (by simp) hout

theorem yields_start (haim : op.aim = .publishing)
    (hout : .finish id out ∈ (step draw c (.start id op)).2) : Yields c (.start id op) id out := by
  cases begins_start draw c id haim with
  | refused hm =>
    rw [hm] at hout
    obtain ⟨-, rfl⟩ := Effect.finish.inj (List.mem_singleton.1 hout)
    exact .closed
  | submits q _ hm =>
    rw [hm] at hout
    exact yields_submit hout
  | chooses d question _ hm =>
    rw [hm] at hout
    cases List.mem_singleton.1 hout

theorem Corresponds.yields_told {sent : List Letter} {r : Except Fault Reply}
    (h : Corresponds total q sent due j) (hj : c.link.jobs.get? id = some j)
    (hr : (c.asked id).isSome → c.hears? id e = some r) {due' : Option Nat}
    (hout : .finish id out ∈
      (engage draw c id .publish due' (c.link.answered (c.pick draw) id r)).2) :
    Yields c e id out := by
  cases h with
  | waits earlier e' conn t he =>
    have hhears := hr (Option.isSome_iff_exists.2 ⟨_, asked_eq_some.2 ⟨e', conn, hj, rfl⟩⟩)
    refine yields_of_advances (Link.answered_advances _ r hj he) (fun r' hr' => ?_) hout
    exact .hears r' (hhears.trans hr')
  | seeks _ _ e' _ hcalling =>
    -- nobody waits for this answer, and the link ignores it
    rw [Link.answered_idle _ fun e'' conn hj' => hcalling e'' conn
      (Option.some.inj (hj.symm.trans hj'))] at hout
    simp [engage, follow] at hout

theorem Corresponds.yields_resume {sent : List Letter}
    (h : Corresponds total q sent due j) (hj : c.link.jobs.get? id = some j) {due' : Option Nat}
    (hout : .finish id out ∈ (engage draw c id .publish due' (c.link.resume (c.pick draw) id)).2) :
    Yields c e id out := by
  cases h with
  | waits _ _ _ _ _ =>
    rw [Link.resume_idle _ (by simp [hj]) (by simp [hj]) (by simp [hj])] at hout
    simp [engage, follow] at hout
  | seeks _ _ e' herrand hcalling he =>
    have hresumes (hj' : c.link.jobs.get? id = some (.seeking e') ∨
        ∃ conn, c.link.jobs.get? id = some (.retiring e' conn)) : Yields c e id out :=
      yields_of_advances (Link.resume_advances _ hj' he) (by simp) hout
    cases j with
    | seeking e'' =>
      obtain rfl := Option.some.inj herrand
      exact hresumes (.inl hj)
    | retiring e'' conn =>
      obtain rfl := Option.some.inj herrand
      exact hresumes (.inr ⟨conn, hj⟩)
    | dialing e'' =>
      rw [Link.resume_idle _ (by simp [hj]) (by simp [hj]) (by simp [hj])] at hout
      simp [engage, follow] at hout
    | calling e'' conn => exact absurd rfl (hcalling e'' conn)
    | shutting => cases herrand

theorem Corresponds.yields {sent : List Letter} (h : Corresponds total q sent due j)
    (hs : c.calls.get? id = some (.linking .publish due)) (hj : c.link.jobs.get? id = some j)
    (hstart : ∀ op, e ≠ .start id op) (hdialing : ∀ r, e = .dialed id r → c.isDialing id = true)
    (he : e.caller? = some id) (hout : .finish id out ∈ (Client.step draw c e).2) :
    Yields c e id out := by
  cases Event.ofCall he with
  | start op => exact absurd rfl (hstart op)
  | dialed r =>
    obtain ⟨e', hj'⟩ := dialing_of_isDialing hs (hdialing r rfl)
    obtain rfl := Option.some.inj (hj.symm.trans hj')
    cases h with
    | seeks _ _ e'' herrand _ hserves =>
      obtain rfl := Option.some.inj herrand
      simp only [Client.step, dialed, hs] at hout
      refine yields_of_advances (Link.dialed_advances _ r hj hserves) (fun r' hr' => ?_) hout
      cases r with
      | ok conn => cases hr'
      | error f =>
        obtain rfl := Option.some.inj hr'
        exact .undialed f rfl
  | answered r =>
    simp only [Client.step, answered, hs] at hout
    exact h.yields_told hj (fun hasked => by simp [hears?, hasked]) hout
  | chosen partition =>
    simp only [Client.step, chosen, hs] at hout
    cases hout
  | run =>
    simp only [Client.step, Client.run, hs] at hout
    exact h.yields_resume hj hout
  | abandon => exact absurd hout ((plain_abandon c id).2 id out)
  | lapse =>
    rw [Client.step, lapse_eq draw hs] at hout
    cases hm : c.mishap? id (.lapse id) with
    | none =>
      rw [hm] at hout
      cases hout
    | some f =>
      rw [hm] at hout
      have hlast := (List.mem_append.1 hout).resolve_left (by simp)
      exact h.yields_told hj (fun _ => by simp [hears?, hm]) hlast

theorem Run.yields (h : Run settings now history c) (haim : op.aim = .publishing) (draw : Nat)
    (hp : Possible history c e)
    (hop : ∃ r ∈ (⟨c, draw, e⟩ :: history : History), r.event = .start id op)
    (hout : .finish id out ∈ (step draw c e).2) : Yields c e id out := by
  obtain ⟨r, hr, hevent⟩ := hop
  rcases List.mem_cons.1 hr with rfl | hr
  · dsimp only at hevent
    subst hevent
    exact yields_start haim hout
  have hid := mem_started.2 ⟨r, hr, op, hevent⟩
  have hgone (hs : c.calls.get? id = none) : Yields c e id out :=
    absurd hout ((h.gone draw hp hs hid).2 out)
  cases h.posts haim ⟨r, hr, hevent⟩ with
  | refused hs | returned _ _ hs | abandoned hs => exact hgone hs
  | links due q j hs hj _ hcorresponds =>
    have he := h.caller_of_finish draw hs (by simp [Rests]) hout
    exact hcorresponds.yields hs hj (hp.not_start hid) hp.dialing he hout
  | chooses d hs =>
    cases Event.ofCall (h.caller_of_finish draw hs (by simp [Rests]) hout) with
    | start op' => exact absurd rfl (hp.not_start hid op')
    | dialed r =>
      have hdialing := hp.1
      simp [isDialing, hs] at hdialing
    | chosen partition =>
      simp only [step, chosen, hs] at hout
      exact yields_submit hout
    | abandon => exact absurd hout ((plain_abandon c id).2 id out)
    | answered r =>
      simp only [step, answered, hs] at hout
      cases hout
    | run =>
      simp only [step, Client.run, hs] at hout
      cases hout
    | lapse =>
      simp only [step, lapse, hs] at hout
      cases hout

theorem exists_delivered (at' : Nat) (told : Option (Except Fault Reply)) {sent : List Letter}
    {l : Letter} (hl : l ∈ sent) : ∃ l' ∈ delivered at' told sent, l'.request = l.request := by
  unfold delivered
  split
  · next r latest earlier =>
    rcases List.mem_cons.1 hl with rfl | hl
    · exact ⟨_, List.mem_cons_self .., rfl⟩
    · exact ⟨l, List.mem_cons_of_mem _ hl, rfl⟩
  · exact ⟨l, hl, rfl⟩

theorem exists_letter {conn : Conn} (h : .call (.caller id) conn q ∈ trail history) :
    ∃ l ∈ letters history id, l.request = q := by
  induction history with
  | nil => cases h
  | cons r earlier ih =>
    rcases List.mem_append.1 h with h | h
    · obtain ⟨l, hl, rfl⟩ := ih h
      obtain ⟨l', hl', hsame⟩ := exists_delivered r.before.now (r.before.hears? id r.event) hl
      exact ⟨l', List.mem_append_right _ hl', hsame⟩
    · refine ⟨{ conn, request := q, sent := r.before.now }, List.mem_append_left _ ?_, rfl⟩
      rw [posted, List.mem_reverse, List.mem_filterMap]
      exact ⟨_, h, by simp [Effect.letter?]⟩

section Untimed

variable (honly : OnlyStarts history id op) (ho : op.options? = some o) (hd : o.deadline = none)
include honly ho hd

theorem Run.stage_of_untimed (h : Run settings now history c) {stage : Stage}
    (hs : c.calls.get? id = some stage) :
    (∃ d, stage = .choosing d) ∨ stage = .linking .publish none := by
  cases h.posts (aim_of_options ho) (h.start_of_call honly (by simp [hs])) with
  | refused hs' | returned _ _ hs' | abandoned hs' => cases hs'.symm.trans hs
  | chooses d hs' => exact .inl ⟨d, Option.some.inj (hs.symm.trans hs')⟩
  | links due q j hs' _ hq hcorresponds =>
    have hnone : q.deadline = none := (deadline_of_request ho hq).trans hd
    obtain rfl := hcorresponds.due_eq_none hnone
    exact .inr (Option.some.inj (hs.symm.trans hs'))

theorem Run.lapse_of_untimed (h : Run settings now history c) (draw : Nat) :
    step draw c (.lapse id) = c.stay := by
  cases hs : c.calls.get? id with
  | none => simp only [step, lapse, hs]
  | some stage =>
    obtain ⟨d, rfl⟩ | rfl := h.stage_of_untimed honly ho hd hs
    · simp only [step, lapse, hs]
    · simp only [step, lapse, hs]

theorem Run.answered_of_hears (h : Run settings now history c) {r : Except Fault Reply}
    (hr : c.hears? id e = some r) :
    (c.asked id).isSome ∧ e = .answered (.caller id) r := by
  unfold hears? at hr
  split at hr
  · split at hr
    · next hk =>
      obtain ⟨rfl, hasked⟩ := hk
      obtain rfl := Option.some.inj hr
      exact ⟨hasked, rfl⟩
    · cases hr
  · next k =>
    obtain ⟨f, hf, -⟩ := Option.map_eq_some_iff.1 hr
    unfold mishap? at hf
    dsimp only at hf
    split at hf
    · next hs _ =>
      obtain ⟨d, hchoosing⟩ | hlinking := h.stage_of_untimed honly ho hd hs
      · cases hchoosing
      · cases hlinking
    · cases hf
  · cases hr

theorem Run.finish_of_answered (h : Run settings now history c) (draw : Nat)
    (hasked : (c.asked id).isSome) {r : Except Fault Reply} (hr : Link.unreached r = false) :
    .finish id (published r) ∈ (step draw c (.answered (.caller id) r)).2 := by
  obtain ⟨q, hq⟩ := Option.isSome_iff_exists.1 hasked
  obtain ⟨e', conn, hj, -⟩ := asked_eq_some.1 hq
  obtain ⟨goal, due, hs⟩ := h.keeps.coherent.linking_of_job hj (by simp)
  obtain ⟨d, hchoosing⟩ | hlinking := h.stage_of_untimed honly ho hd hs
  · cases hchoosing
  · obtain ⟨rfl, rfl⟩ := Stage.linking.inj hlinking
    simp only [step, answered, hs, engage_of_reached hj draw _ hr]
    exact List.mem_singleton_self _

theorem Run.finish_of_late (h : Run settings now history c) (draw : Nat) {f : Fault}
    (hp : Possible history c (.dialed id (.error f))) (hf : f.status = .deadlineExceeded) :
    ∃ f', .finish id (.error (.deadlineExceeded f')) ∈
      (step draw c (.dialed id (.error f))).2 := by
  obtain ⟨stage, hs⟩ := Option.isSome_iff_exists.1 (isSome_of_isDialing hp.1)
  obtain ⟨d, rfl⟩ | rfl := h.stage_of_untimed honly ho hd hs
  · have hdialing := hp.1
    simp [isDialing, hs] at hdialing
  · exact finish_of_dialsLate ⟨f, none, rfl, hf, hs⟩ hp draw

end Untimed

section Returns

variable (h : Run settings now history c) (hp : Possible history c e)
  (honly : OnlyStarts (⟨c, draw, e⟩ :: history) id op) (ho : op.options? = some o)
  (hd : o.deadline = none)
include h hp honly ho

theorem Run.yields_of_finish (hout : .finish id out ∈ (step draw c e).2) : Yields c e id out := by
  obtain ⟨r, hr, op', hevent⟩ := h.started_of_finish draw hp hout
  exact h.yields (aim_of_options ho) draw hp ⟨r, hr, honly r hr op' hevent ▸ hevent⟩ hout

include hd

theorem Run.finish_ok_iff {result : Outcome} : .finish id (.ok result) ∈ (step draw c e).2 ↔
    ∃ reply, (c.asked id).isSome ∧ e = .answered (.caller id) (.ok reply) ∧
      result = .acked reply.ack := by
  have honly' := honly.of_suffix (List.suffix_cons _ history)
  constructor
  · intro hout
    obtain ⟨reply, hhears, hresult⟩ := (h.yields_of_finish hp honly ho hout).of_ok
    obtain ⟨hasked, he⟩ := h.answered_of_hears honly' ho hd hhears
    exact ⟨reply, hasked, he, hresult⟩
  · rintro ⟨reply, hasked, rfl, rfl⟩
    exact h.finish_of_answered honly' ho hd draw hasked rfl

theorem Run.finish_missed_iff {f : Fault} :
    .finish id (.error (.deadlineExceeded f)) ∈ (step draw c e).2 ↔
      f.status = .deadlineExceeded ∧ (e = .dialed id (.error f) ∨
        (c.asked id).isSome ∧ e = .answered (.caller id) (.error f)) := by
  have honly' := honly.of_suffix (List.suffix_cons _ history)
  have hmissed {f : Fault} (hout : .finish id (.error (.deadlineExceeded f)) ∈ (step draw c e).2) :
      f.status = .deadlineExceeded ∧ (e = .dialed id (.error f) ∨
        (c.asked id).isSome ∧ e = .answered (.caller id) (.error f)) :=
    (h.yields_of_finish hp honly ho hout).of_missed.imp_right fun he =>
      he.imp_right (h.answered_of_hears honly' ho hd)
  refine ⟨hmissed, ?_⟩
  rintro ⟨hstatus, rfl | ⟨hasked, rfl⟩⟩
  · obtain ⟨f', hout⟩ := h.finish_of_late honly' ho hd draw hp hstatus
    -- it is the fault of this very dial
    obtain ⟨-, he | ⟨-, he⟩⟩ := hmissed hout
    · cases he
      exact hout
    · cases he
  · have hreached : Link.unreached (.error f : Except Fault Reply) = false := by
      simp [Link.unreached, Fault.isUnavailable, hstatus]
    have hout := h.finish_of_answered honly' ho hd draw hasked hreached
    rwa [published, CallError.ofPublish_eq_deadlineExceeded.2 ⟨hstatus, rfl⟩] at hout

end Returns

/-- Over every run, whatever dials and calls come to and however long they take: a publish that asks
for no ack has no time that is up, and returns no ack exactly if no broker answers it with one. The
dialer keeps to `Fresh`. -/
theorem Run.unacked_law (h : Run settings now history c)
    (hop : ∃ r ∈ history, r.event = .start id op) (ho : op.options? = some o)
    (hpolicy : o.ackPolicy = .none) : UnackedLaw history id := by
  have hd := PublishOptions.deadline_eq_none hpolicy
  have honly : OnlyStarts history id op := by
    obtain ⟨r, hr, hevent⟩ := hop
    exact fun r' hr' op' hevent' => h.started_once hr hr' hevent hevent'
  have hupto {r : Record} (hr : r ∈ history) : ∃ earlier, Run settings now earlier r.before ∧
      Possible earlier r.before r.event ∧ OnlyStarts (r :: earlier) id op := by
    obtain ⟨later, earlier, rfl⟩ := List.append_of_mem hr
    obtain ⟨hrun, hp⟩ := h.of_suffix ⟨later, rfl⟩
    exact ⟨earlier, hrun, hp, honly.of_suffix ⟨later, rfl⟩⟩
  have hsucceeds : ∀ r ∈ history, ∀ result, .finish id (.ok result) ∈ r.move.2 ↔ ∃ reply,
      (r.before.asked id).isSome ∧ r.event = .answered (.caller id) (.ok reply) ∧
        result = .acked reply.ack := by
    intro r hr result
    obtain ⟨earlier, hrun, hp, honly'⟩ := hupto hr
    exact hrun.finish_ok_iff hp honly' ho hd
  exact {
    calls := fun conn q hq => by
      obtain ⟨l, hl, rfl⟩ := exists_letter hq
      obtain ⟨q, hrequest, hrepeats⟩ :=
        (h.posts (aim_of_options ho) hop).repeats (List.ne_nil_of_mem hl)
      rw [hrepeats.same l hl, deadline_of_request ho hrequest, hd]
    undue := fun r earlier hs stage hstage => by
      obtain ⟨hrun, hp⟩ := h.of_suffix hs
      obtain ⟨d, rfl⟩ | rfl :=
        (hrun.next r.draw hp).stage_of_untimed (honly.of_suffix hs) ho hd hstage
      · rfl
      · rfl
    lapses := fun r hr he => by
      obtain ⟨earlier, hrun, -, honly'⟩ := hupto hr
      rw [Record.move, he]
      exact hrun.lapse_of_untimed (honly'.of_suffix (List.suffix_cons ..)) ho hd r.draw
    missed := fun r hr f => by
      obtain ⟨earlier, hrun, hp, honly'⟩ := hupto hr
      exact hrun.finish_missed_iff hp honly' ho hd
    succeeds := hsucceeds
    ackless := by
      constructor
      · intro hnone r hr reply hasked he
        have hout := (hsucceeds r hr _).2 ⟨reply, hasked, he, rfl⟩
        exact Outcome.acked.inj (hnone _ (mem_trail.2 ⟨r, hr, hout⟩))
      · intro hnone result hout
        obtain ⟨r, hr, hout⟩ := mem_trail.1 hout
        obtain ⟨reply, hasked, he, rfl⟩ := (hsucceeds r hr result).1 hout
        rw [hnone r hr reply hasked he] }

end Unacked

/-- A publish that asks for no ack and has a deadline of a millisecond and a half all the same. Its
first broker is gone, and the second, whose dial takes long, is slow to answer. -/
def unhurried : List (Nat × Event) :=
  [(0, .start 0 .connect), (0, .dialed 0 (.ok 1)), (0, .answered (.caller 0) (.ok {})),
    (0, .start 1 (.publish "s" [1]
      { ackPolicy := .none, partition := some 0, ackDeadline := some ⟨1500000⟩ })),
    (0, .tick 5), (0, .lapse 1), (0, .answered (.caller 1) (.error (.unavailable "gone"))),
    (0, .tick 50), (0, .lapse 1), (0, .dialed 1 (.ok 2)), (0, .tick 90), (0, .lapse 1),
    (0, .answered (.caller 1) (.ok {}))]

theorem unacked_law_unhurried :
    ∃ s, play ([], .fresh { bootstrap := ["a:1"] } 0) unhurried = some s ∧
      UnackedLaw s.1 1 ∧ .finish 1 (.ok (.acked none)) ∈ trail s.1 ∧
      (letters s.1 1).map (fun l => (l.conn, l.sent)) = [(2, 50), (1, 0)] ∧ s.2.now = 90 := by
  have hends : (play ([], .fresh { bootstrap := ["a:1"] } 0) unhurried).map (fun s => decide
      ((∃ r ∈ s.1, r.event = .start 1 (.publish "s" [1]
          { ackPolicy := .none, partition := some 0, ackDeadline := some ⟨1500000⟩ })) ∧
        .finish 1 (.ok (.acked none)) ∈ trail s.1 ∧
        (letters s.1 1).map (fun l => (l.conn, l.sent)) = [(2, 50), (1, 0)] ∧ s.2.now = 90)) =
      some true := by
    decide +kernel
  obtain ⟨s, hs, hrun, hop, hfacts⟩ := exists_run hends
  exact ⟨s, hs, hrun.unacked_law hop rfl rfl, hfacts⟩

/-- An ack that nobody asked for. -/
def unasked : Ack where
  stream := "s"
  partitionSubject := "s"
  messageSubject := "s"
  offset := 0
  ackInbox := ""
  correlationId := ""
  policy := .none

/-- The broker acks a publish that did not ask for it, and the publish returns the ack. -/
theorem unasked_returned :
    ∃ s, play ([], .fresh { bootstrap := ["a:1"] } 0)
        [(0, .start 0 .connect), (0, .dialed 0 (.ok 1)), (0, .answered (.caller 0) (.ok {})),
          (0, .start 1 (.publish "s" [104] { ackPolicy := .none, partition := some 0 })),
          (0, .answered (.caller 1) (.ok { ack := some unasked }))] = some s ∧
      Run { bootstrap := ["a:1"] } 0 s.1 s.2 ∧
      .finish 1 (.ok (.acked (some unasked))) ∈ trail s.1 ∧
      ¬ ∀ o, .finish 1 (.ok o) ∈ trail s.1 → o = .acked none := by
  have hends : (play ([], .fresh { bootstrap := ["a:1"] } 0)
      [(0, .start 0 .connect), (0, .dialed 0 (.ok 1)), (0, .answered (.caller 0) (.ok {})),
        (0, .start 1 (.publish "s" [104] { ackPolicy := .none, partition := some 0 })),
        (0, .answered (.caller 1) (.ok { ack := some unasked }))]).map (fun s => decide
          (.finish 1 (.ok (.acked (some unasked))) ∈ trail s.1)) = some true := by
    decide +kernel
  obtain ⟨s, hs, hrun, hfinish⟩ := exists_run hends
  refine ⟨s, hs, hrun, hfinish, fun hnone => ?_⟩
  cases hnone _ hfinish

end StreamClient.Client
