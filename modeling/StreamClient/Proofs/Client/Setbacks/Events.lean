import StreamClient.Proofs.Client.Setbacks.Moves

/-! How calls fare in the events of a run: each knows what went wrong for it. -/

namespace StreamClient.Client

open Link (Job)

section Events

variable {settings : Settings} {op : Op} {draw : Nat} {c : Client} {e : Event} {id : CallId}
  {faults : List Fault} {a : Address}

theorem fares_start (hnew : c.calls.get? id = none) (hpick : c.pick draw = some a)
    (hsettings : c.settings = settings) (hattempts : c.link.attempts = max settings.attempts 1)
    (op : Op) : Fares settings op [] c id (start draw c id op) := by
  have hgoal : c.goal? id = none := by simp [goal?, hnew]
  have hrefused {e : CallError} (he : e.fault? = none) :
      Fares settings op [] c id (c.finish id (.error e)) :=
    fares_finish c fun e' heq => by rw [← Except.error.inj heq, he]
  unfold start
  split
  · exact hrefused rfl
  · cases op with
    | connect =>
      simp only [openCall, connect]
      split
      · exact hrefused rfl
      · next hne =>
        have hlength := length_shuffle draw c.settings.bootstrap
        cases hs : shuffle draw c.settings.bootstrap with
        | nil =>
          rw [hs, List.length_nil] at hlength
          exact absurd (List.isEmpty_iff.2 (List.length_eq_zero_iff.1 hlength.symm)) hne
        | cons b rest =>
          rw [hs, List.length_cons, hsettings] at hlength
          exact {
            bears := {
              suits := fun stage h => by
                obtain rfl : Stage.probing rest = stage := by simpa [probe] using h
                rfl
              probes := fun rest' h => by
                obtain rfl : rest = rest' := by simpa [probe] using h
                simpa using hlength
              linked := fun goal due h => by simp [probe] at h }
            fails := fun e he => by simp [probe] at he }
    | createStream name o =>
      simp only [openCall]
      split
      · next e he => exact hrefused (CreateOptions.fault?_of_creation he)
      · exact fares_submit (.create name) c ⟨o, rfl⟩ hgoal hpick hattempts _
    | deleteStream name => exact fares_submit (.delete name) c rfl hgoal hpick hattempts _
    | publish stream value o =>
      have hsuits : Goal.publish.Suits (.publish stream value o) := rfl
      simp only [openCall]
      split
      · exact fares_submit .publish c hsuits hgoal hpick hattempts _
      · exact fares_put (.choosing _) rfl (by simp) (by simp) ⟨fun _ => rfl, by simp⟩
    | publishToSubject subject value o =>
      have hsuits : Goal.publish.Suits (.publishToSubject subject value o) := rfl
      exact fares_submit .publish c hsuits hgoal hpick hattempts _
    | subscribe stream o => exact fares_lookup (s := o.subscription stream) rfl c _
    | fetchMetadata => exact fares_submit .fetch c rfl hgoal hpick hattempts _
    | close =>
      simp only [openCall, close]
      split
      · exact fares_finish c (by simp)
      · have hclose : Fares settings .close [] c id (closeLink
            (closePools { c with closed := true }).1 id (c.link.shut id)) := by
          rw [closeLink]
          split
          · exact fares_put .closing rfl (by simp) (by simp) (plain_map_ofOrder _)
          · exact (fares_finish _ (by simp)).after (plain_map_ofOrder _)
        exact hclose.after (plain_flatMap_close c.pools.values fun p => p.close.2)

theorem Bears.dispatch {goal : Goal} {due : Option Nat} (h : Bears settings op faults c id)
    (hs : c.calls.get? id = some (.linking goal due)) (hpick : c.pick draw = some a)
    (hattempts : c.link.attempts = max settings.attempts 1) (hstart : ∀ op, e ≠ .start id op)
    (hdialing : ∀ r, e = .dialed id r → c.isDialing id = true) (he : e.caller? = some id) :
    Fares settings op ((c.mishap? id e).toList ++ faults) c id (step draw c e) := by
  obtain ⟨j, hj, hb⟩ := h.linked goal due hs
  have hgoal : c.goal? id = some goal := by simp [goal?, hs, Stage.goal?]
  cases dispatches_step hpick hs hj hb (by omega) hstart hdialing he with
  | stays hmishap hm =>
    rw [hm]
    exact h.stay hmishap
  | abandons he' hm =>
    rw [hm]
    exact fares_of_off (by simp [calls_abandon]) fun e he =>
      absurd he ((plain_abandon c id).2 id _)
  | turns due' t before ht hattempts' _ hplain hm =>
    rw [hm]
    refine (fares_engage (h.suits _ hs) ?_ hpick (hattempts'.trans hattempts) ?_).after hplain
    · rw [hgoal]
      exact (eq_or_ne goal .created).imp_right fun hne heq => hne (Option.some.inj heq)
    · rw [counted, if_pos hgoal]
      exact ht

theorem Bears.dialed (h : Bears settings op faults c id) (hpick : c.pick draw = some a)
    (hattempts : c.link.attempts = max settings.attempts 1) (hd : c.isDialing id = true)
    (r : Except Fault Conn) : Fares settings op ((c.mishap? id (.dialed id r)).toList ++ faults) c id
      (step draw c (.dialed id r)) := by
  cases hs : c.calls.get? id with
  | none => simp [isDialing, hs] at hd
  | some stage =>
    cases stage with
    | linking goal due =>
      exact h.dispatch hs hpick hattempts (by simp) (fun _ _ => hd) rfl
    | probing rest =>
      obtain rfl : op = .connect := h.suits _ hs
      have hgoal : c.goal? id = none := by simp [goal?, hs, Stage.goal?]
      have hrest := h.probes rest hs
      cases r with
      | ok conn =>
        simp only [step, Client.dialed, hs]
        exact fares_submit .connect { c with link := { c.link with cached := some conn } } rfl hgoal
          hpick hattempts _
      | error f =>
        have hmishap : c.mishap? id (.dialed id (.error f)) = some f := by simp [mishap?]
        have hfailure : Op.connect.failure false f = .rpc f := by simp only [Op.failure]
        simp only [step, Client.dialed, hs, hmishap]
        cases rest with
        | nil =>
          rw [probe, Option.getD_some, ← hfailure]
          exact fares_failure c rfl fun _ goal due hs' => by simp [hs] at hs'
        | cons b rest =>
          exact {
            bears := {
              suits := fun stage hs' => by
                obtain rfl : Stage.probing rest = stage := by simpa [probe] using hs'
                rfl
              probes := fun rest' hs' => by
                obtain rfl : rest = rest' := by simpa [probe] using hs'
                have hgoal' : (c.probe id (some f) (b :: rest)).1.goal? id = none := by
                  simp [goal?, probe, Stage.goal?]
                rw [if_pos (hgoal.trans hgoal'.symm)]
                simp only [Option.toList_some, List.singleton_append, List.length_cons] at hrest ⊢
                omega
              linked := fun goal due hs' => by simp [probe] at hs' }
            fails := fun e he => by simp [probe] at he }
    | joining s b =>
      have hsuits : op.aim = .subscribing s := h.suits _ hs
      cases r with
      | ok conn =>
        simp only [step, Client.dialed, hs]
        exact fares_launch hsuits c b conn
      | error f =>
        have hmishap : c.mishap? id (.dialed id (.error f)) = some f := by simp [mishap?]
        simp only [step, Client.dialed, hs, hmishap]
        rw [← failure_of_subscribing hsuits]
        exact fares_failure c rfl fun _ goal due hs' => by simp [hs] at hs'
    | _ => simp [isDialing, hs] at hd

theorem asked_eq_none (hc : c.Coherent)
    (hs : ∀ goal due, c.calls.get? id ≠ some (.linking goal due)) : c.asked id = none := by
  refine Option.eq_none_iff_forall_ne_some.2 fun q hq => ?_
  obtain ⟨e', conn, hj, -⟩ := asked_eq_some.1 hq
  obtain ⟨goal, due, hs'⟩ := hc.linking_of_job hj (by simp)
  exact hs goal due hs'

theorem Bears.lapse (h : Bears settings op faults c id) (hpick : c.pick draw = some a)
    (hattempts : c.link.attempts = max settings.attempts 1)
    (hs : ∀ goal due, c.calls.get? id ≠ some (.linking goal due)) :
    Fares settings op ((c.mishap? id (.lapse id)).toList ++ faults) c id
      (step draw c (.lapse id)) := by
  have hmishap : c.mishap? id (.lapse id) = none := by
    simp only [mishap?]
    split
    · next goal due d hs' _ => exact absurd hs' (hs goal _)
    · rfl
  have hheard {s : Subscription} {v : Option (Except Fault Unit)} {due : Option Nat}
      (hs : c.calls.get? id = some (.greeting s v due)) {m : Move}
      (hm : m.1.calls.get? id = none) :
      Fares settings op ((c.mishap? id (.lapse id)).toList ++ faults) c id m := {
    bears := ⟨by simp [hm], by simp [hm], by simp [hm]⟩
    fails := fun e _ hunheard => by simp [isHeard, hs] at hunheard }
  simp only [step, Client.lapse]
  split
  · next goal due hs' => exact absurd hs' (hs goal _)
  · next s left due hs' =>
    split
    · exact fares_submit (.resolve s left) c (h.suits _ hs') (by simp [goal?, hs', Stage.goal?])
        hpick hattempts _
    · exact h.stay hmishap
  · next s verdict due hs' => exact hheard hs' (by simp [greeted])
  · next s due hs' =>
    split
    · split
      · exact hheard hs' (by simp [greeted, Move.after])
      · exact h.stay hmishap
    · exact h.stay hmishap
  · exact h.stay hmishap

theorem Bears.run (h : Bears settings op faults c id)
    (hs : ∀ goal due, c.calls.get? id ≠ some (.linking goal due)) :
    Fares settings op ((c.mishap? id (.run (.caller id))).toList ++ faults) c id
      (step draw c (.run (.caller id))) := by
  simp only [step, Client.run]
  split
  · next goal due hs' => exact absurd hs' (hs goal due)
  · next hs' =>
    have hop : op = .close := h.suits _ hs'
    rw [closeLink]
    split
    · exact fares_put .closing hop (by simp) (by simp) (plain_map_ofOrder _)
    · exact (fares_finish _ (by simp)).after (plain_map_ofOrder _)
  · next s verdict due hs' => exact {
      bears := ⟨by simp [greeted], by simp [greeted], by simp [greeted]⟩
      fails := fun e _ hunheard => by simp [isHeard, hs'] at hunheard }
  · exact h.stay rfl

theorem Bears.off (h : Bears settings op faults c id) (hc : c.Coherent) (hpick : c.pick draw = some a)
    (hattempts : c.link.attempts = max settings.attempts 1)
    (hs : ∀ goal due, c.calls.get? id ≠ some (.linking goal due)) (hstart : ∀ op, e ≠ .start id op)
    (hdialed : ∀ r, e ≠ .dialed id r) (he : e.caller? = some id) :
    Fares settings op ((c.mishap? id e).toList ++ faults) c id (step draw c e) := by
  cases Event.ofCall he with
  | start op => exact absurd rfl (hstart op)
  | dialed r => exact absurd rfl (hdialed r)
  | answered r =>
    have hmishap : c.mishap? id (.answered (.caller id) r) = none := by
      cases r <;> simp [mishap?, asked_eq_none hc hs]
    simp only [step, answered]
    exact h.stay hmishap
  | chosen partition =>
    simp only [step, chosen]
    split
    · next d hs' =>
      exact fares_submit .publish c (h.suits _ hs') (by simp [goal?, hs', Stage.goal?]) hpick
        hattempts _
    · exact h.stay rfl
  | run => exact h.run hs
  | abandon =>
    exact fares_of_off (by simp [step, calls_abandon]) fun e he =>
      absurd he ((plain_abandon c id).2 id _)
  | lapse => exact h.lapse hpick hattempts hs

theorem caller?_of_mishap {f : Fault} (h : c.mishap? id e = some f) : e.caller? = some id := by
  unfold mishap? at h
  split at h
  · split at h <;> cases h
    next hk => rw [Event.caller?, hk]
  · split at h <;> cases h
    next hk => rw [Event.caller?, hk.1]
  · split at h
    · split at h <;> cases h
      next hk => rw [Event.caller?, hk.1]
    · cases h
  · cases h

theorem Bears.turn (h : Bears settings op faults c id) (draw : Nat) {k : CallId}
    {stimulus : Session.Stimulus} (hturn : e.turn? = some (k, stimulus)) :
    Fares settings op ((c.mishap? id e).toList ++ faults) c id (step draw c e) := by
  have hmishap : c.mishap? id e = none := by
    refine Option.eq_none_iff_forall_ne_some.2 fun f hf => ?_
    have hcaller := caller?_of_mishap hf
    unfold Event.turn? at hturn
    split at hturn <;> cases hturn <;> cases hcaller
  cases hs : c.sessions.get? k with
  | none =>
    rw [step_of_turn draw hturn, stimulate, hs]
    exact h.stay hmishap
  | some s =>
    have hturned := turned_step draw hturn hs
    refine h.still hmishap (fun stage hstage => ?_) ?_ (hturned.finish id)
    · by_cases hk : id = k
      · subst hk
        rcases hturned.stage with hsame | ⟨s', verdict, due, hbefore, hafter, -⟩
        · exact .inl (hsame ▸ hstage)
        · obtain rfl := Option.some.inj (hafter.symm.trans hstage)
          exact .inr ⟨s', _, due, none, rfl, hbefore⟩
      · exact .inl (hturned.calls id hk ▸ hstage)
    · rw [step_of_turn draw hturn, link_stimulate]

theorem Bears.step (h : Bears settings op faults c id) (hc : c.Coherent) (hpooled : c.Pooled)
    (hpick : c.pick draw = some a) (hattempts : c.link.attempts = max settings.attempts 1)
    (hdialing : ∀ r, e = .dialed id r → c.isDialing id = true) (hstart : ∀ op, e ≠ .start id op) :
    Fares settings op ((c.mishap? id e).toList ++ faults) c id (step draw c e) := by
  cases hturn : e.turn? with
  | some turn => exact h.turn draw hturn
  | none =>
    by_cases he : e.caller? = some id
    · by_cases hs : ∃ goal due, c.calls.get? id = some (.linking goal due)
      · obtain ⟨goal, due, hs⟩ := hs
        exact h.dispatch hs hpick hattempts hstart hdialing he
      · by_cases hdialed : ∃ r, e = .dialed id r
        · obtain ⟨r, rfl⟩ := hdialed
          exact h.dialed hpick hattempts (hdialing r rfl) r
        · exact h.off hc hpick hattempts (fun goal due hs' => hs ⟨goal, due, hs'⟩) hstart
            (fun r hr => hdialed ⟨r, hr⟩) he
    · -- an event of another call, or of none
      obtain ⟨hcalls, hjobs, hfinish⟩ := (aside_step draw hc hpooled hturn).away id he
      have hmishap : c.mishap? id e = none :=
        Option.eq_none_iff_forall_ne_some.2 fun f hf => he (caller?_of_mishap hf)
      exact h.still hmishap (fun _ hs => .inl (hcalls ▸ hs)) hjobs hfinish

end Events

section Run

variable {settings : Settings} {now : Nat} {history : History} {c : Client} {draw : Nat} {e : Event}
  {op : Op} {id : CallId}

theorem Keeps.mishap_of_off (h : Keeps history c) (hp : Possible history c e)
    (hs : ∀ goal due, c.calls.get? id ≠ some (.linking goal due)) (hdialing : c.isDialing id = false) :
    c.mishap? id e = none := by
  have hasked : c.asked id = none := asked_eq_none h.coherent hs
  unfold mishap?
  split
  · next k f =>
    refine if_neg ?_
    rintro rfl
    cases hdialing.symm.trans hp.1
  · simp [hasked]
  · split
    · next goal due d hs' _ => exact absurd hs' (hs goal _)
    · rfl
  · rfl

theorem Keeps.mishap_of_new (h : Keeps history c) (hnew : id ∉ started history)
    (hp : Possible history c e) : c.mishap? id e = none := by
  have hcall := h.call_of_new hnew
  exact h.mishap_of_off hp (by simp [hcall]) (by simp [isDialing, hcall])

theorem Run.setbacks_of_new (h : Run settings now history c) (hnew : id ∉ started history) :
    setbacks history id = [] := by
  refine h.until_start (P := fun history => setbacks history id = []) hnew rfl ?_
  intro earlier before e draw hrun hp hnew' ih
  rw [setbacks, hrun.keeps.mishap_of_new (mt mem_started_cons hnew') hp, ih]
  simp

theorem Run.fares_or (h : Run settings now history c) (hb : settings.bootstrap ≠ [])
    (hbears : (∃ r ∈ history, r.event = .start id op) →
      c.Bears settings op (setbacks history id) id) (draw : Nat) (hp : Possible history c e)
    (hop : ∃ r ∈ (⟨c, draw, e⟩ :: history : History), r.event = .start id op) :
    Fares settings op ((c.mishap? id e).toList ++ setbacks history id) c id (step draw c e) := by
  obtain ⟨a, hpick⟩ := h.exists_pick hb draw
  obtain ⟨r, hr, hevent⟩ := hop
  rcases List.mem_cons.1 hr with rfl | hr
  · dsimp only at hevent
    subst hevent
    have hnew := hp.1
    rw [h.keeps.mishap_of_new hnew hp, h.setbacks_of_new hnew]
    have hadmits := h.keeps.admits hp
    exact fares_start hadmits.1 hpick h.settings_eq h.attempts_eq op
  · have hknown : id ∈ started history := mem_started.2 ⟨r, hr, _, hevent⟩
    exact (hbears ⟨r, hr, hevent⟩).step h.keeps.coherent h.pooled hpick h.attempts_eq hp.dialing
      (hp.not_start hknown)

theorem setbacks_cons (c : Client) (draw : Nat) (e : Event) (history : History) (id : CallId) :
    setbacks (⟨c, draw, e⟩ :: history) id = if c.goal? id = (step draw c e).1.goal? id then
      (c.mishap? id e).toList ++ setbacks history id else [] := rfl

theorem Run.bears (h : Run settings now history c) (hb : settings.bootstrap ≠ [])
    (hop : ∃ r ∈ history, r.event = .start id op) :
    c.Bears settings op (setbacks history id) id := by
  induction h with
  | fresh =>
    obtain ⟨r, hr, -⟩ := hop
    cases hr
  | next draw hrun hp ih =>
    rw [setbacks_cons]
    exact (hrun.fares_or hb ih draw hp hop).bears

theorem Run.setbacks_of_close (h : Run settings now history c) (hb : settings.bootstrap ≠ [])
    (hop : ∃ r ∈ history, r.event = .start id .close) : setbacks history id = [] := by
  obtain ⟨r, hr, hevent⟩ := hop
  refine h.since_start (P := fun history _ => setbacks history id = []) hr hevent ?_ ?_
  · intro earlier hrun hp
    rw [setbacks_cons, hrun.setbacks_of_new hp.1]
    simp [mishap?]
  · intro earlier before e draw hrun hp hr _ ih
    have hclosing : ∀ stage, before.calls.get? id = some stage → stage = .closing :=
      fun stage hs => ((hrun.bears hb ⟨r, hr, hevent⟩).suits stage hs).eq_closing
    have hdialing : before.isDialing id = false := by
      cases hs : before.calls.get? id with
      | none => simp [isDialing, hs]
      | some stage => simp [isDialing, hs, hclosing stage hs]
    have hmishap : before.mishap? id e = none :=
      hrun.keeps.mishap_of_off hp (fun goal due hs => by cases hclosing _ hs) hdialing
    rw [setbacks_cons, hmishap, ih]
    simp

theorem Run.fares (h : Run settings now history c) (hb : settings.bootstrap ≠ []) (draw : Nat)
    (hp : Possible history c e)
    (hop : ∃ r ∈ (⟨c, draw, e⟩ :: history : History), r.event = .start id op) :
    Fares settings op ((c.mishap? id e).toList ++ setbacks history id) c id (step draw c e) :=
  h.fares_or hb (h.bears hb) draw hp hop

end Run

end StreamClient.Client
