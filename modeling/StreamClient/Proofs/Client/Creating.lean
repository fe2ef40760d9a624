import StreamClient.Proofs.Client.Publication

/-! How a call creates a stream: it asks for the stream until a broker answers, and then for the
metadata, with attempts of their own, and what comes of these is nothing to its result. -/

namespace StreamClient.Client

open Link (Job)

/-- The call `id` turns to the metadata in an event. -/
def Record.renews (id : CallId) (r : Record) : Bool :=
  decide (r.before.goal? id ≠ some .created ∧ r.move.1.goal? id = some .created)

def renewals (history : History) (id : CallId) : Nat := history.countP (Record.renews id)

def brought (history : History) (id : CallId) : List Topology :=
  history.filterMap fun r =>
    if r.event.caller? = some id then r.before.fetched? r.event else none

/-- What a call has sent that asks for a stream with `q`, has turned to the metadata so often and is
not through with them. -/
inductive Sends (total : Nat) (q : Request) : Nat → List Letter → Prop
  | creating (made : List Letter) : Repeats total q made → (∀ reply, ¬ Answered made reply) →
    Sends total q 0 made
  | renewing (made fetched : List Letter) (reply : Reply) : Concludes total q made (.ok reply) →
    Repeats total .fetchMetadata fetched → (∀ reply, ¬ Answered fetched reply) →
      Sends total q 1 (fetched ++ made)

/-- How a call stands that was started to create the stream `name`. -/
inductive Creates (total : Nat) (name : String) (creation : Creation) (history : History)
    (c : Client) (id : CallId) : Prop
  | asks (due : Option Nat) (j : Job Request) :
    c.calls.get? id = some (.linking (.create name) due) → c.link.jobs.get? id = some j →
      Corresponds total (.createStream creation) (letters history id) due j →
        renewals history id = 0 → brought history id = [] →
          Creates total name creation history c id
  | failed (f : Fault) : c.calls.get? id = none →
    Concludes total (.createStream creation) (letters history id) (.error f) →
      .finish id (.error (.ofCreate name f)) ∈ trail history →
        renewals history id = 0 → brought history id = [] →
          Creates total name creation history c id
  | renews (made fetched : List Letter) (reply : Reply) (due : Option Nat) (j : Job Request) :
    c.calls.get? id = some (.linking .created due) → c.link.jobs.get? id = some j →
      letters history id = fetched ++ made →
        Concludes total (.createStream creation) made (.ok reply) →
          Corresponds total .fetchMetadata fetched due j →
            renewals history id = 1 → brought history id = [] →
              Creates total name creation history c id
  | returned (made fetched : List Letter) (reply : Reply) (r : Except Fault Reply) :
    c.calls.get? id = none → letters history id = fetched ++ made →
      Concludes total (.createStream creation) made (.ok reply) →
        Concludes total .fetchMetadata fetched r → .finish id (.ok .done) ∈ trail history →
          renewals history id = 1 → brought history id = (r.toOption.map Reply.topology).toList →
            Creates total name creation history c id
  | abandoned : c.calls.get? id = none → (∀ r, .finish id r ∉ trail history) →
    (∃ r ∈ history, r.event = .abandon id) →
      Sends total (.createStream creation) (renewals history id) (letters history id) →
        brought history id = [] → Creates total name creation history c id

structure Unmoved (draw : Nat) (history : History) (c : Client) (e : Event) (id : CallId) :
    Prop where
  calls : (step draw c e).1.calls.get? id = c.calls.get? id
  job : ∀ j, c.link.jobs.get? id = some j → (step draw c e).1.link.jobs.get? id = some j
  letters : letters (⟨c, draw, e⟩ :: history) id = letters history id
  renewals : renewals (⟨c, draw, e⟩ :: history) id = renewals history id
  brought : brought (⟨c, draw, e⟩ :: history) id = brought history id
  unfinished : ∀ r, .finish id r ∉ (step draw c e).2

section Creating

variable {settings : Settings} {now total : Nat} {history : History} {c : Client} {draw : Nat}
  {e : Event} {id : CallId} {name : String} {creation : Creation} {q : Request} {goal : Goal}
  {due : Option Nat} {j : Job Request} {sent : List Letter}

theorem renewals_cons (c : Client) (draw : Nat) (e : Event) (history : History) (id : CallId) :
    renewals (⟨c, draw, e⟩ :: history) id =
      renewals history id + if Record.renews id ⟨c, draw, e⟩ then 1 else 0 :=
  List.countP_cons ..

theorem renewals_same
    (h : c.goal? id = some .created ∨ (step draw c e).1.goal? id ≠ some .created) :
    renewals (⟨c, draw, e⟩ :: history) id = renewals history id := by
  have hrenews : Record.renews id ⟨c, draw, e⟩ = false := by
    rw [Record.renews, decide_eq_false_iff_not]
    rintro ⟨hbefore, hafter⟩
    exact h.elim hbefore fun hne => hne hafter
  rw [renewals_cons, hrenews]
  rfl

theorem brought_same (h : e.caller? = some id → c.fetched? e = none) :
    brought (⟨c, draw, e⟩ :: history) id = brought history id := by
  apply List.filterMap_cons_none
  split
  · next he => exact h he
  · rfl

theorem brought_next (he : e.caller? = some id) :
    brought (⟨c, draw, e⟩ :: history) id = (c.fetched? e).toList ++ brought history id := by
  cases hf : c.fetched? e with
  | none => exact brought_same fun _ => hf
  | some t => exact List.filterMap_cons_some ((if_pos he).trans hf)

theorem goal?_of_linking (h : c.calls.get? id = some (.linking goal due)) :
    c.goal? id = some goal := by simp [goal?, h, Stage.goal?]

theorem goal?_of_gone (h : c.calls.get? id = none) : c.goal? id = none := by simp [goal?, h]

theorem fetched?_of_asked (h : c.asked id ≠ some .fetchMetadata) (he : e.caller? = some id) :
    c.fetched? e = none := by
  refine Option.eq_none_iff_forall_ne_some.2 fun t ht => ?_
  obtain ⟨k, reply, rfl, hasked, -⟩ := fetched?_eq_some.1 ht
  obtain rfl := Option.some.inj he
  exact h hasked

theorem asked_of_seeking (hj : c.link.jobs.get? id = some j)
    (hcalling : ∀ e conn, j ≠ .calling e conn) : c.asked id = none := by
  refine Option.eq_none_iff_forall_ne_some.2 fun q hq => ?_
  obtain ⟨e', conn, hj', -⟩ := asked_eq_some.1 hq
  exact hcalling e' conn (Option.some.inj (hj.symm.trans hj'))

theorem Corresponds.delivered_append (h : Corresponds total q sent due j)
    (hj : c.link.jobs.get? id = some j) (e : Event) (made : List Letter) :
    delivered c.now (c.hears? id e) (sent ++ made) =
      delivered c.now (c.hears? id e) sent ++ made := by
  cases h with
  | seeks _ _ _ _ hcalling =>
    rw [hears?_of_unasked (asked_of_seeking hj hcalling), delivered_none, delivered_none]
  | waits => cases c.hears? id e <;> rfl

theorem fetched?_iff (he : e.caller? = some id) {t : Topology} : c.fetched? e = some t ↔
    c.asked id = some .fetchMetadata ∧
      ∃ reply, c.hears? id e = some (.ok reply) ∧ reply.topology = t := by
  constructor
  · intro ht
    obtain ⟨k, reply, rfl, hasked, hreply⟩ := fetched?_eq_some.1 ht
    obtain rfl := Option.some.inj he
    exact ⟨hasked, reply, by simp [hears?, hasked], hreply⟩
  · rintro ⟨hasked, reply, hheard, rfl⟩
    unfold hears? at hheard
    split at hheard
    · split at hheard <;> cases hheard
      next hk => exact fetched?_eq_some.2 ⟨_, reply, rfl, hk.1 ▸ hasked, rfl⟩
    · obtain ⟨f, -, hf⟩ := Option.map_eq_some_iff.1 hheard
      cases hf
    · cases hheard

theorem Corresponds.asked_eq (h : Corresponds total q sent due j)
    (hj : c.link.jobs.get? id = some j) {q' : Request} (hq' : c.asked id = some q') : q' = q := by
  obtain ⟨e', conn, hj', rfl⟩ := asked_eq_some.1 hq'
  obtain rfl := Option.some.inj (hj.symm.trans hj')
  cases h with
  | seeks _ _ _ _ hcalling => exact absurd rfl (hcalling e' conn)
  | waits _ _ _ _ hserves => exact hserves.request

theorem Corresponds.delivered_eq (h : Corresponds total q sent due j)
    (hj : c.link.jobs.get? id = some j) {r : Except Fault Reply} (hr : c.hears? id e = some r) :
    ∃ l earlier, delivered c.now (c.hears? id e) sent = l :: earlier ∧
      l.heard = some (c.now, r) := by
  rw [hr]
  cases h with
  | seeks _ _ _ _ hcalling =>
    cases (hears?_of_unasked (asked_of_seeking hj hcalling) e).symm.trans hr
  | waits earlier e' conn t => exact ⟨_, earlier, rfl, rfl⟩

theorem Corresponds.fetched?_eq (h : Corresponds total .fetchMetadata sent due j)
    (hj : c.link.jobs.get? id = some j) (he : e.caller? = some id) {r : Except Fault Reply}
    (hconcludes : Concludes total .fetchMetadata (delivered c.now (c.hears? id e) sent) r) :
    c.fetched? e = r.toOption.map Reply.topology := by
  have hanswered (reply : Reply) : c.hears? id e = some (.ok reply) ↔ r = .ok reply := by
    rw [hconcludes.answered_iff]
    cases hr : c.hears? id e with
    | none =>
      rw [delivered_none]
      exact iff_of_false (by simp) (h.not_answered reply)
    | some heard =>
      obtain ⟨l, earlier, hl, hheard⟩ := h.delivered_eq hj hr
      rw [hr] at hl
      rw [hl]
      simp [Answered, hheard]
  ext t
  rw [fetched?_iff he, Option.map_eq_some_iff]
  constructor
  · rintro ⟨-, reply, hheard, ht⟩
    obtain rfl := (hanswered reply).1 hheard
    exact ⟨reply, rfl, ht⟩
  · rintro ⟨reply, hreply, ht⟩
    have hheard : c.hears? id e = some (.ok reply) := by
      rw [hanswered]
      cases r <;> cases hreply
      rfl
    refine ⟨?_, reply, hheard, ht⟩
    cases hq : c.asked id with
    | none => cases (hears?_of_unasked hq e).symm.trans hheard
    | some q' => rw [h.asked_eq hj hq]

theorem Sends.of_corresponds (h : Corresponds total q sent due j) : Sends total q 0 sent :=
  .creating sent h.repeats h.not_answered

theorem settle_create (draw : Nat) (c : Client) (id : CallId) (name : String) (reply : Reply) :
    settle draw c id (.create name) (.ok reply) = submit draw c id .created .fetchMetadata := by
  have hnext : (fun (c : Client) (r : Except Fault Reply) => c.created id r) =
      fun c r => settle draw c id .created r := by
    funext c r
    cases r <;> rfl
  rw [settle, hnext]
  rfl

theorem settle_created (draw : Nat) (c : Client) (id : CallId) (r : Except Fault Reply) :
    ∃ c' : Client, settle draw c id .created r = c'.finish id (.ok .done) := by
  cases r with
  | ok reply => exact ⟨c.install reply.topology, rfl⟩
  | error f => exact ⟨c, rfl⟩

theorem renewal_goes {a : Address} (hpick : c.pick draw = some a)
    (hattempts : c.link.attempts = total) (hpos : 0 < total) (id : CallId) :
    ∃ due j, (submit draw c id .created .fetchMetadata).1.calls.get? id =
        some (.linking .created due) ∧
      (submit draw c id .created .fetchMetadata).1.link.jobs.get? id = some j ∧
      Corresponds total .fetchMetadata
        (posted c.now (submit draw c id .created .fetchMetadata).2 id) due j := by
  have hexchanges : Exchanges draw .created total .fetchMetadata [] c .expire id
      (submit draw c id .created .fetchMetadata) :=
    exchanges_submit draw c id .created .fetchMetadata hattempts
  obtain ⟨⟨due, hs⟩, -⟩ := submit_waits hpick (hattempts ▸ hpos) id .created .fetchMetadata
  cases hexchanges with
  | goes due j hs hj hcorresponds =>
    rw [List.append_nil] at hcorresponds
    exact ⟨due, j, hs, hj, hcorresponds⟩
  | returns link before r _ _ _ _ hm =>
    obtain ⟨c', hsettle⟩ := settle_created draw { c with link } id r
    rw [hm, hsettle] at hs
    simp [Move.after] at hs
  | abandons due j he => cases he

theorem Run.creates_of_exchanges (h : Run settings now history c) (hb : settings.bootstrap ≠ [])
    (hgoal : c.goal? id ≠ some .created) (hcount : renewals history id = 0)
    (hbrought : brought history id = []) (hf : c.fetched? e = none)
    (hunfinished : ∀ r, .finish id r ∉ trail history)
    (hex : Exchanges draw (.create name) (max settings.attempts 1) (.createStream creation)
      (delivered c.now (c.hears? id e) (letters history id)) c e id (step draw c e)) :
    Creates (max settings.attempts 1) name creation (⟨c, draw, e⟩ :: history)
      (step draw c e).1 id := by
  have hbrought' : brought (⟨c, draw, e⟩ :: history) id = [] :=
    (brought_same fun _ => hf).trans hbrought
  have hcount' (hne : (step draw c e).1.goal? id ≠ some .created) :
      renewals (⟨c, draw, e⟩ :: history) id = 0 := (renewals_same (.inr hne)).trans hcount
  cases hex with
  | goes due j hs hj hcorresponds =>
    exact .asks due j hs hj hcorresponds (hcount' (by simp [goal?_of_linking hs])) hbrought'
  | abandons due j he hm hcorresponds =>
    obtain ⟨hs, hsame, hleft⟩ := left_of_abandon hm hunfinished
    refine .abandoned hs hleft ⟨_, List.mem_cons_self .., he⟩ ?_ hbrought'
    rw [hcount' (by simp [goal?_of_gone hs]), hsame]
    exact .of_corresponds hcorresponds
  | returns link before r hplain hposted hj hconcludes hm =>
    cases r with
    | error f =>
      have hm' : step draw c e =
          (finish { c with link } id (.error (.ofCreate name f))).after before := hm
      obtain ⟨hs, hsame, hfinish⟩ := returned_of_finish hm' hposted
      exact .failed f hs (hsame ▸ hconcludes) hfinish (hcount' (by simp [goal?_of_gone hs]))
        hbrought'
    | ok reply =>
      -- the refresh begins in the event that brings the answer, with all its attempts
      rw [settle_create] at hm
      obtain ⟨a, hpick⟩ := h.exists_pick hb draw
      have hattempts : link.attempts = max settings.attempts 1 := by
        have hsame := (attempts_step (c := c) draw e).trans h.attempts_eq
        rw [hm] at hsame
        exact (attempts_submit draw .created .fetchMetadata).symm.trans hsame
      obtain ⟨due, j, hs, hj', hcorresponds⟩ :=
        renewal_goes (c := { c with link }) hpick hattempts (by omega) id
      have hs' : (step draw c e).1.calls.get? id = some (.linking .created due) := by
        rw [hm]
        exact hs
      have hrenews : Record.renews id ⟨c, draw, e⟩ = true :=
        decide_eq_true ⟨hgoal, goal?_of_linking hs'⟩
      refine .renews _ _ reply due j hs' (by rw [hm]; exact hj') ?_ hconcludes hcorresponds ?_
        hbrought'
      · rw [letters_cons, hm, Move.after, posted_append, hposted, List.append_nil]
      · rw [renewals_cons, hcount, hrenews]
        rfl

theorem Run.renews_of_exchanges {made fetched : List Letter} {reply : Reply}
    (h : Run settings now history c) (hs : c.calls.get? id = some (.linking .created due))
    (hj : c.link.jobs.get? id = some j) (hletters : letters history id = fetched ++ made)
    (hmade : Concludes total (.createStream creation) made (.ok reply))
    (hfetched : Corresponds total .fetchMetadata fetched due j) (hcount : renewals history id = 1)
    (hbrought : brought history id = []) (he : e.caller? = some id)
    (hex : Exchanges draw .created total .fetchMetadata
      (delivered c.now (c.hears? id e) fetched) c e id (step draw c e)) :
    Creates total name creation (⟨c, draw, e⟩ :: history) (step draw c e).1 id := by
  have hheard : delivered c.now (c.hears? id e) (letters history id) =
      delivered c.now (c.hears? id e) fetched ++ made := by
    rw [hletters, hfetched.delivered_append hj]
  have hcount' : renewals (⟨c, draw, e⟩ :: history) id = 1 :=
    (renewals_same (.inl (goal?_of_linking hs))).trans hcount
  cases hex with
  | goes due' j' hs' hj' hcorresponds _ _ =>
    -- what is under way has heard no good answer yet
    have hf : c.fetched? e = none := by
      refine Option.eq_none_iff_forall_ne_some.2 fun t ht => ?_
      obtain ⟨-, reply', hheard, -⟩ := (fetched?_iff he).1 ht
      obtain ⟨l, earlier, hl, hheard'⟩ := hfetched.delivered_eq hj hheard
      exact hcorresponds.unheard (List.mem_append_right _ (hl ▸ List.mem_cons_self ..)) _ _ hheard'
    refine .renews made _ reply due' j' hs' hj' ?_ hmade hcorresponds hcount'
      ((brought_same fun _ => hf).trans hbrought)
    rw [letters_cons, hheard, List.append_assoc]
  | returns link before r _ hposted _ hconcludes hm =>
    obtain ⟨c', hsettle⟩ := settle_created draw { c with link } id r
    rw [hsettle] at hm
    obtain ⟨hs', hsame, hfinish⟩ := returned_of_finish hm hposted
    refine .returned made _ reply r hs' (hsame.trans hheard) hmade hconcludes hfinish hcount' ?_
    rw [brought_next he, hbrought, List.append_nil, hfetched.fetched?_eq hj he hconcludes]
  | abandons due' j' he' hm hcorresponds =>
    obtain ⟨hs', hsame, hleft⟩ := left_of_abandon hm ((h.life id).unfinished hs)
    refine .abandoned hs' hleft ⟨_, List.mem_cons_self .., he'⟩ ?_ ?_
    · rw [hcount', hsame, hheard]
      exact .renewing made _ reply hmade hcorresponds.repeats hcorresponds.not_answered
    · refine (brought_same fun _ => ?_).trans hbrought
      rw [he']
      rfl

theorem Run.unfetched_of_gone (h : Run settings now history c) (hs : c.calls.get? id = none)
    (he : e.caller? = some id) : c.fetched? e = none := by
  have hasked : c.asked id = none := asked_eq_none h.keeps.coherent (by simp [hs])
  exact fetched?_of_asked (by simp [hasked]) he

theorem Run.renewals_of_new (h : Run settings now history c) (hnew : id ∉ started history) :
    renewals history id = 0 := by
  refine h.until_start (P := fun history => renewals history id = 0) hnew rfl ?_
  intro earlier before e draw hrun hp hnew' ih
  have hs := (hrun.next draw hp).keeps.call_of_new hnew'
  rw [renewals_same (.inr (by simp [goal?_of_gone hs])), ih]

theorem Run.brought_of_new (h : Run settings now history c) (hnew : id ∉ started history) :
    brought history id = [] := by
  refine h.until_start (P := fun history => brought history id = []) hnew rfl ?_
  intro earlier before e draw hrun hp hnew' ih
  have hs := hrun.keeps.call_of_new (mt mem_started_cons hnew')
  rw [brought_same (hrun.unfetched_of_gone hs), ih]

variable {o : CreateOptions}

theorem step_createStream (draw : Nat) (hopen : c.closed = false) (id : CallId) {name : String}
    (hvalid : o.creation name = .ok creation) :
    step draw c (.start id (.createStream name o)) =
      submit draw c id (.create name) (.createStream creation) := by
  simp [step, start, hopen, openCall, hvalid]

theorem Run.creates_start (h : Run settings now history c) (hb : settings.bootstrap ≠ [])
    (hopen : c.closed = false) (hvalid : o.creation name = .ok creation) (draw : Nat)
    (hp : Possible history c (.start id (.createStream name o))) :
    Creates (max settings.attempts 1) name creation
      (⟨c, draw, .start id (.createStream name o)⟩ :: history)
      (step draw c (.start id (.createStream name o))).1 id := by
  have hgone := h.keeps.call_of_new hp.1
  have hunfinished (r) : .finish id r ∉ trail history := fun hr =>
    hp.1 ((h.life id).finish r hr).2.1
  refine h.creates_of_exchanges hb (by simp [goal?_of_gone hgone]) (h.renewals_of_new hp.1)
    (h.brought_of_new hp.1) rfl hunfinished ?_
  rw [h.letters_of_new hp.1, step_createStream draw hopen id hvalid]
  exact exchanges_submit draw c id (.create name) _ h.attempts_eq

theorem Run.unmoved (h : Run settings now history c) (hid : id ∈ started history) (draw : Nat)
    (hp : Possible history c e) (hs : c.calls.get? id = none ∨
      (∃ goal due, c.calls.get? id = some (.linking goal due)) ∧ e.caller? ≠ some id) :
    Unmoved draw history c e id := by
  rcases hs with hs | ⟨⟨goal, due, hs⟩, he⟩
  · obtain ⟨hcalls, hfinish⟩ := h.gone draw hp hs hid
    exact {
      calls := hcalls.trans hs.symm
      job := fun j hj => by
        have hnone := h.keeps.coherent.fits id
        rw [hs, hj] at hnone
        cases hnone
      letters := h.letters_of_gone draw hs (hp.not_start hid)
      renewals := renewals_same (.inr (by simp [goal?_of_gone hcalls]))
      brought := brought_same (h.unfetched_of_gone hs)
      unfinished := hfinish }
  · obtain ⟨hcalls, hfinish⟩ := h.untouched draw hs (by simp [Rests]) he
    exact {
      calls := hcalls
      job := fun j hj => (h.job_away draw he).trans hj
      letters := h.letters_away draw he
      renewals := by
        refine renewals_same ?_
        rw [goal?_of_linking hs, goal?_of_linking (hcalls.trans hs)]
        exact eq_or_ne _ _
      brought := brought_same fun he' => absurd he' he
      unfinished := hfinish }

theorem Creates.unmoved (h : Creates total name creation history c id)
    (hsame : Unmoved draw history c e id) :
    Creates total name creation (⟨c, draw, e⟩ :: history) (step draw c e).1 id := by
  obtain ⟨hcalls, hjob, hletters, hrenewals, hbrought, hunfinished⟩ := hsame
  cases h with
  | asks due j hs hj hcorresponds hcount hnone =>
    exact .asks due j (hcalls.trans hs) (hjob j hj) (hletters ▸ hcorresponds)
      (hrenewals.trans hcount) (hbrought.trans hnone)
  | failed f hs hconcludes hfinish hcount hnone =>
    exact .failed f (hcalls.trans hs) (hletters ▸ hconcludes) (mem_trail_cons hfinish)
      (hrenewals.trans hcount) (hbrought.trans hnone)
  | renews made fetched reply due j hs hj heq hmade hfetched hcount hnone =>
    exact .renews made fetched reply due j (hcalls.trans hs) (hjob j hj) (hletters.trans heq) hmade
      hfetched (hrenewals.trans hcount) (hbrought.trans hnone)
  | returned made fetched reply r hs heq hmade hfetched hfinish hcount hr =>
    exact .returned made fetched reply r (hcalls.trans hs) (hletters.trans heq) hmade hfetched
      (mem_trail_cons hfinish) (hrenewals.trans hcount) (hbrought.trans hr)
  | abandoned hs hleft habandoned hsends hnone =>
    obtain ⟨r, hr, hevent⟩ := habandoned
    refine .abandoned (hcalls.trans hs) ?_ ⟨r, List.mem_cons_of_mem _ hr, hevent⟩ ?_
      (hbrought.trans hnone)
    · exact fun out hout => (List.mem_append.1 hout).elim (hleft out) (hunfinished out)
    · rwa [hletters, hrenewals]

theorem Creates.next (h : Run settings now history c) (hb : settings.bootstrap ≠ [])
    (hcreates : Creates (max settings.attempts 1) name creation history c id)
    (hid : id ∈ started history) (draw : Nat) (hp : Possible history c e) :
    Creates (max settings.attempts 1) name creation (⟨c, draw, e⟩ :: history)
      (step draw c e).1 id := by
  have hgone (hs : c.calls.get? id = none) := hcreates.unmoved (h.unmoved hid draw hp (.inl hs))
  by_cases he : e.caller? = some id
  · cases hcreates with
    | asks due j hs hj hcorresponds hcount hbrought =>
      have hf : c.fetched? e = none := by
        refine fetched?_of_asked (fun hasked => ?_) he
        cases hcorresponds.asked_eq hj hasked
      exact h.creates_of_exchanges hb (by simp [goal?_of_linking hs]) hcount hbrought hf
        ((h.life id).unfinished hs) (hcorresponds.step draw hs hj (hp.not_start hid) hp.dialing he)
    | renews made fetched reply due j hs hj hletters hmade hfetched hcount hbrought =>
      exact h.renews_of_exchanges hs hj hletters hmade hfetched hcount hbrought he
        (hfetched.step draw hs hj (hp.not_start hid) hp.dialing he)
    | failed _ hs | returned _ _ _ _ hs | abandoned hs => exact hgone hs
  · refine hcreates.unmoved (h.unmoved hid draw hp ?_)
    cases hcreates with
    | asks due j hs | renews _ _ _ due j hs => exact .inr ⟨⟨_, due, hs⟩, he⟩
    | failed _ hs | returned _ _ _ _ hs | abandoned hs => exact .inl hs

theorem Run.creates (h : Run settings now history c) (hb : settings.bootstrap ≠ []) {r : Record}
    (hr : r ∈ history) (hevent : r.event = .start id (.createStream name o))
    (hopen : r.before.closed = false) (hvalid : o.creation name = .ok creation) :
    Creates (max settings.attempts 1) name creation history c id := by
  refine h.since_start
    (P := fun history c => Creates (max settings.attempts 1) name creation history c id)
    hr hevent ?_ ?_
  · exact fun earlier hrun hp => hrun.creates_start hb hopen hvalid r.draw hp
  · exact fun draw hrun hp _ hid ih => Creates.next hrun hb ih hid draw hp

end Creating

end StreamClient.Client
