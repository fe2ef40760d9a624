import StreamClient.Proofs.Client.Creating
import StreamClient.Proofs.Client.Deadlines
import StreamClient.Proofs.Client.Dialings
import StreamClient.Proofs.Client.Resolution
import StreamClient.Proofs.Snapshot.Reading

/-! The refresh after the creation of a stream: it follows exactly once if the stream was created,
and whatever comes of it is nothing to the result. -/

namespace StreamClient.Client

open Link (Job)

def creations (history : History) (id : CallId) : List Letter :=
  (letters history id).filter fun l => decide (l.request ≠ .fetchMetadata)

def inquiries (history : History) (id : CallId) : List Letter :=
  (letters history id).filter fun l => decide (l.request = .fetchMetadata)

structure Refused (history : History) (c : Client) (id : CallId) (f : CallError) : Prop where
  gone : c.calls.get? id = none
  unsent : letters history id = []
  undialed : dialings history id = []
  unrenewed : renewals history id = 0
  unbrought : brought history id = []
  finish : .finish id (.error f) ∈ trail history

section Renewal

variable {settings : Settings} {now total : Nat} {history : History} {c : Client} {draw : Nat}
  {e : Event} {id : CallId} {name : String} {creation : Creation} {o : CreateOptions}

theorem linking_of_goal? {goal : Goal} (h : c.goal? id = some goal) :
    ∃ due, c.calls.get? id = some (.linking goal due) := by
  obtain ⟨stage, hs, hgoal⟩ := Option.bind_eq_some_iff.1 h
  cases stage with
  | linking goal' due =>
    obtain rfl : goal' = goal := Option.some.inj hgoal
    exact ⟨due, hs⟩
  | _ => cases hgoal

/-- The requests differ, so each letter tells for which of them it was sent. -/
theorem creations_of_letters {made fetched : List Letter}
    (h : letters history id = fetched ++ made)
    (hmade : Repeats total (.createStream creation) made)
    (hfetched : Repeats total .fetchMetadata fetched) :
    creations history id = made ∧ inquiries history id = fetched := by
  have hkept : made.filter (fun l => decide (l.request ≠ .fetchMetadata)) = made :=
    List.filter_eq_self.2 fun l hl => by simp [hmade.same l hl]
  have hnone : made.filter (fun l => decide (l.request = .fetchMetadata)) = [] :=
    List.filter_eq_nil_iff.2 fun l hl => by simp [hmade.same l hl]
  have hkept' : fetched.filter (fun l => decide (l.request = .fetchMetadata)) = fetched :=
    List.filter_eq_self.2 fun l hl => by simp [hfetched.same l hl]
  have hnone' : fetched.filter (fun l => decide (l.request ≠ .fetchMetadata)) = [] :=
    List.filter_eq_nil_iff.2 fun l hl => by simp [hfetched.same l hl]
  constructor
  · rw [creations, h, List.filter_append, hnone', hkept, List.nil_append]
  · rw [inquiries, h, List.filter_append, hkept', hnone, List.append_nil]

theorem repeats_nil (total : Nat) (q : Request) : Repeats total q [] :=
  ⟨by simp, by simp, Nat.zero_le _⟩

theorem creations_of_creating (h : Repeats total (.createStream creation) (letters history id)) :
    creations history id = letters history id ∧ inquiries history id = [] :=
  creations_of_letters (List.nil_append _).symm h (repeats_nil total _)

/-- What a call has sent in all: the metadata are asked for after the stream was created. -/
inductive Divides (total : Nat) (creation : Creation) (history : History) (id : CallId) : Prop
  | creating : renewals history id = 0 → letters history id = creations history id →
    inquiries history id = [] → Repeats total (.createStream creation) (creations history id) →
      (∀ reply, ¬ Answered (creations history id) reply) → Divides total creation history id
  | renewing (reply : Reply) : renewals history id = 1 →
    letters history id = inquiries history id ++ creations history id →
      Repeats total .fetchMetadata (inquiries history id) →
        Repeats total (.createStream creation) (creations history id) →
          Answered (creations history id) reply → Divides total creation history id

theorem divides_of_creating (hcount : renewals history id = 0)
    (hmade : Repeats total (.createStream creation) (letters history id))
    (hunanswered : ∀ reply, ¬ Answered (letters history id) reply) :
    Divides total creation history id := by
  obtain ⟨heq, hnone⟩ := creations_of_creating hmade
  exact .creating hcount heq.symm hnone (by rwa [heq]) (by rwa [heq])

theorem divides_of_renewing {made fetched : List Letter} {reply : Reply}
    (hcount : renewals history id = 1) (hletters : letters history id = fetched ++ made)
    (hmade : Concludes total (.createStream creation) made (.ok reply))
    (hfetched : Repeats total .fetchMetadata fetched) : Divides total creation history id := by
  obtain ⟨rfl, rfl⟩ := creations_of_letters hletters hmade.repeats hfetched
  exact .renewing reply hcount hletters hfetched hmade.repeats ((hmade.answered_iff reply).1 rfl)

theorem Creates.divides (h : Creates total name creation history c id) :
    Divides total creation history id := by
  cases h with
  | asks due j _ _ hcorresponds hcount _ =>
    exact divides_of_creating hcount hcorresponds.repeats hcorresponds.not_answered
  | failed f _ hconcludes _ hcount _ =>
    refine divides_of_creating hcount hconcludes.repeats fun reply hreply => ?_
    cases (hconcludes.answered_iff reply).2 hreply
  | renews made fetched reply due j _ _ hletters hmade hfetched hcount _ =>
    exact divides_of_renewing hcount hletters hmade hfetched.repeats
  | returned made fetched reply r _ hletters hmade hfetched _ hcount _ =>
    exact divides_of_renewing hcount hletters hmade hfetched.repeats
  | abandoned _ _ _ hsends _ =>
    generalize hcount : renewals history id = n at hsends
    generalize hletters : letters history id = sent at hsends
    cases hsends with
    | creating made hmade hunanswered =>
      subst hletters
      exact divides_of_creating hcount hmade hunanswered
    | renewing made fetched reply hmade hfetched _ =>
      exact divides_of_renewing hcount hletters hmade hfetched

theorem Divides.letters_eq (h : Divides total creation history id) :
    letters history id = inquiries history id ++ creations history id ∧
      Repeats total .fetchMetadata (inquiries history id) ∧
        Repeats total (.createStream creation) (creations history id) := by
  cases h with
  | creating _ hletters hnone hmade _ =>
    rw [hnone]
    exact ⟨hletters, repeats_nil total _, hmade⟩
  | renewing _ _ hletters hfetched hmade _ => exact ⟨hletters, hfetched, hmade⟩

theorem Divides.renewals_iff (h : Divides total creation history id) :
    (∃ reply, Answered (creations history id) reply) ∧ renewals history id = 1 ∨
      (∀ reply, ¬ Answered (creations history id) reply) ∧ renewals history id = 0 ∧
        inquiries history id = [] := by
  cases h with
  | creating hcount _ hnone _ hunanswered => exact .inr ⟨hunanswered, hcount, hnone⟩
  | renewing reply hcount _ _ _ hanswered => exact .inl ⟨⟨reply, hanswered⟩, hcount⟩

theorem Creates.finished (h : Creates total name creation history c id) (hlife : Life history c id)
    {out : Except CallError Outcome} (hout : .finish id out ∈ trail history) :
    (∃ reply, Answered (creations history id) reply) ∧ out = .ok .done ∨
      (∀ reply, ¬ Answered (creations history id) reply) ∧
        ∃ f, out = .error (.ofCreate name f) := by
  cases h with
  | asks due j hs => exact absurd hout (hlife.unfinished hs out)
  | renews _ _ _ due j hs => exact absurd hout (hlife.unfinished hs out)
  | abandoned _ hunfinished => exact absurd hout (hunfinished out)
  | failed f _ hconcludes hfinish _ _ =>
    obtain ⟨hmade, -⟩ := creations_of_creating hconcludes.repeats
    refine .inr ⟨fun reply hreply => ?_, f, (hlife.finish _ hfinish).2.2 _ hout⟩
    rw [hmade] at hreply
    cases (hconcludes.answered_iff reply).2 hreply
  | returned made fetched reply r _ hletters hmade hfetched hfinish _ _ =>
    obtain ⟨heq, -⟩ := creations_of_letters hletters hmade.repeats hfetched.repeats
    refine .inl ⟨⟨reply, ?_⟩, (hlife.finish _ hfinish).2.2 _ hout⟩
    rw [heq]
    exact (hmade.answered_iff reply).1 rfl

theorem Creates.mem_brought (h : Creates total name creation history c id) {t : Topology}
    (ht : t ∈ brought history id) : ∃ reply, Answered (inquiries history id) reply ∧
      reply.topology = t := by
  cases h with
  | asks _ _ _ _ _ _ hbrought | failed _ _ _ _ _ hbrought | renews _ _ _ _ _ _ _ _ _ _ _ hbrought
  | abandoned _ _ _ _ hbrought =>
    rw [hbrought] at ht
    cases ht
  | returned made fetched reply r _ hletters hmade hfetched _ _ hbrought =>
    obtain ⟨-, heq⟩ := creations_of_letters hletters hmade.repeats hfetched.repeats
    rw [hbrought] at ht
    cases r with
    | error f => cases ht
    | ok reply' =>
      obtain rfl := List.mem_singleton.1 ht
      refine ⟨reply', ?_, rfl⟩
      rw [heq]
      exact (hfetched.answered_iff reply').1 rfl

theorem goal?_follow_of_goes {goal : Goal} {due : Option Nat} {t : Link.Turn Request Reply}
    {next : Client → Except Fault Reply → Move} {before : List Effect} (ht : t.ending = none) :
    ((c.follow id goal due t next).after before).1.goal? id = some goal := by
  simp [follow, ht, Move.after, goal?, Stage.goal?]

theorem finish_mem_engage_created {due : Option Nat} {t : Link.Turn Request Reply}
    {before : List Effect} {r : Except Fault Reply} (ht : t.ending = some (.reply r)) :
    .finish id (.ok .done) ∈ ((engage draw c id .created due t).after before).2 := by
  obtain ⟨c', hsettle⟩ := settle_created draw { c with link := t.link } id r
  simp only [engage, follow, ht, hsettle]
  simp [Move.after, finish]

theorem Run.renewal_ends (h : Run settings now history c) (hb : settings.bootstrap ≠ []) (draw : Nat)
    (hp : Possible history c e) (hbefore : c.goal? id = some .created)
    (hafter : (step draw c e).1.goal? id ≠ some .created) :
    e = .abandon id ∨ .finish id (.ok .done) ∈ (step draw c e).2 ∧
      ((∃ reply, e = .answered (.caller id) (.ok reply)) ∨
        ∃ f, ((c.mishap? id e).toList ++ setbacks history id).head? = some f ∧
          (f.isUnavailable = true →
            ((c.mishap? id e).toList ++ setbacks history id).length = max settings.attempts 1)) := by
  obtain ⟨due, hs⟩ := linking_of_goal? hbefore
  have he : e.caller? = some id := by
    by_contra he
    obtain ⟨hcalls, -⟩ := h.untouched draw hs (by simp [Rests]) he
    exact hafter (goal?_of_linking (hcalls.trans hs))
  obtain ⟨a, hpick⟩ := h.exists_pick hb draw
  obtain ⟨r, hr, op, hevent⟩ := h.exists_start hs
  obtain ⟨j, hj, hbears⟩ := (h.bears hb ⟨r, hr, hevent⟩).linked .created due hs
  have hid : id ∈ started history := mem_started.2 ⟨r, hr, op, hevent⟩
  have htotal : 0 < max settings.attempts 1 := by omega
  cases dispatches_step hpick hs hj hbears htotal (hp.not_start hid) hp.dialing he with
  | stays _ hm =>
    rw [hm] at hafter
    exact absurd hbefore hafter
  | abandons he' _ => exact .inl he'
  | turns due' t before ht _ hok _ hm =>
    rw [hm] at hafter ⊢
    cases ht with
    | goes j' hending _ _ => exact absurd (goal?_follow_of_goes hending) hafter
    | succeeds reply hending _ =>
      exact .inr ⟨finish_mem_engage_created hending, .inl ⟨reply, hok reply hending⟩⟩
    | fails f hhead hall hending _ =>
      exact .inr ⟨finish_mem_engage_created hending, .inr ⟨f, hhead, hall⟩⟩

theorem route_of_listed (bootstrap : List Address) {t : Topology} {s : Subscription}
    {p : Topology.Partition} {l : String} {b : Broker}
    (hp : t.NamesPartition s.stream s.partition p) (hl : p.leader = some l)
    (hbroker : t.NamesBroker l b) (draw : Nat) :
    ∃ a, (Snapshot.ofTopology bootstrap t).route s.stream s.partition s.readIsrReplica draw =
      some a := by
  have hleader : (Snapshot.Partition.ofTopology (Snapshot.brokerTable t) p).leader = some b :=
    ((Snapshot.reflects_partition t p).leader b).2 ⟨l, hl, hbroker⟩
  rw [Snapshot.route_of_namesPartition hp, Snapshot.Partition.server, hleader]
  split
  · cases choose draw (Snapshot.Partition.ofTopology (Snapshot.brokerTable t) p).isr with
    | none => exact ⟨b.address, rfl⟩
    | some b' => exact ⟨b'.address, rfl⟩
  · exact ⟨b.address, rfl⟩

theorem Run.way_of_found (h : Run settings now history c) (hb : settings.bootstrap ≠ []) {r : Record}
    (hr : r ∈ history) {stream : String} {options : SubscribeOptions}
    (hevent : r.event = .start id (.subscribe stream options)) (hopen : r.before.closed = false)
    {a : Address} (hroute : r.before.snapshot.route stream options.partition
      options.readIsrReplica r.draw = some a) :
    way history id = [.looks r.before.now none (some a)] ∧
      ∀ x ∈ history, ¬ x.move.1.Resolving id := by
  have haim : Aimed history id (.subscribing (options.subscription stream)) :=
    ⟨r, hr, _, hevent, rfl⟩
  obtain ⟨later, earlier, hsplit⟩ := List.append_of_mem hr
  obtain ⟨found, hleg⟩ := (h.begins haim hr hevent).2 hopen
  obtain ⟨-, -, -, hfound, -⟩ := h.looked haim ⟨later, hsplit.symm⟩ hleg
  have hsnapshot : r.move.1.snapshot = r.before.snapshot := h.snapshot_kept hr (by rw [hevent]; rfl)
  rw [hsnapshot] at hfound
  obtain rfl : found = some a := hfound.trans hroute
  exact h.way_of_cached hb haim (List.mem_filterMap.2 ⟨r, hr, hleg⟩)

theorem step_createStream_invalid (draw : Nat) (hopen : c.closed = false)
    (hs : c.calls.get? id = none) {f : CallError} (hinvalid : o.creation name = .error f) :
    step draw c (.start id (.createStream name o)) = (c, [.finish id (.error f)]) := by
  have hfinish : start draw c id (.createStream name o) = c.finish id (.error f) := by
    simp [start, hopen, openCall, hinvalid]
  rw [step, hfinish, finish, Table.erase_of_none hs]

theorem Run.refused (h : Run settings now history c) {r : Record} (hr : r ∈ history)
    (hevent : r.event = .start id (.createStream name o)) (hopen : r.before.closed = false)
    {f : CallError} (hinvalid : o.creation name = .error f) : Refused history c id f := by
  refine h.since_start (P := fun history c => Refused history c id f) hr hevent ?_ ?_
  · intro earlier hrun hp
    have hs := hrun.keeps.call_of_new hp.1
    have hstep := step_createStream_invalid r.draw hopen hs hinvalid
    exact {
      gone := by rw [hstep]; exact hs
      unsent := by
        rw [letters_cons, hstep, hrun.letters_of_new hp.1]
        cases r.before.hears? id (.start id (.createStream name o)) <;> rfl
      undialed := by
        rw [dialings_cons, hstep, hrun.dialings_of_new hp.1]
        rfl
      unrenewed := by
        rw [renewals_same (.inr (by rw [hstep]; simp [goal?_of_gone hs])),
          hrun.renewals_of_new hp.1]
      unbrought := (brought_same fun _ => rfl).trans (hrun.brought_of_new hp.1)
      finish := by
        apply List.mem_append_right
        rw [Record.move, hstep]
        exact List.mem_singleton_self _ }
  · intro earlier before e draw hrun hp _ hid ih
    have hcalls := (hrun.gone draw hp ih.gone hid).1
    have hstart := hp.not_start hid
    exact {
      gone := hcalls
      unsent := (hrun.letters_of_gone draw ih.gone hstart).trans ih.unsent
      undialed := (hrun.dialings_of_gone draw hp ih.gone hstart).trans ih.undialed
      unrenewed := (renewals_same (.inr (by simp [goal?_of_gone hcalls]))).trans ih.unrenewed
      unbrought := (brought_same (hrun.unfetched_of_gone ih.gone)).trans ih.unbrought
      finish := mem_trail_cons ih.finish }

theorem divides_of_silent (hcount : renewals history id = 0) (hletters : letters history id = []) :
    Divides total creation history id := by
  refine divides_of_creating hcount ?_ ?_
  · rw [hletters]
    exact repeats_nil total _
  · rw [hletters]
    rintro reply ⟨l, t, hl, -⟩
    cases hl

theorem Run.divides (h : Run settings now history c) (hb : settings.bootstrap ≠ []) {r : Record}
    (hr : r ∈ history) (hevent : r.event = .start id (.createStream name o))
    (hopen : r.before.closed = false)
    (hvalid : ∀ made, o.creation name = .ok made → made = creation) {earlier : History}
    (hsuffix : earlier <:+ history) : Divides (max settings.attempts 1) creation earlier id := by
  obtain ⟨later, rfl⟩ := hsuffix
  obtain ⟨c', hrun⟩ := h.of_append
  by_cases hid : id ∈ started earlier
  · have hr' := h.mem_of_started hr hevent hid
    cases hmade : o.creation name with
    | ok made =>
      obtain rfl := hvalid made hmade
      exact (hrun.creates hb hr' hevent hopen hmade).divides
    | error f =>
      have hrefused := hrun.refused hr' hevent hopen hmade
      exact divides_of_silent hrefused.unrenewed hrefused.unsent
  · exact divides_of_silent (hrun.renewals_of_new hid) (hrun.letters_of_new hid)

theorem Divides.renews_iff {r : Record} {earlier : History}
    (h : Divides total creation (r :: earlier) id) (h' : Divides total creation earlier id) :
    r.renews id = true ↔ (∃ reply, Answered (creations (r :: earlier) id) reply) ∧
      ∀ reply, ¬ Answered (creations earlier id) reply := by
  have hcons : renewals (r :: earlier) id = renewals earlier id + if r.renews id then 1 else 0 :=
    List.countP_cons ..
  rcases h.renewals_iff with ⟨hanswered, hafter⟩ | ⟨hunanswered, hafter, -⟩ <;>
    rcases h'.renewals_iff with ⟨⟨reply, hearlier⟩, hbefore⟩ | ⟨hearlier, hbefore, -⟩ <;>
    rw [hafter, hbefore] at hcons
  · refine iff_of_false (fun hrenews => ?_) fun hnone => hnone.2 reply hearlier
    rw [if_pos hrenews] at hcons
    cases hcons
  · refine iff_of_true ?_ ⟨hanswered, hearlier⟩
    by_contra hrenews
    rw [if_neg hrenews] at hcons
    cases hcons
  · split at hcons <;> cases hcons
  · refine iff_of_false (fun hrenews => ?_) fun hsome => hsome.1.elim hunanswered
    rw [if_pos hrenews] at hcons
    cases hcons

theorem Divides.renewed_iff (h : Divides total creation history id) :
    renewals history id = 1 ↔ ∃ reply, Answered (creations history id) reply := by
  rcases h.renewals_iff with ⟨hanswered, hcount⟩ | ⟨hunanswered, hcount, -⟩
  · exact iff_of_true hcount hanswered
  · exact iff_of_false (by simp [hcount]) (not_exists.2 hunanswered)

theorem Run.result_iff (h : Run settings now history c) (hb : settings.bootstrap ≠ []) {r : Record}
    (hr : r ∈ history) (hevent : r.event = .start id (.createStream name o))
    (hopen : r.before.closed = false) {out : Except CallError Outcome}
    (hout : .finish id out ∈ trail history) :
    out = .ok .done ∧ renewals history id = 1 ∧ (∃ creation, o.creation name = .ok creation) ∨
      (∃ f, out = .error f) ∧ renewals history id = 0 := by
  cases hmade : o.creation name with
  | error f =>
    have hrefused := h.refused hr hevent hopen hmade
    exact .inr ⟨⟨f, ((h.life id).finish _ hrefused.finish).2.2 _ hout⟩, hrefused.unrenewed⟩
  | ok creation =>
    have hcreates := h.creates hb hr hevent hopen hmade
    rcases hcreates.finished (h.life id) hout with ⟨hanswered, hdone⟩ | ⟨hunanswered, f, hf⟩
    · exact .inl ⟨hdone, hcreates.divides.renewed_iff.2 hanswered, creation, rfl⟩
    · rcases hcreates.divides.renewals_iff with ⟨⟨reply, hreply⟩, -⟩ | ⟨-, hcount, -⟩
      · exact absurd hreply (hunanswered reply)
      · exact .inr ⟨⟨_, hf⟩, hcount⟩

theorem Creates.returns (h : Creates total name creation history c id)
    (hs : c.calls.get? id = none) :
    (∃ out, .finish id out ∈ trail history) ∨ ∃ r ∈ history, r.event = .abandon id := by
  cases h with
  | asks due j hs' | renews _ _ _ due j hs' => cases hs.symm.trans hs'
  | failed f _ _ hfinish => exact .inl ⟨_, hfinish⟩
  | returned _ _ _ _ _ _ _ _ hfinish => exact .inl ⟨_, hfinish⟩
  | abandoned _ _ habandoned => exact .inr habandoned

theorem Creates.goes_on (h : Creates total name creation history c id)
    (hcount : renewals history id = 1) : c.goal? id = some .created ∨
      .finish id (.ok .done) ∈ trail history ∨ ∃ r ∈ history, r.event = .abandon id := by
  cases h with
  | asks _ _ _ _ _ hnone | failed _ _ _ _ hnone => cases hcount.symm.trans hnone
  | renews _ _ _ due j hs => exact .inl (goal?_of_linking hs)
  | returned _ _ _ _ _ _ _ _ hfinish => exact .inr (.inl hfinish)
  | abandoned _ _ habandoned => exact .inr (.inr habandoned)

theorem Creates.brought_of_answered (h : Creates total name creation history c id) {reply : Reply}
    (hreply : Answered (inquiries history id) reply) : reply.topology ∈ brought history id := by
  have hcount : renewals history id ≠ 0 := by
    rcases h.divides.renewals_iff with ⟨-, hcount⟩ | ⟨-, -, hnone⟩
    · simp [hcount]
    · obtain ⟨l, t, hl, -⟩ := hreply
      rw [hnone] at hl
      cases hl
  cases h with
  | asks _ _ _ _ _ hnone | failed _ _ _ _ hnone => exact absurd hnone hcount
  | renews made fetched _ due j _ _ hletters hmade hfetched =>
    obtain ⟨-, heq⟩ := creations_of_letters hletters hmade.repeats hfetched.repeats
    exact absurd (heq ▸ hreply) (hfetched.not_answered reply)
  | returned made fetched _ r _ hletters hmade hfetched _ _ hbrought =>
    obtain ⟨-, heq⟩ := creations_of_letters hletters hmade.repeats hfetched.repeats
    obtain rfl := (hfetched.answered_iff reply).2 (heq ▸ hreply)
    rw [hbrought]
    exact List.mem_singleton_self _
  | abandoned _ _ _ hsends _ =>
    generalize hletters : letters history id = sent at hsends
    generalize renewals history id = n at hsends hcount
    cases hsends with
    | creating => exact absurd rfl hcount
    | renewing made fetched _ hmade hfetched hunanswered =>
      obtain ⟨-, heq⟩ := creations_of_letters hletters hmade.repeats hfetched
      exact absurd (heq ▸ hreply) (hunanswered reply)

theorem Run.brought_iff (h : Run settings now history c) (hb : settings.bootstrap ≠ []) {r : Record}
    (hr : r ∈ history) (hevent : r.event = .start id (.createStream name o))
    (hopen : r.before.closed = false) {t : Topology} : t ∈ brought history id ↔
      ∃ reply, Answered (inquiries history id) reply ∧ reply.topology = t := by
  cases hmade : o.creation name with
  | ok creation =>
    have hcreates := h.creates hb hr hevent hopen hmade
    refine ⟨hcreates.mem_brought, ?_⟩
    rintro ⟨reply, hreply, rfl⟩
    exact hcreates.brought_of_answered hreply
  | error f =>
    have hrefused := h.refused hr hevent hopen hmade
    refine iff_of_false (by simp [hrefused.unbrought]) ?_
    rintro ⟨reply, ⟨l, t, hl, -⟩, -⟩
    rw [inquiries, hrefused.unsent] at hl
    cases hl

theorem mem_brought {t : Topology} : t ∈ brought history id ↔
    ∃ r ∈ history, r.event.caller? = some id ∧ r.before.fetched? r.event = some t := by
  simp [brought, List.mem_filterMap]

theorem Run.renewed (h : Run settings now history c) {r r' : Record} (hr : r ∈ history)
    (hevent : r.event = .start id (.createStream name o)) (hr' : r' ∈ history)
    (hid : r'.event.caller? = some id) {t : Topology} (ht : r'.before.fetched? r'.event = some t) :
    r'.move.1.snapshot = .ofTopology settings.bootstrap t ∧
      ∃ out, .finish id (.ok out) ∈ r'.move.2 := by
  obtain ⟨later, earlier, rfl⟩ := List.append_of_mem hr'
  have hsuffix : r' :: earlier <:+ later ++ r' :: earlier := List.suffix_append ..
  obtain ⟨hrun, hp⟩ := h.of_suffix hsuffix
  have hinforms := (hrun.deals r'.draw r'.event).informs
  refine ⟨?_, ?_⟩
  · rw [Record.move, hinforms.snapshot, informed_of_some ht, install, hrun.settings_eq]
  · have hlooks : r'.before.looksUp? r'.event = none := by
      refine Option.eq_none_iff_forall_ne_some.2 ?_
      rintro ⟨k, s, left⟩ hl
      obtain rfl := Option.some.inj ((caller?_of_looksUp? hl).symm.trans hid)
      have haimed := (hrun.looks_up r'.draw hp hl).1.of_suffix hsuffix
      cases (h.life k).aims _ _ haimed ⟨r, hr, _, hevent, rfl⟩
    obtain ⟨k, out, hk, hfinish⟩ := hinforms.returns hlooks (by simp [ht])
    obtain rfl := Option.some.inj (hk.symm.trans hid)
    exact ⟨out, hfinish⟩

theorem Run.found_in_last (h : Run settings now history c) (hb : settings.bootstrap ≠ [])
    {later between earlier : History} {s r' : Record} {t : Topology}
    (hsplit : history = later ++ s :: (between ++ r' :: earlier))
    (ht : r'.before.fetched? r'.event = some t)
    (hquiet : ∀ x ∈ between, x.before.fetched? x.event = none) {stream : String}
    {options : SubscribeOptions} (hevent : s.event = .start id (.subscribe stream options))
    (hopen : s.before.closed = false) {p : Topology.Partition} {l : String} {b : Broker}
    (hp : t.NamesPartition stream options.partition p) (hl : p.leader = some l)
    (hbroker : t.NamesBroker l b) :
    (∃ a, way history id = [.looks s.before.now none (some a)]) ∧
      ∀ x ∈ history, ¬ x.move.1.Resolving id := by
  have hsuffix : s :: (between ++ r' :: earlier) <:+ history := ⟨later, hsplit.symm⟩
  obtain ⟨hrun, -⟩ := h.of_suffix hsuffix
  have hlast : fetches (r' :: earlier) = t :: fetches earlier := List.filterMap_cons_some ht
  have hsnapshot : s.before.snapshot = .ofTopology settings.bootstrap t := by
    rw [hrun.snapshot_eq, lastSnapshot, fetches_append, fetches_eq_nil hquiet, hlast]
    rfl
  obtain ⟨a, ha⟩ := route_of_listed settings.bootstrap (s := options.subscription stream) hp hl
    hbroker s.draw
  have hroute : s.before.snapshot.route stream options.partition options.readIsrReplica s.draw =
      some a := hsnapshot ▸ ha
  obtain ⟨hway, hnever⟩ := h.way_of_found hb (hsuffix.subset (List.mem_cons_self ..)) hevent hopen
    hroute
  exact ⟨⟨a, hway⟩, hnever⟩

theorem Run.result_of_settled {later later' upTo : History} {c' : Client} {r : Record}
    (h : Run settings now (later ++ upTo) c) (h' : Run settings now (later' ++ upTo) c')
    (hb : settings.bootstrap ≠ []) (hr : r ∈ later ++ upTo)
    (hevent : r.event = .start id (.createStream name o)) (hopen : r.before.closed = false)
    (hsettled : renewals upTo id = 1 ∨ ∃ out, .finish id out ∈ trail upTo)
    {out out' : Except CallError Outcome} (hout : .finish id out ∈ trail (later ++ upTo))
    (hout' : .finish id out' ∈ trail (later' ++ upTo)) : out = out' := by
  obtain ⟨c'', hrun⟩ := h.of_append
  have hgrows (later : History) {x : Effect} (hx : x ∈ trail upTo) : x ∈ trail (later ++ upTo) := by
    obtain ⟨y, hy, hxy⟩ := mem_trail.1 hx
    exact mem_trail.2 ⟨y, List.mem_append_right _ hy, hxy⟩
  have hcounts (later : History) : renewals (later ++ upTo) id =
      renewals later id + renewals upTo id := List.countP_append ..
  rcases hsettled with hcount | ⟨first, hfirst⟩
  · have hid : id ∈ started upTo := by
      by_contra hnew
      cases hcount.symm.trans (hrun.renewals_of_new hnew)
    have hr' := h.mem_of_started hr hevent hid
    have hdone {later : History} {c : Client} {out : Except CallError Outcome}
        (h : Run settings now (later ++ upTo) c) (hout : .finish id out ∈ trail (later ++ upTo)) :
        out = .ok .done := by
      rcases h.result_iff hb (List.mem_append_right _ hr') hevent hopen hout with
        ⟨hdone, -, -⟩ | ⟨-, hnone⟩
      · exact hdone
      · rw [hcounts, hcount] at hnone
        cases hnone
    rw [hdone h hout, hdone h' hout']
  · rw [((h.life id).finish _ (hgrows later hfirst)).2.2 _ hout,
      ((h'.life id).finish _ (hgrows later' hfirst)).2.2 _ hout']

/-- What comes of a call that starts in `r` to create the stream `name`. -/
structure CreateLaw (settings : Settings) (now : Nat) (history : History) (c : Client) (r : Record)
    (id : CallId) (name : String) (o : CreateOptions) : Prop where
  /-- Options that are not valid end the call as it starts; nothing is dialed, sent or changed. -/
  refused : ∀ f, o.creation name = .error f →
    r.move = (r.before, [.finish id (.error f)]) ∧ letters history id = [] ∧
      dialings history id = [] ∧ ∀ out, .finish id out ∈ trail history → out = .error f
  /-- Otherwise the stream is asked for and then the metadata, each with attempts of its own. -/
  asks : letters history id = inquiries history id ++ creations history id ∧
    Repeats (max settings.attempts 1) .fetchMetadata (inquiries history id) ∧
    ∀ creation, o.creation name = .ok creation →
      Repeats (max settings.attempts 1) (.createStream creation) (creations history id)
  succeeds : ∀ out, .finish id out ∈ trail history →
    (out = .ok .done ↔ (∃ creation, o.creation name = .ok creation) ∧
      ∃ reply, Answered (creations history id) reply) ∧ (out = .ok .done ∨ ∃ f, out = .error f)
  returns : c.calls.get? id = none →
    (∃ out, .finish id out ∈ trail history) ∨ ∃ r' ∈ history, r'.event = .abandon id
  once : (∃ reply, Answered (creations history id) reply) → renewals history id = 1
  prompt : ∀ r' earlier, r' :: earlier <:+ history →
    (r'.renews id = true ↔ (∃ reply, Answered (creations (r' :: earlier) id) reply) ∧
      ∀ reply, ¬ Answered (creations earlier id) reply)
  never : (∀ reply, ¬ Answered (creations history id) reply) →
    renewals history id = 0 ∧ inquiries history id = []
  succeeding : (∃ reply, Answered (creations history id) reply) → c.goal? id = some .created ∨
    .finish id (.ok .done) ∈ trail history ∨ ∃ r' ∈ history, r'.event = .abandon id
  /-- The refresh is over when the metadata come, when a broker refuses them and when no attempt is
  left. The call succeeds in each case. -/
  whole : ∀ r' earlier, r' :: earlier <:+ history → r'.before.goal? id = some .created →
    r'.move.1.goal? id ≠ some .created → r'.event = .abandon id ∨
      .finish id (.ok .done) ∈ r'.move.2 ∧
        ((∃ reply, r'.event = .answered (.caller id) (.ok reply)) ∨
          ∃ f, ((r'.before.mishap? id r'.event).toList ++ setbacks earlier id).head? = some f ∧
            (f.isUnavailable = true →
              ((r'.before.mishap? id r'.event).toList ++ setbacks earlier id).length =
                max settings.attempts 1))
  kept : (∀ reply, ¬ Answered (inquiries history id) reply) →
    ∀ r' ∈ history, r'.event.caller? = some id → r'.move.1.snapshot = r'.before.snapshot
  /-- Without metadata the snapshot is the one from before, unless another call was brought a new
  one. -/
  unchanged : (∀ reply, ¬ Answered (inquiries history id) reply) →
    ∀ later earlier, history = later ++ r :: earlier →
      (∀ x ∈ later, x.event.caller? ≠ some id → x.before.fetched? x.event = none) →
        c.snapshot = r.before.snapshot ∧ c.snapshot.addresses = r.before.snapshot.addresses
  renewed : ∀ reply, Answered (inquiries history id) reply → ∃ r' ∈ history,
    r'.event.caller? = some id ∧ r'.before.fetched? r'.event = some reply.topology ∧
      r'.move.1.snapshot = .ofTopology settings.bootstrap reply.topology ∧
        .finish id (.ok .done) ∈ r'.move.2
  /-- After the renewal a subscription finds a partition with a listed leader in it, without a
  refresh of its own. -/
  found : ∀ later s between r' earlier, history = later ++ s :: (between ++ r' :: earlier) →
    r'.event.caller? = some id → ∀ t, r'.before.fetched? r'.event = some t →
      (∀ x ∈ between, x.before.fetched? x.event = none) →
        ∀ k stream options, s.event = .start k (.subscribe stream options) →
          s.before.closed = false → ∀ p l b, t.NamesPartition stream options.partition p →
            p.leader = some l → t.NamesBroker l b →
              (∃ a, way history k = [.looks s.before.now none (some a)]) ∧
                ∀ x ∈ history, ¬ x.move.1.Resolving k
  /-- Runs that part after the stream was created, or after the call has returned, come to the same
  result. -/
  same : ∀ later upTo, history = later ++ upTo →
    ((∃ reply, Answered (creations upTo id) reply) ∨ ∃ out, .finish id out ∈ trail upTo) →
      ∀ later' c', Run settings now (later' ++ upTo) c' → ∀ out out',
        .finish id out ∈ trail history → .finish id out' ∈ trail (later' ++ upTo) → out = out'

/-- Over every run of a client with a bootstrap list that the build accepts, whatever state an open
client is in, whatever the options are and whatever dials and brokers come to: the result of a call
that creates a stream says whether the stream was created, and the refresh after that is nothing to
it. The dialer keeps to `Fresh`. -/
theorem Run.create_law (h : Run settings now history c) (hb : settings.bootstrap ≠ []) {r : Record}
    (hr : r ∈ history) (hevent : r.event = .start id (.createStream name o))
    (hopen : r.before.closed = false) : CreateLaw settings now history c r id name o := by
  -- options that are not valid stand for any request, as nothing is sent
  obtain ⟨creation, hvalid⟩ : ∃ creation, ∀ made, o.creation name = .ok made → made = creation := by
    cases o.creation name with
    | ok creation => exact ⟨creation, fun made hmade => (Except.ok.inj hmade).symm⟩
    | error f => exact ⟨⟨"", "", 0, "", 0⟩, fun made hmade => by cases hmade⟩
  have hdivides {upTo : History} (hsuffix : upTo <:+ history) :
      Divides (max settings.attempts 1) creation upTo id :=
    h.divides hb hr hevent hopen hvalid hsuffix
  have hall := hdivides List.suffix_rfl
  have hbrought {t : Topology} := h.brought_iff (t := t) hb hr hevent hopen
  have hsilent (hnone : ∀ reply, ¬ Answered (inquiries history id) reply) {x : Record}
      (hx : x ∈ history) (hid : x.event.caller? = some id) :
      x.before.fetched? x.event = none := by
    refine Option.eq_none_iff_forall_ne_some.2 fun t ht => ?_
    obtain ⟨reply, hreply, -⟩ := hbrought.1 (mem_brought.2 ⟨x, hx, hid, ht⟩)
    exact hnone reply hreply
  exact {
    refused := fun f hf => by
      have hrefused := h.refused hr hevent hopen hf
      obtain ⟨earlier, hrun, hp⟩ := h.of_mem hr
      rw [hevent] at hp
      refine ⟨?_, hrefused.unsent, hrefused.undialed, ((h.life id).finish _ hrefused.finish).2.2⟩
      rw [Record.move, hevent]
      exact step_createStream_invalid r.draw hopen (hrun.keeps.call_of_new hp.1) hf
    asks := by
      obtain ⟨hletters, hfetched, hmade⟩ := hall.letters_eq
      exact ⟨hletters, hfetched, fun made hvalid' => hvalid made hvalid' ▸ hmade⟩
    succeeds := fun out hout => by
      rcases h.result_iff hb hr hevent hopen hout with ⟨rfl, hcount, hoptions⟩ | ⟨⟨f, rfl⟩, hcount⟩
      · exact ⟨iff_of_true rfl ⟨hoptions, hall.renewed_iff.1 hcount⟩, .inl rfl⟩
      · refine ⟨iff_of_false (by simp) fun hcreated => ?_, .inr ⟨f, rfl⟩⟩
        cases hcount.symm.trans (hall.renewed_iff.2 hcreated.2)
    returns := fun hs => by
      cases hmade : o.creation name with
      | ok made => exact (h.creates hb hr hevent hopen hmade).returns hs
      | error f => exact .inl ⟨_, (h.refused hr hevent hopen hmade).finish⟩
    once := hall.renewed_iff.2
    prompt := fun r' earlier hsuffix =>
      (hdivides hsuffix).renews_iff (hdivides ((List.suffix_cons ..).trans hsuffix))
    never := fun hnone => by
      rcases hall.renewals_iff with ⟨⟨reply, hreply⟩, -⟩ | ⟨-, hnever⟩
      · exact absurd hreply (hnone reply)
      · exact hnever
    succeeding := fun hanswered => by
      have hcount := hall.renewed_iff.2 hanswered
      cases hmade : o.creation name with
      | ok made => exact (h.creates hb hr hevent hopen hmade).goes_on hcount
      | error f => cases hcount.symm.trans (h.refused hr hevent hopen hmade).unrenewed
    whole := fun r' earlier hsuffix hbefore hafter => by
      obtain ⟨hrun, hp⟩ := h.of_suffix hsuffix
      exact hrun.renewal_ends hb r'.draw hp hbefore hafter
    kept := fun hnone r' hr' hid => h.snapshot_kept hr' (hsilent hnone hr' hid)
    unchanged := fun hnone later earlier hsplit hothers => by
      have hsuffix : r :: earlier <:+ history := ⟨later, hsplit.symm⟩
      obtain ⟨hrun, hp⟩ := h.of_suffix hsuffix
      have hquiet : ∀ x ∈ later, x.before.fetched? x.event = none := fun x hx => by
        by_cases hid : x.event.caller? = some id
        · exact hsilent hnone (hsplit ▸ List.mem_append_left _ hx) hid
        · exact hothers x hx hid
      have hsame : c.snapshot = r.before.snapshot := by
        rw [hsplit] at h
        refine (h.snapshot_of_quiet (hrun.next r.draw hp) hquiet).trans ?_
        exact (hrun.next r.draw hp).snapshot_kept (List.mem_cons_self ..) (by rw [hevent]; rfl)
      exact ⟨hsame, by rw [hsame]⟩
    renewed := fun reply hreply => by
      obtain ⟨r', hr', hid, ht⟩ := mem_brought.1 (hbrought.2 ⟨reply, hreply, rfl⟩)
      obtain ⟨hsnapshot, out, hfinish⟩ := h.renewed hr hevent hr' hid ht
      rcases h.result_iff hb hr hevent hopen (mem_trail.2 ⟨r', hr', hfinish⟩) with
        ⟨hdone, -, -⟩ | ⟨⟨f, hf⟩, -⟩
      · exact ⟨r', hr', hid, ht, hsnapshot, hdone ▸ hfinish⟩
      · cases hf
    found := fun later s between r' earlier hsplit _ t ht hquiet k stream options hstart hopen' p l
        b hp hl hbroker =>
      h.found_in_last hb hsplit ht hquiet hstart hopen' hp hl hbroker
    same := fun later upTo hsplit hsettled later' c' h' out out' hout hout' => by
      have hcount := hsettled.imp_left (hdivides ⟨later, hsplit.symm⟩).renewed_iff.2
      subst hsplit
      exact h.result_of_settled h' hb hr hevent hopen hcount hout hout' }

end Renewal

/-- A stream is created in the second attempt. The metadata are asked for on the same connection,
which fails, and nobody else can be reached. -/
def outdated : List (Nat × Event) :=
  [(0, .start 0 .connect), (0, .dialed 0 (.ok 1)),
    (0, .answered (.caller 0) (.ok { topology := { brokers := [⟨"b1", "b", 2⟩] } })),
    (0, .start 1 (.createStream "s" {})), (1, .answered (.caller 1) (.error (.unavailable "gone"))),
    (0, .dialed 1 (.ok 2)), (0, .answered (.caller 1) (.ok {})),
    (0, .answered (.caller 1) (.error (.unavailable "gone"))),
    (0, .dialed 1 (.error (.unavailable "refused")))]

theorem create_law_outdated :
    ∃ s, play ([], .fresh { bootstrap := ["a:1"], attempts := 2 } 0) outdated = some s ∧
      (∃ r, CreateLaw { bootstrap := ["a:1"], attempts := 2 } 0 s.1 s.2 r 1 "s" {}) ∧
      .finish 1 (.ok .done) ∈ trail s.1 ∧ (creations s.1 1).map Letter.conn = [2, 1] ∧
      (inquiries s.1 1).map Letter.conn = [2] ∧ s.2.snapshot.addresses = ["a:1", "b:2"] := by
  have hends : (play ([], .fresh { bootstrap := ["a:1"], attempts := 2 } 0) outdated).map
      (fun s => decide ((∃ r ∈ s.1, r.event = .start 1 (.createStream "s" {}) ∧
          r.before.closed = false) ∧ .finish 1 (.ok .done) ∈ trail s.1 ∧
        (creations s.1 1).map Letter.conn = [2, 1] ∧ (inquiries s.1 1).map Letter.conn = [2] ∧
        s.2.snapshot.addresses = ["a:1", "b:2"])) = some true := by
    decide +kernel
  obtain ⟨s, hs, hrun, ⟨r, hr, hevent, hopen⟩, hfacts⟩ := exists_run hends
  exact ⟨s, hs, ⟨r, hrun.create_law (by simp) hr hevent hopen⟩, hfacts⟩

end StreamClient.Client
