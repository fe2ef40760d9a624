import StreamClient.Proofs.Client.Purposes
import StreamClient.Proofs.Snapshot

/-! The snapshot of a client, which is that of the last answer to a metadata request, and the
addresses that are dialed by it. -/

namespace StreamClient.Client

def fetches (history : History) : List Topology :=
  history.filterMap fun r => r.before.fetched? r.event

/-- The snapshot of the last answer, or what is known without any. -/
def lastSnapshot (settings : Settings) (history : History) : Snapshot :=
  match (fetches history).head? with
  | some t => .ofTopology settings.bootstrap t
  | none => .initial settings.bootstrap

def Op.fetches : Op → Bool
  | .connect | .createStream .. | .subscribe .. | .fetchMetadata => true
  | _ => false

/-- What an event does to the snapshot, and by which snapshot it dials. -/
structure Informs (draw : Nat) (c : Client) (e : Event) (m : Move) : Prop where
  settings : m.1.settings = c.settings
  snapshot : m.1.snapshot = (c.informed e).snapshot
  refreshed : ∀ k s, .finish k (.ok (.refreshed s)) ∈ m.2 →
    (c.fetched? e).isSome ∧ s = m.1.snapshot
  returns : c.looksUp? e = none → (c.fetched? e).isSome →
    ∃ id o, e.caller? = some id ∧ .finish id (.ok o) ∈ m.2
  asks : ∀ k q, m.1.asked k = some q → c.asked k = some q ∨ ∃ conn, .call (.caller k) conn q ∈ m.2
  dials : ∀ k a, .dial k a ∈ m.2 →
    (m.1.pick draw = some a ∧ ∃ goal due, m.1.calls.get? k = some (.linking goal due)) ∨
    (a ∈ c.settings.bootstrap ∧ ∃ rest, m.1.calls.get? k = some (.probing rest)) ∨
    ∃ s, m.1.calls.get? k = some (.joining s a) ∧
      m.1.snapshot.route s.stream s.partition s.readIsrReplica draw = some a

section Informs

variable {draw : Nat} {c : Client} {e : Event} {m : Move} {id : CallId}

theorem informed_of_none (h : c.fetched? e = none) : c.informed e = c := by
  rw [informed, h]

theorem informed_of_some {t : Topology} (h : c.fetched? e = some t) :
    c.informed e = c.install t := by
  rw [informed, h]

theorem informs_of_same (hf : c.fetched? e = none) (hsettings : m.1.settings = c.settings)
    (hsnapshot : m.1.snapshot = c.snapshot)
    (hrefreshed : ∀ k s, .finish k (.ok (.refreshed s)) ∉ m.2)
    (hasks : ∀ k q, m.1.asked k = some q →
      c.asked k = some q ∨ ∃ conn, .call (.caller k) conn q ∈ m.2)
    (hdials : ∀ k a, .dial k a ∈ m.2 →
      (c.pick draw = some a ∧ ∃ goal due, m.1.calls.get? k = some (.linking goal due)) ∨
      (a ∈ c.settings.bootstrap ∧ ∃ rest, m.1.calls.get? k = some (.probing rest))) :
    Informs draw c e m where
  settings := hsettings
  snapshot := by rw [informed_of_none hf, hsnapshot]
  refreshed k s hs := absurd hs (hrefreshed k s)
  returns _ h := by simp [hf] at h
  asks := hasks
  dials k a hd := by
    rw [pick, hsnapshot]
    exact (hdials k a hd).imp_right .inl

theorem informs_of_quiet (hf : c.fetched? e = none) (hsettings : m.1.settings = c.settings)
    (hsnapshot : m.1.snapshot = c.snapshot) (hlink : m.1.link = c.link) (hquiet : Quiet m.2) :
    Informs draw c e m := by
  refine informs_of_same hf hsettings hsnapshot hquiet.refreshed (fun k q hq => ?_)
    fun k a hd => ?_
  · rw [asked, hlink] at hq
    exact .inl hq
  rw [← mem_dials, hquiet.dials] at hd
  cases hd

theorem Apart.asks_all (h : Apart draw id c m) (k : CallId) (q : Request)
    (hq : m.1.asked k = some q) : c.asked k = some q ∨ ∃ conn, .call (.caller k) conn q ∈ m.2 := by
  by_cases hk : k = id
  · exact hk ▸ h.asked q (hk ▸ hq)
  · rw [Client.asked, h.jobs k hk] at hq
    exact .inl hq

theorem Apart.informs (h : Apart draw id c m) (hf : c.fetched? e = none) :
    Informs draw c e m := by
  obtain ⟨link, calls, hframe⟩ := h.frame
  refine informs_of_same hf (by rw [hframe]) (by rw [hframe]) h.refreshed h.asks_all fun k a hd => ?_
  obtain ⟨rfl, hpick⟩ := h.dials k a (mem_dials.2 hd)
  exact hpick

theorem informs_close (hf : c.fetched? e = none) (hclosed : c.closed = false) :
    Informs draw c e (c.close id) := by
  have hclose := apart_close draw id hclosed
  obtain ⟨link, calls, hframe⟩ := hclose.frame
  refine informs_of_same hf (by rw [hframe]; rfl) (by rw [hframe]; rfl) hclose.refreshed
    hclose.asks_all fun k a hd => ?_
  obtain ⟨rfl, hpick⟩ := hclose.dials k a (mem_dials.2 hd)
  exact hpick

theorem Handles.informs (h : Handles draw c e m) (hf : c.fetched? e = none) :
    Informs draw c e m := by
  cases h with
  | call id _ h => exact h.informs hf
  | arrives id s a conn _ _ hm =>
    subst hm
    exact informs_of_quiet hf rfl rfl rfl ⟨rfl, by simp [launch]⟩
  | talks _ h =>
    obtain ⟨calls, sessions, hframe⟩ := h.frame
    exact informs_of_quiet hf (by rw [hframe]) (by rw [hframe]) (by rw [hframe]) h.quiet
  | leaves id s _ h =>
    obtain ⟨calls, sessions, hframe⟩ := h.frame
    exact informs_of_quiet hf (by rw [hframe]) (by rw [hframe]) (by rw [hframe]) h.quiet
  | shuts id _ hclosed hm => exact hm ▸ informs_close hf hclosed
  | ticks now _ hm =>
    subst hm
    exact informs_of_quiet hf rfl rfl rfl ⟨rfl, by simp [tick]⟩
  | expires _ hm =>
    subst hm
    exact informs_of_quiet hf rfl rfl rfl
      (quiet_flatMap_close c.pools.values fun p => (p.expire c.now).2)

theorem asked_forget {k : CallId} {q : Request}
    (h : asked { c with link := c.link.forget id } k = some q) : c.asked k = some q := by
  obtain ⟨e, conn, hj, he⟩ := asked_eq_some.1 h
  have hj' : (c.link.forget id).jobs.get? k = some (.calling e conn) := hj
  by_cases hk : k = id
  · simp [hk] at hj'
  · exact asked_eq_some.2 ⟨e, conn, by simpa [hk] using hj', he⟩

theorem informs_lookup {s : Subscription} {left : Nat} {link : Link Request}
    (hl : c.looksUp? e = some (id, s, left)) (hlink : link = c.link ∨ link = c.link.forget id) :
    Informs draw c e (lookup draw { c.informed e with link } id s left) := by
  have hfound {m : Move} (hframe : ∃ pools calls sessions,
        m.1 = { c with link, snapshot := (c.informed e).snapshot, pools, calls, sessions })
      (hrefreshed : ∀ k s', .finish k (.ok (.refreshed s')) ∉ m.2)
      (hdials : ∀ k a, .dial k a ∈ m.2 → ∃ s, m.1.calls.get? k = some (.joining s a) ∧
        (c.informed e).snapshot.route s.stream s.partition s.readIsrReplica draw = some a) :
      Informs draw c e m := by
    obtain ⟨pools, calls, sessions, hframe⟩ := hframe
    have hsnapshot : m.1.snapshot = (c.informed e).snapshot := by rw [hframe]
    refine {
      settings := by rw [hframe]
      snapshot := hsnapshot
      refreshed := fun k s' hs => absurd hs (hrefreshed k s')
      returns := fun h => by simp [hl] at h
      asks := fun k q hq => .inl ?_
      dials := fun k a hd => .inr (.inr (hsnapshot ▸ hdials k a hd)) }
    rw [hframe] at hq
    rcases hlink with rfl | rfl
    · exact hq
    · exact asked_forget hq
  rw [informed_frame c e]
  cases lookup_finds draw { c with link, snapshot := (c.informed e).snapshot } id s left with
  | nowhere _ _ hm | later n due _ _ hm | late a _ _ hm | reuses a conn p _ _ _ hm =>
    rw [hm]
    exact hfound ⟨_, _, _, rfl⟩ (by simp [finish, launch]) (by simp [finish, launch])
  | dials a hroute _ _ hm =>
    rw [hm]
    refine hfound ⟨_, _, _, rfl⟩ (by simp) fun k b hd => ?_
    obtain ⟨rfl, rfl⟩ : k = id ∧ b = a := by simpa using hd
    exact ⟨s, by simp, hroute⟩

theorem Deals.informs (h : Deals draw c e m) : Informs draw c e m := by
  cases h with
  | other hf _ h => exact h.informs hf
  | refresh id t o he hf hl ho hm =>
    subst hm
    exact {
      settings := rfl
      snapshot := by rw [informed_of_some hf]; rfl
      refreshed := fun k s hs => by
        obtain ⟨-, heq⟩ := Effect.finish.inj (List.mem_singleton.1 hs)
        exact ⟨by simp [hf], ho s (Except.ok.inj heq).symm⟩
      returns := fun _ _ => ⟨id, o, he, List.mem_singleton_self _⟩
      asks := fun k q hq => .inl (asked_forget hq)
      dials := fun k a hd => by simp [finish] at hd }
  | lookup id s left link hl hlink hm => exact hm ▸ informs_lookup hl hlink

end Informs

section Run

variable {settings : Settings} {now : Nat} {history : History} {c : Client}

theorem Run.settings_eq (h : Run settings now history c) : c.settings = settings := by
  induction h with
  | fresh => rfl
  | next draw hrun _ ih => exact (hrun.deals draw _).informs.settings.trans ih

theorem lastSnapshot_cons (hrun : c.snapshot = lastSnapshot settings history) (draw : Nat)
    (e : Event) (hsettings : c.settings = settings) :
    (c.informed e).snapshot = lastSnapshot settings (⟨c, draw, e⟩ :: history) := by
  cases hf : c.fetched? e with
  | none =>
    have hsame : fetches (⟨c, draw, e⟩ :: history) = fetches history :=
      List.filterMap_cons_none hf
    rw [informed_of_none hf, hrun, lastSnapshot, lastSnapshot, hsame]
  | some t =>
    have hnew : fetches (⟨c, draw, e⟩ :: history) = t :: fetches history :=
      List.filterMap_cons_some hf
    rw [informed_of_some hf, install, hsettings, lastSnapshot, hnew]
    rfl

theorem Run.snapshot_eq (h : Run settings now history c) :
    c.snapshot = lastSnapshot settings history := by
  induction h with
  | fresh => rfl
  | next draw hrun _ ih =>
    rw [(hrun.deals draw _).informs.snapshot]
    exact lastSnapshot_cons ih draw _ hrun.settings_eq

theorem Run.snapshot_kept (h : Run settings now history c) {r : Record} (hr : r ∈ history)
    (hf : r.before.fetched? r.event = none) : r.move.1.snapshot = r.before.snapshot := by
  obtain ⟨earlier, hrun, -⟩ := h.of_mem hr
  rw [Record.move, (hrun.deals r.draw r.event).informs.snapshot, informed_of_none hf]

theorem fetches_append (later earlier : History) :
    fetches (later ++ earlier) = fetches later ++ fetches earlier := List.filterMap_append ..

theorem fetches_eq_nil {later : History} (h : ∀ r ∈ later, r.before.fetched? r.event = none) :
    fetches later = [] := List.filterMap_eq_nil_iff.2 h

theorem Run.snapshot_of_quiet {later earlier : History} {c' : Client}
    (h : Run settings now (later ++ earlier) c) (h' : Run settings now earlier c')
    (hquiet : ∀ r ∈ later, r.before.fetched? r.event = none) : c.snapshot = c'.snapshot := by
  rw [h.snapshot_eq, h'.snapshot_eq, lastSnapshot, lastSnapshot, fetches_append,
    fetches_eq_nil hquiet, List.nil_append]

theorem Run.grounded (h : Run settings now history c) : c.snapshot.Grounded := by
  rw [h.snapshot_eq, lastSnapshot]
  split
  · exact Snapshot.grounded_ofTopology _ _
  · exact Snapshot.grounded_initial _

theorem exists_pick_iff (c : Client) (a : Address) :
    (∃ draw, c.pick draw = some a) ↔ a ∈ c.snapshot.addresses := by
  constructor
  · rintro ⟨draw, hpick⟩
    exact mem_of_choose hpick
  · intro ha
    obtain ⟨i, hi, rfl⟩ := List.getElem_of_mem ha
    exact ⟨i, choose_lt hi⟩

theorem fetched?_eq_some {e : Event} {t : Topology} : c.fetched? e = some t ↔
    ∃ id reply, e = .answered (.caller id) (.ok reply) ∧ c.asked id = some .fetchMetadata ∧
      reply.topology = t := by
  constructor
  · intro h
    unfold fetched? at h
    split at h
    · next id reply =>
      split at h
      · next hasked => exact ⟨id, reply, rfl, hasked, Option.some.inj h⟩
      · cases h
    · cases h
  · rintro ⟨id, reply, rfl, hasked, rfl⟩
    simp [fetched?, hasked]

theorem Run.issued (h : Run settings now history c) {id : CallId} {q : Request}
    (hq : c.asked id = some q) : ∃ conn, .call (.caller id) conn q ∈ trail history := by
  induction h with
  | fresh => cases hq
  | next draw hrun _ ih =>
    rcases (hrun.deals draw _).informs.asks id q hq with hbefore | ⟨conn, hcall⟩
    · obtain ⟨conn, hcall⟩ := ih hbefore
      exact ⟨conn, List.mem_append_left _ hcall⟩
    · exact ⟨conn, List.mem_append_right _ hcall⟩

theorem Run.asked_fetches (h : Run settings now history c) {id : CallId}
    (hq : c.asked id = some .fetchMetadata) :
    ∃ r ∈ history, ∃ op, r.event = .start id op ∧ op.fetches = true := by
  obtain ⟨e, conn, hj, hrequest⟩ := asked_eq_some.1 hq
  obtain ⟨goal, due, hstage⟩ := h.keeps.coherent.linking_of_job hj (by simp)
  obtain ⟨q, hwants, hgoal⟩ := h.sensible.wants id goal due hstage
  have hrefreshes : goal.refreshes = true :=
    hgoal.fetch_iff.1 ((hwants.request hj rfl).symm.trans hrequest)
  obtain ⟨r, hr, hevent⟩ := List.mem_filterMap.1 (h.keeps.known id (.inl (by simp [hstage])))
  cases hop : r.event with
  | start k op =>
    rw [hop] at hevent
    obtain rfl := Option.some.inj hevent
    refine ⟨r, hr, op, hop, ?_⟩
    have hpurpose : goal.purpose = op.purpose := (h.purposed ⟨r, hr, hop⟩).1 _ hstage
    cases goal <;> cases hrefreshes <;> cases op <;> first
      | rfl
      | cases hpurpose
  | _ =>
    rw [hop] at hevent
    cases hevent

theorem Run.failed_fetch (h : Run settings now history c) {id : CallId} {f : CallError}
    (hf : .finish id (.error f) ∈ trail history) {r : Record} (hr : r ∈ history)
    (hid : r.event.caller? = some id) (hl : r.before.looksUp? r.event = none) :
    r.before.fetched? r.event = none := by
  obtain ⟨earlier, hrun, -⟩ := h.of_mem hr
  by_contra hsome
  obtain ⟨k, o, hk, hfinish⟩ := (hrun.deals r.draw r.event).informs.returns hl
    (Option.isSome_iff_ne_none.2 hsome)
  obtain rfl := Option.some.inj (hk.symm.trans hid)
  -- it returned with that, and it returns once
  have hmem : .finish k (.ok o) ∈ trail history := mem_trail.2 ⟨r, hr, hfinish⟩
  cases ((h.life k).finish _ hf).2.2 _ hmem

/-- What holds of the snapshot of a client after every run. -/
structure SnapshotLaw (settings : Settings) (history : History) (c : Client) : Prop where
  last : c.snapshot = lastSnapshot settings history
  moments : ∀ r earlier, r :: earlier <:+ history →
    r.before.snapshot = lastSnapshot settings earlier ∧
    r.move.1.snapshot = lastSnapshot settings (r :: earlier)
  /-- An answer to a metadata request is to a call that is there for metadata. -/
  source : ∀ r earlier, r :: earlier <:+ history → (r.before.fetched? r.event).isSome →
    ∃ id conn, r.event.caller? = some id ∧ .call (.caller id) conn .fetchMetadata ∈ trail earlier ∧
      ∃ r' ∈ earlier, ∃ op, r'.event = .start id op ∧ op.fetches = true
  kept : ∀ r ∈ history, r.before.fetched? r.event = none → r.move.1.snapshot = r.before.snapshot
  failed : ∀ id f, .finish id (.error f) ∈ trail history → ∀ r ∈ history,
    r.event.caller? = some id → r.before.looksUp? r.event = none →
      r.before.fetched? r.event = none
  returned : ∀ r ∈ history, ∀ id s, .finish id (.ok (.refreshed s)) ∈ r.move.2 →
    ∃ t, r.before.fetched? r.event = some t ∧ s = .ofTopology settings.bootstrap t ∧
      r.move.1.snapshot = s
  fetched : ∀ id op, op = .connect ∨ op = .fetchMetadata →
    (∃ r ∈ history, r.event = .start id op) →
      ∀ o, .finish id (.ok o) ∈ trail history → ∃ s, o = .refreshed s
  /-- The next failover may go to every known address and to no other. -/
  choices : ∀ a, (∃ draw, c.pick draw = some a) ↔
    a ∈ settings.bootstrap ∨ ∃ id b, c.snapshot.broker? id = some b ∧ b.address = a
  dialed : ∀ r ∈ history, ∀ id a, .dial id a ∈ r.move.2 → a ∈ r.move.1.snapshot.addresses ∧
    ((∃ goal due, r.move.1.calls.get? id = some (.linking goal due)) →
      r.move.1.pick r.draw = some a)

/-- Over every run, also of calls that overlap and of calls that are given up: a client knows what
the last answer to a metadata request told it and nothing else, and dials by that. The dialer keeps
to `Fresh`. -/
theorem Run.snapshot_law (h : Run settings now history c) : SnapshotLaw settings history c where
  last := h.snapshot_eq
  moments r earlier hsuffix := by
    obtain ⟨hrun, hp⟩ := h.of_suffix hsuffix
    exact ⟨hrun.snapshot_eq, (hrun.next r.draw hp).snapshot_eq⟩
  source r earlier hsuffix hsome := by
    obtain ⟨hrun, -⟩ := h.of_suffix hsuffix
    obtain ⟨t, ht⟩ := Option.isSome_iff_exists.1 hsome
    obtain ⟨id, reply, hevent, hasked, -⟩ := fetched?_eq_some.1 ht
    obtain ⟨conn, hcall⟩ := hrun.issued hasked
    exact ⟨id, conn, by rw [hevent]; rfl, hcall, hrun.asked_fetches hasked⟩
  kept r hr hf := h.snapshot_kept hr hf
  failed id f hf r hr hid hl := h.failed_fetch hf hr hid hl
  returned r hr id s hs := by
    obtain ⟨earlier, hrun, -⟩ := h.of_mem hr
    have hinforms := (hrun.deals r.draw r.event).informs
    obtain ⟨hsome, rfl⟩ := hinforms.refreshed id s hs
    obtain ⟨t, ht⟩ := Option.isSome_iff_exists.1 hsome
    refine ⟨t, ht, ?_, rfl⟩
    rw [hinforms.snapshot, informed_of_some ht, install, hrun.settings_eq]
  fetched id op hop hstart o ho := by
    have hallows := (h.purposed hstart).2 o ho
    rcases hop with rfl | rfl <;> exact hallows
  choices a := by
    rw [exists_pick_iff, Snapshot.mem_addresses, h.sensible.bootstrap,
      Snapshot.mem_distinctAddresses, h.settings_eq]
  dialed r hr id a hd := by
    obtain ⟨earlier, hrun, hp⟩ := h.of_mem hr
    have hnext := hrun.next r.draw hp
    have hinforms := (hrun.deals r.draw r.event).informs
    rcases hinforms.dials id a hd with ⟨hpick, -⟩ | ⟨ha, rest, hstage⟩ | ⟨s, hstage, hroute⟩
    · exact ⟨mem_of_choose hpick, fun _ => hpick⟩
    · refine ⟨hnext.sensible.mem_addresses (hinforms.settings ▸ ha), ?_⟩
      rintro ⟨goal, due, hlinking⟩
      cases hstage.symm.trans hlinking
    · refine ⟨hnext.grounded.mem_addresses_of_route hroute, ?_⟩
      rintro ⟨goal, due, hlinking⟩
      cases hstage.symm.trans hlinking

end Run

/-- A client is built and hears of a second broker. Then its connection fails, and it turns to that
one. -/
def turning : List (Nat × Event) :=
  [(0, .start 0 .connect), (0, .dialed 0 (.ok 1)), (0, .answered (.caller 0) (.ok {})),
    (0, .start 1 .fetchMetadata),
    (0, .answered (.caller 1) (.ok { topology := { brokers := [⟨"b1", "b", 2⟩] } })),
    (0, .start 2 (.deleteStream "s")),
    (1, .answered (.caller 2) (.error (.unavailable "gone"))), (0, .dialed 2 (.ok 2))]

theorem snapshot_law_turning :
    ∃ s, play ([], .fresh { bootstrap := ["a:1"] } 0) turning = some s ∧
      SnapshotLaw { bootstrap := ["a:1"] } s.1 s.2 ∧
      dials (trail s.1) = [(0, "a:1"), (2, "b:2")] := by
  have hdials : (play ([], .fresh { bootstrap := ["a:1"] } 0) turning).map
      (fun s => decide (dials (trail s.1) = [(0, "a:1"), (2, "b:2")])) = some true := by
    decide +kernel
  obtain ⟨s, hs, hrun, hd⟩ := exists_run hdials
  exact ⟨s, hs, hrun.snapshot_law, hd⟩

end StreamClient.Client
