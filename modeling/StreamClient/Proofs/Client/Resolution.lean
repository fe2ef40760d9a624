import StreamClient.Proofs.Client.Delivery
import StreamClient.Proofs.Client.Search

/-! The resolution of a subscription: in which snapshots a subscribe call looks its partition up,
how often and when it refreshes the metadata, and what it returns if the partition stays unknown.
Until it is found nothing but metadata is asked for. -/

namespace StreamClient

namespace Session

def Deed.ask? : Deed → Option Subscription
  | .act (.ask s) => some s
  | _ => none

section Asks

variable {s : Session} {log : List Deed} {taken : List Signal}

theorem Story.asks (h : s.Story log taken) :
    log.filterMap Deed.ask? = [] ∨ log.filterMap Deed.ask? = [s.subscription] := by
  cases h with
  | fresh => exact .inl rfl
  | opening => exact .inr rfl
  | greeting => exact .inr rfl
  | streaming first messages =>
    have hmessages : (messages.map fun m => Deed.act (.deliver m)).filterMap Deed.ask? = [] := by
      simp [Deed.ask?]
    refine .inr ?_
    rw [List.filterMap_append, hmessages]
    rfl

theorem Ends.asks {e : Stimulus} {actions : List Action} {report : Option CallError}
    {signals : List Signal} (h : Ends s e actions report signals) :
    (actions.map Deed.act ++ s.farewell report).filterMap Deed.ask? = [] := by
  have hfarewell : (s.farewell report).filterMap Deed.ask? = [] := by
    cases report <;> rfl
  rw [List.filterMap_append, hfarewell, List.append_nil]
  cases h with
  | cancelled =>
    rw [leftovers]
    split <;> rfl
  | _ => rfl

theorem Stands.asks {sub : Subscription} {quit : Prop} {acquired : List (Address × Conn)}
    {s? : Option Session} (h : Stands sub quit acquired log taken s?) :
    log.filterMap Deed.ask? = [] ∨ log.filterMap Deed.ask? = [sub] := by
  cases h with
  | unborn => exact .inl rfl
  | running hsub _ hstory => exact hsub ▸ hstory.asks
  | ended hsub _ hstory hends =>
    rw [List.filterMap_append, hends.asks, List.append_nil]
    exact hsub ▸ hstory.asks

end Asks

end Session

namespace Client

open Session (Deed)

def Effect.request? (id : CallId) : Effect → Option Subscription
  | .call (.session k) _ (.subscribe s) => if k = id then some s else none
  | _ => none

def requested (effects : List Effect) (id : CallId) : List Subscription :=
  effects.filterMap (Effect.request? id)

section Resolution

variable {settings : Settings} {now : Nat} {history : History} {c : Client} {draw : Nat} {e : Event}
  {id : CallId} {s : Subscription}

theorem requested_eq_asks (effects : List Effect) (id : CallId) :
    requested effects id = (shown effects id).filterMap Deed.ask? := by
  rw [requested, shown, List.filterMap_filterMap]
  refine List.filterMap_congr fun x _ => ?_
  unfold Effect.request?
  split
  · simp only [Effect.deed?]
    split <;> rfl
  · next hcall =>
    unfold Effect.deed?
    split
    case h_1 => exact absurd rfl (hcall _ _ _)
    all_goals first | rfl | (split <;> rfl)

theorem asks_shown (log : List Deed) :
    (log.filter Deed.isShown).filterMap Deed.ask? = log.filterMap Deed.ask? := by
  rw [List.filterMap_filter]
  refine List.filterMap_congr fun d _ => ?_
  rcases d with (_ | _ | _ | _ | _) | _ | _ | _ | _ <;> rfl

theorem Lodges.requested_eq (h : Lodges history c id) :
    requested (trail history) id = (log history id).filterMap Deed.ask? := by
  rw [requested_eq_asks, h.shown, asks_shown]

theorem looksUp?_of_leg? {t : Nat} {answer : Option Topology} {found : Option Address}
    (h : Record.leg? id ⟨c, draw, e⟩ = some (.looks t answer found)) :
    ∃ s left, c.looksUp? e = some (id, s, left) ∧ t = c.now ∧ answer = c.fetched? e ∧
      found = (step draw c e).1.snapshot.route s.stream s.partition s.readIsrReplica draw := by
  unfold Record.leg? at h
  split at h
  · next k s left hl =>
    split at h
    · next hk =>
      subst hk
      obtain ⟨rfl, rfl, rfl⟩ := Leg.looks.inj (Option.some.inj h)
      refine ⟨s, left, hl, rfl, rfl, ?_⟩
      simp [Record.resolved?, Record.move, hl, Function.comp_def]
    · cases h
  · split at h
    · cases Option.some.inj h
    · cases h

theorem leg?_of_resolved? {a : Address} (h : Record.resolved? ⟨c, draw, e⟩ = some (id, s, a)) :
    Record.leg? id ⟨c, draw, e⟩ = some (.looks c.now (c.fetched? e) (some a)) := by
  obtain ⟨⟨left, hl⟩, -⟩ := looksUp?_of_resolved? h
  rw [leg?_of_looksUp? hl, h]
  rfl

theorem mem_way_of_resolved {a : Address} (h : Resolved history id s a) :
    ∃ t answer, .looks t answer (some a) ∈ way history id := by
  obtain ⟨r, hr, hresolved⟩ := h
  exact ⟨_, _, List.mem_filterMap.2 ⟨r, hr, leg?_of_resolved? hresolved⟩⟩

theorem Run.resolved_of_acquired (h : Run settings now history c)
    (ha : acquired history id ≠ []) : ∃ s a, Resolved history id s a := by
  induction h with
  | fresh => exact absurd rfl ha
  | @next history c e draw hrun hp ih =>
    by_cases hbefore : acquired history id = []
    · have hnow : acquires c (step draw c e).1 id ≠ [] := fun hnone =>
        ha ((acquired_same hnone).trans hbefore)
      cases hs : (step draw c e).1.sessions.get? id with
      | none => simp [acquires, hs] at hnow
      | some session => exact ⟨_, _, ((hrun.next draw hp).routes.held id session hs).1⟩
    · obtain ⟨s, a, hr⟩ := ih hbefore
      exact ⟨s, a, resolved_cons.2 (.inr hr)⟩

theorem caller?_of_looksUp? {left : Nat} (hl : c.looksUp? e = some (id, s, left)) :
    e.caller? = some id := by
  unfold looksUp? at hl
  split at hl
  · split at hl
    · cases hl
    · obtain ⟨rfl, -⟩ := Prod.mk.inj (Option.some.inj hl)
      rfl
  · split at hl
    · obtain ⟨rfl, -⟩ := Prod.mk.inj (Option.some.inj hl)
      rfl
    · cases hl
  · cases hl

theorem leaving?_of_caller? (he : e.caller? = some id) : c.leaving? e = none := by
  have hturn : e.turn? = none := by
    unfold Event.caller? at he
    split at he <;> first | rfl | cases he
  rw [leaving?, hturn]

theorem Deals.pools_eq (h : Deals draw c e (step draw c e)) (he : e.caller? = some id)
    (hclose : e ≠ .start id .close) (hr : ∀ s a, Record.resolved? ⟨c, draw, e⟩ ≠ some (id, s, a)) :
    (step draw c e).1.pools = c.pools := by
  have hpools : (c.informed e).pools = c.pools := by rw [informed_frame]
  have hresolved {s : Subscription} {left : Nat} (hl : c.looksUp? e = some (id, s, left)) :=
    h.resolved?_eq hl
  cases h with
  | other _ _ hm =>
    cases hm with
    | call k _ hm =>
      obtain ⟨link, calls, hframe⟩ := hm.frame
      rw [hframe]
    | arrives k s a conn _ _ hm =>
      rw [hm]
      rfl
    | talks _ hm =>
      obtain ⟨calls, sessions, hframe⟩ := hm.frame
      rw [hframe]
    | leaves k s hleaving _ => cases hleaving.symm.trans (leaving?_of_caller? he)
    | shuts k he' _ _ =>
      subst he'
      obtain rfl := Option.some.inj he
      exact absurd rfl hclose
    | ticks now he' _ =>
      subst he'
      cases he
    | expires he' _ =>
      subst he'
      cases he
  | refresh k t o _ _ _ _ hm =>
    rw [hm]
    rfl
  | lookup k s left link hl hlink hm =>
    obtain rfl : k = id := Option.some.inj ((caller?_of_looksUp? hl).symm.trans he)
    have hnone :
        (c.informed e).snapshot.route s.stream s.partition s.readIsrReplica draw = none := by
      refine Option.eq_none_iff_forall_ne_some.2 fun a hroute => hr s a ?_
      rw [hresolved hl, hroute]
      rfl
    rw [hm]
    cases lookup_finds draw { c.informed e with link } k s left with
    | nowhere _ _ hfinds | later _ _ _ _ hfinds =>
      rw [hfinds]
      exact hpools
    | late a hroute | reuses a x p hroute | dials a hroute => cases hnone.symm.trans hroute

section Course

variable {delay total : Nat}

theorem Course.searches (h : Course delay total history c id s) (htotal : 0 < total) :
    ∃ n last, Searches delay n last (way history id) ∧ n ≤ total ∧ (last = none → n < total) := by
  cases h with
  | refused hway => exact ⟨0, none, hway ▸ .start, Nat.zero_le _, fun _ => htotal⟩
  | pauses n left t _ hsearch hn _ => exact ⟨n, _, hsearch, by omega, fun _ => by omega⟩
  | refreshes n left due _ hsearch _ hn => exact ⟨n, _, hsearch, by omega, fun _ => by omega⟩
  | found n t a _ hsearch hn _ => exact ⟨n, _, hsearch, hn, by simp⟩
  | unknown t _ hsearch _ => exact ⟨total, _, hsearch, Nat.le_refl _, by simp⟩
  | failed n f _ hsearch hn _ => exact ⟨n, _, hsearch, Nat.le_of_lt hn, fun _ => hn⟩
  | abandoned n last _ hsearch hn _ => exact ⟨n, last, hsearch, Nat.le_of_lt hn, fun _ => hn⟩

theorem Course.spent (h : Course delay total history c id s) (htotal : 0 < total)
    (hm : (way history id).countP Leg.isMiss = total) : c.calls.get? id = none ∧
      (∃ t, Searches delay total (some (t, none)) (way history id)) ∧
      .finish id (.error (.noSuchPartition s.stream s.partition none)) ∈ trail history := by
  cases h with
  | unknown t hs hsearch hfinish => exact ⟨hs, ⟨t, hsearch⟩, hfinish⟩
  | refused hway =>
    rw [hway] at hm
    exact absurd hm.symm htotal.ne'
  | found n t a _ hsearch hn _ =>
    -- the last of these lookups was not in vain
    have hmisses : (way history id).countP Leg.isMiss + 1 = n := hsearch.misses
    omega
  | pauses _ _ _ _ hsearch hn _ | refreshes _ _ _ _ hsearch _ hn | failed _ _ _ hsearch hn _
  | abandoned _ _ _ hsearch hn _ =>
    have hmisses := hsearch.misses
    omega

theorem Course.unknown_of_finish (h : Course delay total history c id s) (hlife : Life history c id)
    {stream : String} {partition : Int32}
    (hf : .finish id (.error (.noSuchPartition stream partition none)) ∈ trail history) :
    stream = s.stream ∧ partition = s.partition ∧
      (way history id).countP Leg.isMiss = total := by
  have hone := (hlife.finish _ hf).2.2
  cases h with
  | refused _ _ hfinish => cases hone _ hfinish
  | pauses n left t hs => exact absurd hf (hlife.unfinished hs _)
  | refreshes n left due hs => exact absurd hf (hlife.unfinished hs _)
  | found n t a _ _ _ hknown => exact absurd hf (hknown stream partition)
  | unknown t _ hsearch hfinish =>
    obtain ⟨rfl, rfl⟩ : s.stream = stream ∧ s.partition = partition := by simpa using hone _ hfinish
    exact ⟨rfl, rfl, hsearch.misses⟩
  | failed n f _ _ _ hfinish => cases hone _ hfinish
  | abandoned n last _ _ _ hnone => exact absurd hf (hnone _)

theorem Course.pausing (h : Course delay total history c id s) {s' : Subscription} {left due : Nat}
    (hs : c.calls.get? id = some (.pausing s' left due)) : s' = s ∧
      ∃ n t, Searches delay n (some (t, none)) (way history id) ∧ n + left + 1 = total ∧
        due = Span.pauseEnd t delay ∧ (Punctual history id → c.now ≤ due) := by
  cases h with
  | pauses n left' t hs' hsearch hn hle =>
    obtain ⟨rfl, rfl, rfl⟩ : s' = s ∧ left = left' ∧ due = Span.pauseEnd t delay := by
      simpa using hs.symm.trans hs'
    exact ⟨rfl, n, t, hsearch, hn, rfl, hle⟩
  | refreshes _ _ _ hs' => cases hs.symm.trans hs'
  | found _ _ _ hnot => exact absurd ⟨_, hs, rfl⟩ hnot
  | refused _ hs' => cases hs.symm.trans hs'
  | unknown _ hs' => cases hs.symm.trans hs'
  | failed _ _ hs' => cases hs.symm.trans hs'
  | abandoned _ _ hs' => cases hs.symm.trans hs'

end Course

theorem Aimed.of_suffix {earlier : History} {a : Aim} (h : Aimed earlier id a)
    (hsuffix : earlier <:+ history) : Aimed history id a := by
  obtain ⟨r, hr, hevent⟩ := h
  exact ⟨r, hsuffix.subset hr, hevent⟩

theorem Run.looks_up (h : Run settings now history c) (draw : Nat) (hp : Possible history c e)
    {s' : Subscription} {left : Nat} (hl : c.looksUp? e = some (id, s', left)) :
    Aimed (⟨c, draw, e⟩ :: history) id (.subscribing s') ∧
      (c.fetched? e = none ∧ way history id = [] ∧
        (step draw c e).1.snapshot = lastSnapshot settings history ∨
      ∃ reply, e = .answered (.caller id) (.ok reply) ∧ c.fetched? e = some reply.topology ∧
        (step draw c e).1.snapshot = .ofTopology settings.bootstrap reply.topology) := by
  have hsnapshot : (step draw c e).1.snapshot = (c.informed e).snapshot :=
    (h.deals draw e).informs.snapshot
  rcases exists_of_looksUp? hl with ⟨stream, o, rfl, rfl⟩ | ⟨due, hs⟩
  · have hnone : c.fetched? (.start id (.subscribe stream o)) = none := rfl
    refine ⟨aimed_cons.2 (.inl ⟨_, rfl, rfl⟩), .inl ⟨hnone, h.way_of_new hp.1, ?_⟩⟩
    rw [hsnapshot, informed_of_none hnone, h.snapshot_eq]
  · obtain ⟨reply, he, hfetched⟩ := h.answered_of_lookup hp hl hs
    refine ⟨((h.life id).aim _ hs).cons, .inr ⟨reply, he, hfetched, ?_⟩⟩
    rw [hsnapshot, informed_of_some hfetched, install, h.settings_eq]

theorem Run.unfetched_of_fails (h : Run settings now history c) {left : Nat} {due : Option Nat}
    (hs : c.calls.get? id = some (.linking (.resolve s left) due))
    (hl : c.looksUp? e ≠ some (id, s, left)) {r : Except CallError Outcome}
    (hr : .finish id r ∈ (step draw c e).2) : c.fetched? e = none := by
  by_contra hsome
  obtain ⟨t, ht⟩ := Option.ne_none_iff_exists'.1 hsome
  -- an answer to the call itself is its next lookup, and others do not end it
  obtain ⟨k, reply, rfl, hasked, -⟩ := fetched?_eq_some.1 ht
  by_cases hk : k = id
  · subst hk
    exact hl (by simp only [looksUp?, hs, hasked])
  · exact (h.untouched draw hs (by simp [Rests]) (by simpa [Event.caller?] using hk)).2 r hr

theorem Searches.first {delay n t : Nat} {last : Option (Nat × Option Address)}
    {found : Option Address} {before : List Leg}
    (h : Searches delay n last (.looks t none found :: before)) : before = [] := by
  cases h with
  | looks _ _ _ hbefore hanswer =>
    obtain rfl : _ = 0 := by simpa using hanswer
    cases hbefore with
    | start => rfl
    | refreshes _ hmissed _ => exact absurd rfl hmissed.ne_zero

theorem Joins.dials_eq {a : Address} {m : Move} (h : Joins c id s a m) :
    Client.dials m.2 = [] ∨ Client.dials m.2 = [(id, a)] := by
  cases h with
  | late _ _ _ heffects | reuses _ _ _ _ _ _ _ heffects => exact .inl (by rw [heffects]; rfl)
  | dials _ _ _ _ heffects => exact .inr (by rw [heffects]; rfl)

theorem way_suffix {earlier : History} (h : earlier <:+ history) (id : CallId) :
    way earlier id <:+ way history id := by
  obtain ⟨later, rfl⟩ := h
  exact ⟨way later id, (List.filterMap_append ..).symm⟩

variable {earlier : History} {r : Record}

theorem Life.aim_eq (hlife : Life history c id) {a : Aim} (ha : Aimed history id a)
    {before : Client} (hbefore : Run settings now earlier before) (hsuffix : earlier <:+ history)
    {stage : Stage} (hs : before.calls.get? id = some stage) : stage.aim = a :=
  hlife.aims _ _ (((hbefore.life id).aim stage hs).of_suffix hsuffix) ha

theorem Run.looked (h : Run settings now history c) (ha : Aimed history id (.subscribing s))
    (hsuffix : r :: earlier <:+ history) {t : Nat} {answer : Option Topology}
    {found : Option Address} (hleg : r.leg? id = some (.looks t answer found)) :
    ∃ left, r.before.looksUp? r.event = some (id, s, left) ∧ t = r.before.now ∧
      found = r.move.1.snapshot.route s.stream s.partition s.readIsrReplica r.draw ∧
      (answer = none ∧ way earlier id = [] ∧
          r.move.1.snapshot = lastSnapshot settings earlier ∨
        ∃ reply, r.event = .answered (.caller id) (.ok reply) ∧ answer = some reply.topology ∧
          r.move.1.snapshot = .ofTopology settings.bootstrap reply.topology) := by
  obtain ⟨hrun, hp⟩ := h.of_suffix hsuffix
  obtain ⟨s', left, hl, ht, hanswer, hfound⟩ := looksUp?_of_leg? hleg
  obtain ⟨haimed, hwhere⟩ := hrun.looks_up r.draw hp hl
  obtain rfl := Aim.subscribing.inj ((h.life id).aims _ _ (haimed.of_suffix hsuffix) ha)
  exact ⟨left, hl, ht, hfound, hanswer ▸ hwhere⟩

theorem Run.linking_of_looksUp? (h : Run settings now history c) (hp : Possible history c e)
    {stage : Stage} (hs : c.calls.get? id = some stage) {left : Nat}
    (hl : c.looksUp? e = some (id, s, left)) : ∃ due, stage = .linking (.resolve s left) due := by
  rcases exists_of_looksUp? hl with ⟨stream, o, rfl, -⟩ | ⟨due, hs'⟩
  · cases hs.symm.trans (h.keeps.admits hp).1
  · exact ⟨due, Option.some.inj (hs.symm.trans hs')⟩

theorem Run.begins (h : Run settings now history c) (ha : Aimed history id (.subscribing s))
    (hr : r ∈ history) {op : Op} (hevent : r.event = .start id op) :
    (r.before.closed = true → r.move.2 = [.finish id (.error .closed)]) ∧
      (r.before.closed = false → ∃ found, r.leg? id = some (.looks r.before.now none found)) := by
  have haim := (h.life id).aims _ _ ⟨r, hr, op, hevent, rfl⟩ ha
  obtain ⟨stream, o, rfl, -⟩ := subscribe_of_aim haim
  obtain ⟨before, draw, e⟩ := r
  obtain rfl : e = .start id (.subscribe stream o) := hevent
  constructor
  · intro hclosed
    rw [Record.move, step_start_closed draw hclosed id stream o]
    rfl
  · intro hopen
    exact ⟨_, leg?_of_looksUp? (looksUp?_start hopen stream o)⟩

theorem Run.joins (h : Run settings now history c) (ha : Aimed history id (.subscribing s))
    (hsuffix : r :: earlier <:+ history) {t : Nat} {answer : Option Topology} {a : Address}
    (hleg : r.leg? id = some (.looks t answer (some a))) :
    r.resolved? = some (id, s, a) ∧ Joins r.before id s a r.move := by
  obtain ⟨left, hl, -, hroute, -⟩ := h.looked ha hsuffix hleg
  have hresolved : r.resolved? = some (id, s, a) := by
    simp only [Record.resolved?, hl, ← hroute, Option.map_some]
  exact ⟨hresolved, ((h.of_suffix hsuffix).1.deals r.draw r.event).joins hresolved⟩

theorem Run.misses (h : Run settings now history c) (hb : settings.bootstrap ≠ [])
    (ha : Aimed history id (.subscribing s)) (hsuffix : r :: earlier <:+ history) {t : Nat}
    {answer : Option Topology} (hleg : r.leg? id = some (.looks t answer none)) :
    ((way (r :: earlier) id).countP Leg.isMiss = max settings.lookups 1 ∧
        r.move.1.calls.get? id = none ∧
        r.move.2 = [.finish id (.error (.noSuchPartition s.stream s.partition none))]) ∨
      ∃ left, (way (r :: earlier) id).countP Leg.isMiss + left + 1 = max settings.lookups 1 ∧
        r.move.1.calls.get? id = some (.pausing s left
          (Span.pauseEnd t settings.lookupDelay.ceilMillis)) ∧ r.move.2 = [] := by
  obtain ⟨hrun, hp⟩ := h.of_suffix hsuffix
  obtain ⟨left, hl, rfl, hroute, -⟩ := h.looked ha hsuffix hleg
  have hnone : r.resolved? = none := by
    simp only [Record.resolved?, hl, ← hroute, Option.map_none]
  have hnext := hrun.next r.draw hp
  have hcourse : Course settings.lookupDelay.ceilMillis (max settings.lookups 1) (r :: earlier)
      r.move.1 id s := hnext.course hb (hrun.looks_up r.draw hp hl).1
  rcases (hrun.deals r.draw r.event).missed hl hnone with ⟨-, hs, heffects⟩ | ⟨k, -, heffects, hs⟩
  · have hfinish : .finish id (.error (.noSuchPartition s.stream s.partition none)) ∈
        trail (r :: earlier) := by
      refine List.mem_append_right _ ?_
      rw [Record.move, heffects]
      exact List.mem_singleton_self _
    exact .inl ⟨(hcourse.unknown_of_finish (hnext.life id) hfinish).2.2, hs, heffects⟩
  · -- how many lookups are left is what the course says of the pause that follows
    obtain ⟨-, n, t, hsearch, hn, -⟩ := hcourse.pausing hs
    have hmisses := hsearch.misses
    rw [hrun.settings_eq] at hs
    refine .inr ⟨k, ?_, hs, heffects⟩
    simp at hmisses
    omega

theorem Run.pauses (h : Run settings now history c) (hb : settings.bootstrap ≠ [])
    (ha : Aimed history id (.subscribing s)) (hsuffix : r :: earlier <:+ history)
    {s' : Subscription} {left due : Nat}
    (hs : r.before.calls.get? id = some (.pausing s' left due)) :
    (∃ t answer before, way earlier id = .looks t answer none :: before ∧
      due = Span.pauseEnd t settings.lookupDelay.ceilMillis) ∧
    (r.leg? id = none ∧ r.move.1.calls.get? id = r.before.calls.get? id ∨
      r.event = .abandon id ∨
      r.leg? id = some (.refreshes r.before.now) ∧ due ≤ r.before.now ∧
        (Punctual earlier id → r.before.now = due) ∧
        r.move.1.link.Wants id .fetchMetadata ∧
        ∃ due', r.move.1.calls.get? id = some (.linking (.resolve s left) due')) := by
  obtain ⟨hrun, hp⟩ := h.of_suffix hsuffix
  obtain ⟨-, n, t, hsearch, -, hdue, hle⟩ := (hrun.course hb ((hrun.life id).aim _ hs)).pausing hs
  obtain ⟨answer, before, hway⟩ := hsearch.exists_looks
  refine ⟨⟨t, answer, before, hway, hdue⟩, ?_⟩
  obtain rfl := Aim.subscribing.inj ((h.life id).aim_eq ha hrun
    ((List.suffix_cons ..).trans hsuffix) hs)
  cases hrun.pausing hb r.draw hp hs with
  | waits hr hcalls _ =>
    refine .inl ⟨leg?_eq_none (fun s left hl => ?_) hr, hcalls⟩
    obtain ⟨due, hs'⟩ := hrun.linking_of_looksUp? hp hs hl
    cases hs'
  | resumes due' hr hs' hwants _ =>
    have hdue' := due_le_of_resumes hr hs
    exact .inr (.inr ⟨leg?_of_resumes hr, hdue', fun hp' => Nat.le_antisymm (hle hp') hdue', hwants,
      due', hs'⟩)
  | abandoned he _ _ => exact .inr (.inl he)

theorem Run.refreshes (h : Run settings now history c) (hb : settings.bootstrap ≠ [])
    (ha : Aimed history id (.subscribing s)) (hsuffix : r :: earlier <:+ history)
    {s' : Subscription} {left : Nat} {due : Option Nat}
    (hs : r.before.calls.get? id = some (.linking (.resolve s' left) due)) :
    (r.leg? id = none ∧ ∃ due', r.move.1.calls.get? id = some (.linking (.resolve s left) due')) ∨
    r.event = .abandon id ∨
    (∃ answer found, r.leg? id = some (.looks r.before.now (some answer) found)) ∨
    ∃ f, r.move.1.calls.get? id = none ∧ .finish id (.error (.rpc f)) ∈ r.move.2 ∧
      ((r.before.mishap? id r.event).toList ++ setbacks earlier id).head? = some f ∧
      r.move.1.snapshot = lastSnapshot settings earlier := by
  obtain ⟨hrun, hp⟩ := h.of_suffix hsuffix
  obtain rfl := Aim.subscribing.inj ((h.life id).aim_eq ha hrun
    ((List.suffix_cons ..).trans hsuffix) hs)
  by_cases hl : r.before.looksUp? r.event = some (id, s', left)
  · obtain ⟨reply, -, hfetched⟩ := hrun.answered_of_lookup hp hl hs
    have hleg : r.leg? id = some (.looks r.before.now (r.before.fetched? r.event)
        (r.resolved?.map fun found => found.2.2)) := leg?_of_looksUp? hl
    rw [hfetched] at hleg
    exact .inr (.inr (.inl ⟨reply.topology, _, hleg⟩))
  · cases hrun.refreshing r.draw hp hs hl with
    | goes due' hs' _ =>
      have hresumes : r.before.resumes id r.event = false := resumes_eq_false (by simp [hs])
      refine .inl ⟨leg?_eq_none (fun s left' hl' => ?_) hresumes, due', hs'⟩
      obtain ⟨due, hs''⟩ := hrun.linking_of_looksUp? hp hs hl'
      obtain ⟨rfl, rfl⟩ := Goal.resolve.inj (Stage.linking.inj hs'').1
      exact hl hl'
    | fails f hs' hf =>
      obtain ⟨r', hr', op, hevent⟩ := hrun.exists_start hs
      have hfares := hrun.fares hb r.draw hp ⟨r', List.mem_cons_of_mem _ hr', hevent⟩
      obtain ⟨hhead, -, -⟩ := hfares.fails _ hf (by simp [isHeard, hs]) f rfl
      have hsnapshot := (hrun.deals r.draw r.event).informs.snapshot
      rw [informed_of_none (hrun.unfetched_of_fails hs hl hf), hrun.snapshot_eq] at hsnapshot
      exact .inr (.inr (.inr ⟨f, hs', hf, hhead, hsnapshot⟩))
    | abandoned he _ _ => exact .inr (.inl he)

theorem Run.never_resolving (h : Run settings now history c) (hb : settings.bootstrap ≠ [])
    {t : Nat} {answer : Option Topology} {a : Address}
    (hway : way history id = [.looks t answer (some a)]) (hr : r ∈ history) :
    ¬ r.move.1.Resolving id := by
  rintro ⟨stage, hs, hresolves⟩
  obtain ⟨later, earlier, rfl⟩ := List.append_of_mem hr
  have hsuffix : r :: earlier <:+ later ++ r :: earlier := List.suffix_append ..
  obtain ⟨hrun, hp⟩ := h.of_suffix hsuffix
  have hnext := hrun.next r.draw hp
  have hlegs : ∀ leg ∈ way (r :: earlier) id, leg = .looks t answer (some a) := fun leg hm =>
    List.mem_singleton.1 (hway ▸ (way_suffix hsuffix id).subset hm)
  have haimed := (hnext.life id).aim stage hs
  cases stage with
  | pausing s left due =>
    obtain ⟨-, n, t', hsearch, -⟩ := (hnext.course hb haimed).pausing hs
    obtain ⟨answer', before, hway'⟩ := hsearch.exists_looks
    cases hlegs _ (hway' ▸ List.mem_cons_self ..)
  | linking goal due =>
    cases goal with
    | resolve s left =>
      obtain ⟨-, n, hsearch, hn, -⟩ := (hnext.course hb haimed).refreshing hs
      have hrefreshes : (way (r :: earlier) id).countP Leg.isRefresh = n := hsearch.counts.2.1
      have hpos : 0 < (way (r :: earlier) id).countP Leg.isRefresh := by omega
      obtain ⟨leg, hm, hleg⟩ := List.countP_pos_iff.1 hpos
      rw [hlegs leg hm] at hleg
      cases hleg
    | _ => cases hresolves
  | _ => cases hresolves

theorem Run.way_of_cached (h : Run settings now history c) (hb : settings.bootstrap ≠ [])
    (ha : Aimed history id (.subscribing s)) {t : Nat} {a : Address}
    (hm : .looks t none (some a) ∈ way history id) :
    way history id = [.looks t none (some a)] ∧ ∀ r ∈ history, ¬ r.move.1.Resolving id := by
  have htotal : 0 < max settings.lookups 1 := by omega
  obtain ⟨n, last, hsearch, -⟩ := (h.course hb ha).searches htotal
  obtain ⟨before, hway⟩ := (hsearch.of_found hm).2
  rw [hway] at hsearch
  rw [hsearch.first] at hway
  exact ⟨hway, fun r hr => h.never_resolving hb hway hr⟩

theorem Run.pools_kept (h : Run settings now history c) (ha : Aimed history id (.subscribing s))
    (hnone : ∀ t answer a, .looks t answer (some a) ∉ way history id) (hr : r ∈ history)
    (he : r.event.caller? = some id) : r.move.1.pools = r.before.pools := by
  obtain ⟨earlier, hrun, hp⟩ := h.of_mem hr
  refine (hrun.deals r.draw r.event).pools_eq he (fun hclose => ?_) fun s' a hresolved => ?_
  · cases (h.life id).aims _ _ ⟨r, hr, .close, hclose, rfl⟩ ha
  · exact hnone _ _ a (List.mem_filterMap.2 ⟨r, hr, leg?_of_resolved? hresolved⟩)

theorem Run.dials_to_refresh (h : Run settings now history c)
    (ha : Aimed history id (.subscribing s))
    (hnone : ∀ t answer a, .looks t answer (some a) ∉ way history id)
    (hsuffix : r :: earlier <:+ history) {a : Address} (hd : (id, a) ∈ dials r.move.2) :
    ∃ left due, r.move.1.calls.get? id = some (.linking (.resolve s left) due) := by
  obtain ⟨hrun, hp⟩ := h.of_suffix hsuffix
  have haim {stage : Stage} (hs : r.move.1.calls.get? id = some stage) :
      stage.aim = .subscribing s :=
    (h.life id).aim_eq ha (hrun.next r.draw hp) hsuffix hs
  rcases (hrun.deals r.draw r.event).guides.dials id a hd with
    ⟨goal, due, hs⟩ | ⟨rest, hs⟩ | ⟨s', hr⟩
  · have hgoal : goal.aim = .subscribing s := haim hs
    cases goal with
    | resolve s' left =>
      obtain rfl := Aim.subscribing.inj hgoal
      exact ⟨left, due, hs⟩
    | _ => cases hgoal
  · cases haim hs
  · exact absurd (List.mem_filterMap.2 ⟨r, hsuffix.subset (List.mem_cons_self ..),
      leg?_of_resolved? hr⟩) (hnone _ _ a)

theorem Run.not_dials_since (h : Run settings now history c) {later : History} {a : Address}
    (hsplit : history = later ++ r :: earlier) (hr : r.resolved? = some (id, s, a)) (b : Address) :
    (id, b) ∉ dials (trail later) := by
  intro hd
  obtain ⟨r', hr', hd'⟩ := mem_trail.1 (mem_dials.1 hd)
  obtain ⟨after, between, rfl⟩ := List.append_of_mem hr'
  have hsuffix : r' :: (between ++ r :: earlier) <:+ history :=
    ⟨after, by rw [hsplit, List.append_assoc, List.cons_append]⟩
  obtain ⟨hrun, hp⟩ := h.of_suffix hsuffix
  exact hrun.not_dials_of_resolved hp ⟨r, by simp, hr⟩ b (mem_dials.2 hd')

theorem Life.requested_once (h : Life history c id) (ha : Aimed history id (.subscribing s)) :
    requested (trail history) id = [] ∨ requested (trail history) id = [s] := by
  rw [h.toLodges.requested_eq]
  obtain ⟨sub, hsub, hstands⟩ := h.stands
  by_cases hnone : acquired history id = []
  · rw [(h.toLodges.eq_unborn hnone).1]
    exact .inl rfl
  · obtain rfl := Aim.subscribing.inj (h.aims _ _ (hsub hnone) ha)
    exact hstands.asks

/-- How a subscribe call for `s` finds its broker, or comes to find none. -/
structure ResolutionLaw (settings : Settings) (history : History) (c : Client) (id : CallId)
    (s : Subscription) : Prop where
  begins : ∀ r ∈ history, ∀ op, r.event = .start id op →
    (r.before.closed = true → r.move.2 = [.finish id (.error .closed)]) ∧
      (r.before.closed = false → ∃ found, r.leg? id = some (.looks r.before.now none found))
  /-- Lookups and refreshes take turns, and a pause comes before each refresh. There are no more
  lookups than are granted, and one of these is left while the metadata are refreshed. -/
  searches : ∃ n last, Searches settings.lookupDelay.ceilMillis n last (way history id) ∧
    n ≤ max settings.lookups 1 ∧ (last = none → n < max settings.lookups 1)
  /-- The first lookup is in the snapshot of the last answer that the client had before, and each
  other in that of the answer to the refresh before it. -/
  lookups : ∀ r earlier, r :: earlier <:+ history → ∀ t answer found,
    r.leg? id = some (.looks t answer found) → t = r.before.now ∧
      found = r.move.1.snapshot.route s.stream s.partition s.readIsrReplica r.draw ∧
      (answer = none ∧ way earlier id = [] ∧
          r.move.1.snapshot = lastSnapshot settings earlier ∨
        ∃ reply, r.event = .answered (.caller id) (.ok reply) ∧ answer = some reply.topology ∧
          r.move.1.snapshot = .ofTopology settings.bootstrap reply.topology)
  found : ∀ r earlier, r :: earlier <:+ history → ∀ t answer a,
    r.leg? id = some (.looks t answer (some a)) → Joins r.before id s a r.move
  missed : ∀ r earlier, r :: earlier <:+ history → ∀ t answer,
    r.leg? id = some (.looks t answer none) →
      ((way (r :: earlier) id).countP Leg.isMiss = max settings.lookups 1 ∧
          r.move.1.calls.get? id = none ∧
          r.move.2 = [.finish id (.error (.noSuchPartition s.stream s.partition none))]) ∨
        ∃ left, (way (r :: earlier) id).countP Leg.isMiss + left + 1 = max settings.lookups 1 ∧
          r.move.1.calls.get? id = some (.pausing s left
            (Span.pauseEnd t settings.lookupDelay.ceilMillis)) ∧ r.move.2 = []
  /-- A pause is over only with the delay, and right then if the clock stops for it. -/
  pauses : ∀ r earlier, r :: earlier <:+ history → ∀ s' left due,
    r.before.calls.get? id = some (.pausing s' left due) →
      (∃ t answer before, way earlier id = .looks t answer none :: before ∧
        due = Span.pauseEnd t settings.lookupDelay.ceilMillis) ∧
      (r.leg? id = none ∧ r.move.1.calls.get? id = r.before.calls.get? id ∨
        r.event = .abandon id ∨
        r.leg? id = some (.refreshes r.before.now) ∧ due ≤ r.before.now ∧
          (Punctual earlier id → r.before.now = due) ∧
          r.move.1.link.Wants id .fetchMetadata ∧
          ∃ due', r.move.1.calls.get? id = some (.linking (.resolve s left) due'))
  /-- A refresh goes on until it is answered, which is the next lookup, or fails, which ends the
  call and leaves the snapshot of the last answer. -/
  refreshes : ∀ r earlier, r :: earlier <:+ history → ∀ s' left due,
    r.before.calls.get? id = some (.linking (.resolve s' left) due) →
      (r.leg? id = none ∧
        ∃ due', r.move.1.calls.get? id = some (.linking (.resolve s left) due')) ∨
      r.event = .abandon id ∨
      (∃ answer found, r.leg? id = some (.looks r.before.now (some answer) found)) ∨
      ∃ f, r.move.1.calls.get? id = none ∧ .finish id (.error (.rpc f)) ∈ r.move.2 ∧
        ((r.before.mishap? id r.event).toList ++ setbacks earlier id).head? = some f ∧
        r.move.1.snapshot = lastSnapshot settings earlier
  /-- The call returns without a cause that there is no such partition exactly if as many lookups
  were in vain as are granted. -/
  unknown : ∀ stream partition,
    .finish id (.error (.noSuchPartition stream partition none)) ∈ trail history ↔
      stream = s.stream ∧ partition = s.partition ∧
        (way history id).countP Leg.isMiss = max settings.lookups 1
  spent : (way history id).countP Leg.isMiss = max settings.lookups 1 →
    c.calls.get? id = none ∧ (∃ t answer before, way history id = .looks t answer none :: before) ∧
      (way history id).countP Leg.isLookup = max settings.lookups 1 ∧
      (way history id).countP Leg.isRefresh + 1 = max settings.lookups 1 ∧
      ((way history id).filterMap Leg.answer?).length + 1 = max settings.lookups 1
  settled : ∀ t answer a, .looks t answer (some a) ∈ way history id →
    ∃ before, way history id = .looks t answer (some a) :: before
  cached : ∀ t a, .looks t none (some a) ∈ way history id →
    way history id = [.looks t none (some a)] ∧ ∀ r ∈ history, ¬ r.move.1.Resolving id
  /-- Until the broker is found no connection is taken, and none dialed but for the metadata; no
  broker is asked for the subscription, and the subscriber is told nothing. -/
  quiet : (∀ t answer a, .looks t answer (some a) ∉ way history id) →
    acquired history id = [] ∧ requested (trail history) id = [] ∧ told (trail history) id = [] ∧
      (∀ r ∈ history, r.event.caller? = some id → r.move.1.pools = r.before.pools) ∧
      ∀ r earlier, r :: earlier <:+ history → ∀ a, (id, a) ∈ dials r.move.2 →
        ∃ left due, r.move.1.calls.get? id = some (.linking (.resolve s left) due)
  dialed : ∀ later r earlier, history = later ++ r :: earlier → ∀ t answer a,
    r.leg? id = some (.looks t answer (some a)) →
      (dials r.move.2 = [] ∨ dials r.move.2 = [(id, a)]) ∧ ∀ b, (id, b) ∉ dials (trail later)
  asked : requested (trail history) id = [] ∨ requested (trail history) id = [s]

/-- Over every run of a client with a bootstrap list that the build accepts, whatever lookups and
delay are set, whatever the snapshot has and whatever refreshes come to: a subscribe call looks its
partition up, pauses and refreshes the metadata in turns until its broker is found, a refresh fails
or no lookup is left, and does nothing else until then. The dialer keeps to `Fresh`. -/
theorem Run.resolution_law (h : Run settings now history c) (hb : settings.bootstrap ≠ [])
    {stream : String} {o : SubscribeOptions}
    (hstart : ∃ r ∈ history, r.event = .start id (.subscribe stream o)) :
    ResolutionLaw settings history c id (o.subscription stream) := by
  have ha : Aimed history id (.subscribing (o.subscription stream)) := by
    obtain ⟨r, hr, hevent⟩ := hstart
    exact ⟨r, hr, _, hevent, rfl⟩
  have htotal : 0 < max settings.lookups 1 := by omega
  have hcourse := h.course hb ha
  exact {
    begins := fun r hr op hevent => h.begins ha hr hevent
    searches := hcourse.searches htotal
    lookups := fun r earlier hsuffix t answer found hleg => by
      obtain ⟨left, -, ht, hfound, hwhere⟩ := h.looked ha hsuffix hleg
      exact ⟨ht, hfound, hwhere⟩
    found := fun r earlier hsuffix t answer a hleg => (h.joins ha hsuffix hleg).2
    missed := fun r earlier hsuffix t answer hleg => h.misses hb ha hsuffix hleg
    pauses := fun r earlier hsuffix s' left due hs => h.pauses hb ha hsuffix hs
    refreshes := fun r earlier hsuffix s' left due hs => h.refreshes hb ha hsuffix hs
    unknown := fun stream' partition => by
      constructor
      · exact hcourse.unknown_of_finish (h.life id)
      · rintro ⟨rfl, rfl, hm⟩
        exact (hcourse.spent htotal hm).2.2
    spent := fun hm => by
      obtain ⟨hs, ⟨t, hsearch⟩, -⟩ := hcourse.spent htotal hm
      obtain ⟨answer, before, hway⟩ := hsearch.exists_looks
      obtain ⟨hlookups, hrefreshes, hanswers⟩ := hsearch.counts
      exact ⟨hs, ⟨t, answer, before, hway⟩, hlookups, hrefreshes, by omega⟩
    settled := fun t answer a hm => by
      obtain ⟨n, last, hsearch, -⟩ := hcourse.searches htotal
      exact (hsearch.of_found hm).2
    cached := fun t a hm => h.way_of_cached hb ha hm
    quiet := fun hnone => by
      have hacquired : acquired history id = [] := by
        by_contra hacquired
        obtain ⟨s, a, hresolved⟩ := h.resolved_of_acquired hacquired
        obtain ⟨t, answer, hm⟩ := mem_way_of_resolved hresolved
        exact hnone t answer a hm
      have hlog := ((h.life id).toLodges.eq_unborn hacquired).1
      refine ⟨hacquired, ?_, ?_, fun r hr => h.pools_kept ha hnone hr,
        fun r earlier hsuffix a hd => h.dials_to_refresh ha hnone hsuffix hd⟩
      · rw [(h.life id).toLodges.requested_eq, hlog]
        rfl
      · rw [(h.life id).toLodges.told_eq, hlog]
        rfl
    dialed := fun later r earlier hsplit t answer a hleg => by
      obtain ⟨hresolved, hjoins⟩ := h.joins ha ⟨later, hsplit.symm⟩ hleg
      exact ⟨hjoins.dials_eq, h.not_dials_since hsplit hresolved⟩
    asked := (h.life id).requested_once ha }

end Resolution

/-- A subscription waits for its partition to appear in the metadata. -/
def appearing : List (Nat × Event) :=
  [(0, .start 0 .connect), (0, .dialed 0 (.ok 1)), (0, .answered (.caller 0) (.ok {})),
    (0, .start 1 (.subscribe "s" {})), (0, .tick 50), (0, .lapse 1), (0, .tick 60),
    (0, .answered (.caller 1) (.ok { topology := lone })), (0, .dialed 1 (.ok 2)),
    (0, .run (.session 1))]

theorem resolution_law_appearing :
    ∃ s, play ([], .fresh { bootstrap := ["a:1"], lookups := 2 } 0) appearing = some s ∧
      ResolutionLaw { bootstrap := ["a:1"], lookups := 2 } s.1 s.2 1
        (({} : SubscribeOptions).subscription "s") ∧
      way s.1 1 = [.looks 60 (some lone) (some "a:1"), .refreshes 50, .looks 0 none none] ∧
      requested (trail s.1) 1 = [({} : SubscribeOptions).subscription "s"] := by
  have hends : (play ([], .fresh { bootstrap := ["a:1"], lookups := 2 } 0) appearing).map
      (fun s => decide ((∃ r ∈ s.1, r.event = .start 1 (.subscribe "s" {})) ∧
        way s.1 1 = [.looks 60 (some lone) (some "a:1"), .refreshes 50, .looks 0 none none] ∧
        requested (trail s.1) 1 = [({} : SubscribeOptions).subscription "s"])) = some true := by
    decide +kernel
  obtain ⟨s, hs, hrun, hstart, hway, hrequested⟩ := exists_run hends
  exact ⟨s, hs, hrun.resolution_law (by simp) hstart, hway, hrequested⟩

/-- The delay is a second more than thirty years, and the subscription waits for these only. -/
def outlasting : List (Nat × Event) :=
  [(0, .start 0 .connect), (0, .dialed 0 (.ok 1)), (0, .answered (.caller 0) (.ok {})),
    (0, .start 1 (.subscribe "s" {})), (0, .tick 946080000000), (0, .lapse 1)]

theorem refreshes_before_delay :
    ∃ s, play ([], .fresh
        { bootstrap := ["a:1"], lookups := 2, lookupDelay := .ofSeconds 946080001 } 0) outlasting =
          some s ∧
      way s.1 1 = [.refreshes 946080000000, .looks 0 none none] ∧
      946080000000 < s.2.settings.lookupDelay.ceilMillis := by
  have hends : (play ([], .fresh
      { bootstrap := ["a:1"], lookups := 2, lookupDelay := .ofSeconds 946080001 } 0) outlasting).map
      (fun s => decide (way s.1 1 = [.refreshes 946080000000, .looks 0 none none] ∧
        946080000000 < s.2.settings.lookupDelay.ceilMillis)) = some true := by
    decide +kernel
  obtain ⟨s, hs, -, hway, hdelay⟩ := exists_run hends
  exact ⟨s, hs, hway, hdelay⟩

end Client

end StreamClient
