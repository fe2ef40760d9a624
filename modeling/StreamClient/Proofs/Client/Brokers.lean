import StreamClient.Proofs.Client.Snapshots
import StreamClient.Proofs.Client.Stock

/-! How a subscribe call finds its broker and comes by a connection to it, and what a run tells of
where a connection was dialed to and when it was given back. -/

namespace StreamClient.Client

def dialOf (effects : List Effect) (id : CallId) : Option Address :=
  (dials effects).reverse.lookup id

def DialedTo (history : History) (x : Conn) (a : Address) : Prop :=
  ∃ r earlier, r :: earlier <:+ history ∧ ∃ id, r.event = .dialed id (.ok x) ∧
    dialOf (trail earlier) id = some a

/-- The number of the event in which `x` was last given back, where 1 is the first event. -/
def releasedAt : History → Conn → Nat
  | [], _ => 0
  | r :: earlier, x =>
    if (r.before.leaving? r.event).any (·.2.conn = x) then earlier.length + 1
    else releasedAt earlier x

section Connections

variable {history : History} {c : Client} {draw : Nat} {e : Event} {id : CallId} {x : Conn}
  {a : Address}

theorem dialOf_append {old new : List Effect} (h : ∀ b, (id, b) ∉ dials new) :
    dialOf (old ++ new) id = dialOf old id := by
  have hnone : (dials new).reverse.lookup id = none := by
    rw [List.lookup_eq_none_iff]
    rintro ⟨k, b⟩ hd
    exact bne_iff_ne.2 fun hk => h b (hk ▸ List.mem_reverse.1 hd)
  rw [dialOf, dials_append, List.reverse_append, List.lookup_append, hnone]
  rfl

theorem dialOf_append_dial (old : List Effect) : dialOf (old ++ [.dial id a]) id = some a := by
  simp [dialOf, dials]

theorem dialedTo_cons {r : Record} : DialedTo (r :: history) x a ↔
    (∃ id, r.event = .dialed id (.ok x) ∧ dialOf (trail history) id = some a) ∨
      DialedTo history x a := by
  constructor
  · rintro ⟨r', earlier, hsuffix, hdial⟩
    rcases List.suffix_cons_iff.1 hsuffix with heq | hsuffix
    · obtain ⟨rfl, rfl⟩ := List.cons.inj heq
      exact .inl hdial
    · exact .inr ⟨r', earlier, hsuffix, hdial⟩
  · rintro (hdial | ⟨r', earlier, hsuffix, hdial⟩)
    · exact ⟨r, history, List.suffix_refl _, hdial⟩
    · exact ⟨r', earlier, hsuffix.trans (List.suffix_cons ..), hdial⟩

theorem DialedTo.mem_opened (h : DialedTo history x a) : x ∈ opened history := by
  obtain ⟨r, earlier, ⟨later, rfl⟩, id, hevent, -⟩ := h
  exact List.mem_flatMap.2 ⟨r, by simp, by simp [hevent, news]⟩

/-- A connection was dialed once, so to one address. -/
theorem DialedTo.unique {b : Address} (hopened : (opened history).Nodup) (h : DialedTo history x a)
    (h' : DialedTo history x b) : a = b := by
  induction history with
  | nil =>
    obtain ⟨r, earlier, hsuffix, -⟩ := h
    exact absurd (List.suffix_nil.1 hsuffix) (by simp)
  | cons r earlier ih =>
    rw [opened, List.flatMap_cons, List.nodup_append] at hopened
    have hnew {id : CallId} (hevent : r.event = .dialed id (.ok x)) : x ∉ opened earlier :=
      fun hx => hopened.2.2 x (by simp [hevent, news]) x hx rfl
    rcases dialedTo_cons.1 h with ⟨id, hevent, hdial⟩ | hbefore <;>
      rcases dialedTo_cons.1 h' with ⟨id', hevent', hdial'⟩ | hbefore'
    · obtain ⟨rfl, -⟩ := Event.dialed.inj (hevent.symm.trans hevent')
      exact Option.some.inj (hdial.symm.trans hdial')
    · exact absurd hbefore'.mem_opened (hnew hevent)
    · exact absurd hbefore.mem_opened (hnew hevent')
    · exact ih hopened.2.1 hbefore hbefore'

theorem releasedAt_le (history : History) (x : Conn) : releasedAt history x ≤ history.length := by
  induction history with
  | nil => exact Nat.le_refl 0
  | cons r earlier ih =>
    rw [releasedAt, List.length_cons]
    split
    · exact Nat.le_refl _
    · exact Nat.le_succ_of_le ih

theorem Keeps.releasedAt_cons (h : Keeps history c) {p : Pool} (hp : c.pools.get? a = some p)
    (hx : x ∈ p.conns) : releasedAt (⟨c, draw, e⟩ :: history) x = releasedAt history x := by
  rw [releasedAt, if_neg]
  intro hany
  obtain ⟨⟨id, s⟩, hleaving, hconn⟩ := (Option.any_eq_true _ _).1 hany
  refine h.notMem_conns (leaving?_eq_some hleaving) hp ?_
  rwa [of_decide_eq_true hconn]

theorem releasedAt_of_leaving {s : Session} (h : c.leaving? e = some (id, s)) :
    releasedAt (⟨c, draw, e⟩ :: history) s.conn = history.length + 1 := by
  rw [releasedAt, if_pos (by simp [h])]

end Connections

/-- The subscribe call whose broker an event finds, with its subscription and the address of that
broker. -/
def Record.resolved? (r : Record) : Option (CallId × Subscription × Address) :=
  match r.before.looksUp? r.event with
  | some (id, s, _) =>
    (r.move.1.snapshot.route s.stream s.partition s.readIsrReplica r.draw).map fun a => (id, s, a)
  | none => none

def Resolved (history : History) (id : CallId) (s : Subscription) (a : Address) : Prop :=
  ∃ r ∈ history, r.resolved? = some (id, s, a)

/-- What follows when a call has found its broker. -/
inductive Joins (c : Client) (id : CallId) (s : Subscription) (a : Address) (m : Move) : Prop
  | late : c.closed = true → m.1.calls = c.calls.erase id → m.1.sessions = c.sessions →
    m.2 = [.finish id (.error .closed)] → Joins c id s a m
  | reuses (x : Conn) (rest : List Conn) (due : Option Nat) : c.closed = false →
    (c.pool a).conns = x :: rest → m.1.calls = c.calls.put id (.greeting s none due) →
      m.1.sessions = c.sessions.put id { subscription := s, conn := x, pool := a } →
        m.2 = [.wake (.session id)] → Joins c id s a m
  | dials : c.closed = false → (c.pool a).conns = [] → m.1.calls = c.calls.put id (.joining s a) →
    m.1.sessions = c.sessions → m.2 = [.dial id a] → Joins c id s a m

structure Misses (c : Client) (id : CallId) (m : Move) : Prop where
  calls : ∀ k, k ≠ id → m.1.calls.get? k = c.calls.get? k
  joining : ∀ s a, m.1.calls.get? id ≠ some (.joining s a)
  sessions : m.1.sessions = c.sessions
  dials : dials m.2 = []
  requests : ∀ who conn q, .call who conn q ∉ m.2

section Resolution

variable {history : History} {draw : Nat} {c : Client} {e : Event} {id : CallId}
  {s : Subscription} {a : Address} {left : Nat}

theorem resolved_cons {r : Record} : Resolved (r :: history) id s a ↔
    r.resolved? = some (id, s, a) ∨ Resolved history id s a := by
  simp [Resolved]

theorem resolved?_of_none {r : Record} (h : r.before.looksUp? r.event = none) :
    r.resolved? = none := by
  rw [Record.resolved?, h]

theorem looksUp?_of_resolved? {r : Record} (h : r.resolved? = some (id, s, a)) :
    (∃ left, r.before.looksUp? r.event = some (id, s, left)) ∧
      r.move.1.snapshot.route s.stream s.partition s.readIsrReplica r.draw = some a := by
  unfold Record.resolved? at h
  split at h
  · next k s' left hl =>
    obtain ⟨a', hroute, heq⟩ := Option.map_eq_some_iff.1 h
    obtain ⟨rfl, rfl, rfl⟩ : k = id ∧ s' = s ∧ a' = a := by simpa using heq
    exact ⟨⟨left, hl⟩, hroute⟩
  · cases h

theorem Deals.resolved?_eq (h : Deals draw c e (step draw c e))
    (hl : c.looksUp? e = some (id, s, left)) : Record.resolved? ⟨c, draw, e⟩ =
      ((c.informed e).snapshot.route s.stream s.partition s.readIsrReplica draw).map
        fun a => (id, s, a) := by
  simp only [Record.resolved?, Record.move, hl, h.informs.snapshot]

theorem Deals.found (h : Deals draw c e (step draw c e)) (hl : c.looksUp? e = some (id, s, left)) :
    (∃ a, Record.resolved? ⟨c, draw, e⟩ = some (id, s, a) ∧ Joins c id s a (step draw c e)) ∨
      Record.resolved? ⟨c, draw, e⟩ = none ∧ Misses c id (step draw c e) := by
  have hresolved := h.resolved?_eq hl
  cases h with
  | other _ hl' _ => cases hl.symm.trans hl'
  | refresh _ _ _ _ _ hl' _ _ => cases hl.symm.trans hl'
  | lookup id' s' left' link hl' _ hm =>
    obtain ⟨rfl, rfl, rfl⟩ : id = id' ∧ s = s' ∧ left = left' := by simpa using hl.symm.trans hl'
    rw [hm, informed_frame c e]
    cases lookup_finds draw { c with link, snapshot := (c.informed e).snapshot } id s left with
    | nowhere hroute _ hfinds =>
      refine .inr ⟨by simp [hresolved, hroute], ?_⟩
      rw [hfinds]
      exact ⟨fun k hk => by simp [hk], by simp, rfl, rfl, by simp [finish]⟩
    | later n due hroute _ hfinds =>
      refine .inr ⟨by simp [hresolved, hroute], ?_⟩
      rw [hfinds]
      exact ⟨fun k hk => by simp [hk], by simp, rfl, rfl, by simp⟩
    | late a hroute hlate hfinds =>
      refine .inl ⟨a, by simp [hresolved, hroute], ?_⟩
      rw [hfinds]
      exact .late hlate rfl rfl rfl
    | reuses a x p hroute hopen htake hfinds =>
      refine .inl ⟨a, by simp [hresolved, hroute], ?_⟩
      rw [hfinds]
      exact .reuses x p.conns _ hopen (conns_of_take? htake) rfl rfl rfl
    | dials a hroute hopen htake hfinds =>
      refine .inl ⟨a, by simp [hresolved, hroute], ?_⟩
      rw [hfinds]
      exact .dials hopen (take?_eq_none.1 htake) rfl rfl rfl

theorem Deals.joins (h : Deals draw c e (step draw c e))
    (hr : Record.resolved? ⟨c, draw, e⟩ = some (id, s, a)) : Joins c id s a (step draw c e) := by
  obtain ⟨⟨left, hl⟩, -⟩ := looksUp?_of_resolved? hr
  rcases h.found hl with ⟨a', hr', hjoins⟩ | ⟨hnone, -⟩
  · obtain rfl : a = a' := by simpa using hr.symm.trans hr'
    exact hjoins
  · cases hr.symm.trans hnone

theorem exists_of_looksUp? (hl : c.looksUp? e = some (id, s, left)) :
    (∃ stream o, e = .start id (.subscribe stream o) ∧ s = o.subscription stream) ∨
      ∃ due, c.calls.get? id = some (.linking (.resolve s left) due) := by
  unfold looksUp? at hl
  split at hl
  · next k stream o =>
    split at hl
    · cases hl
    · obtain ⟨rfl, rfl, -⟩ : k = id ∧ o.subscription stream = s ∧ _ = left := by simpa using hl
      exact .inl ⟨stream, o, rfl, rfl⟩
  · next k reply =>
    split at hl
    · next s' left' due _ hstage _ =>
      obtain ⟨rfl, rfl, rfl⟩ : k = id ∧ s' = s ∧ left' = left := by simpa using hl
      exact .inr ⟨due, hstage⟩
    · cases hl
  · cases hl

end Resolution

/-- What an event does to calls on their way to a broker, and to sessions. -/
structure Guides (draw : Nat) (c : Client) (e : Event) (m : Move) : Prop where
  joining : ∀ k s a, m.1.calls.get? k = some (.joining s a) →
    c.calls.get? k = some (.joining s a) ∧ (∀ b, (k, b) ∉ dials m.2) ∨
      Record.resolved? ⟨c, draw, e⟩ = some (k, s, a) ∧ m.2 = [.dial k a]
  sessions : ∀ k s, m.1.sessions.get? k = some s →
    (∃ s', c.sessions.get? k = some s' ∧ s'.origin = s.origin) ∨
      e = .dialed k (.ok s.conn) ∧ c.calls.get? k = some (.joining s.subscription s.pool) ∨
      Record.resolved? ⟨c, draw, e⟩ = some (k, s.subscription, s.pool) ∧
        s.conn ∈ (c.pool s.pool).conns
  resolving : ∀ k, m.1.Resolving k →
    (∀ s a, Record.resolved? ⟨c, draw, e⟩ ≠ some (k, s, a)) ∧
      (c.Resolving k ∨ ∃ op, e = .start k op)
  dials : ∀ k a, (k, a) ∈ dials m.2 →
    (∃ goal due, m.1.calls.get? k = some (.linking goal due)) ∨
      (∃ rest, m.1.calls.get? k = some (.probing rest)) ∨
      ∃ s, Record.resolved? ⟨c, draw, e⟩ = some (k, s, a)
  requests : ∀ who x q, .call who x (.subscribe q) ∈ m.2 →
    ∃ k s, who = .session k ∧ c.sessions.get? k = some s ∧ s.conn = x ∧ s.subscription = q

section Guides

variable {draw : Nat} {c : Client} {e : Event} {m : Move} {id : CallId} {s : Subscription}
  {a : Address}

theorem not_rests_of_resolves {stage : Stage} (h : stage.resolves = true) :
    ¬ Rests (some stage) := by
  cases stage with
  | linking _ _ | pausing _ _ _ => exact fun hr => hr
  | _ => cases h

theorem Apart.guides {c' : Client} (h : Apart draw id c' m) (hl : c.looksUp? e = none)
    (hcalls : c'.calls = c.calls) (hsessions : c'.sessions = c.sessions) :
    Guides draw c e m where
  joining k s a hs := by
    have hk : k ≠ id := fun hk => h.joining s a (hk ▸ hs)
    rw [h.calls k hk, hcalls] at hs
    exact .inl ⟨hs, fun b hd => hk (h.dials k b hd).1⟩
  sessions k s hs := by
    obtain ⟨link, calls, hframe⟩ := h.frame
    rw [hframe] at hs
    exact .inl ⟨s, hsessions ▸ hs, rfl⟩
  resolving k hk := by
    have hbefore : c'.Resolving k := by
      by_cases hki : k = id
      · exact hki ▸ h.resolving (hki ▸ hk)
      · rwa [Resolving, h.calls k hki] at hk
    rw [Resolving, hcalls] at hbefore
    exact ⟨by simp [resolved?_of_none (r := ⟨c, draw, e⟩) hl], .inl hbefore⟩
  dials k a hd := by
    obtain ⟨rfl, ⟨-, hlinking⟩ | ⟨-, hprobing⟩⟩ := h.dials k a hd
    · exact .inl hlinking
    · exact .inr (.inl hprobing)
  requests who x q hq := absurd rfl ((h.requests who x _ hq).2 q)

theorem guides_of_quiet (hl : c.looksUp? e = none)
    (hcalls : ∀ k stage, m.1.calls.get? k = some stage → ¬ Rests (some stage) →
      c.calls.get? k = some stage)
    (hsessions : ∀ k s, m.1.sessions.get? k = some s →
      (∃ s', c.sessions.get? k = some s' ∧ s'.origin = s.origin) ∨
        e = .dialed k (.ok s.conn) ∧ c.calls.get? k = some (.joining s.subscription s.pool))
    (hrequests : Subscribes c m.2) (hdials : Client.dials m.2 = []) : Guides draw c e m where
  joining k s a hs := .inl ⟨hcalls k _ hs fun hr => hr, by simp [hdials]⟩
  sessions k s hs := (hsessions k s hs).imp_right .inl
  resolving k hk := by
    obtain ⟨stage, hs, hresolves⟩ := hk
    exact ⟨by simp [resolved?_of_none (r := ⟨c, draw, e⟩) hl],
      .inl ⟨stage, hcalls k stage hs (not_rests_of_resolves hresolves), hresolves⟩⟩
  dials k a hd := by simp [hdials] at hd
  requests who x q hq := by
    obtain ⟨k, s, hwho, hs, hx, heq⟩ := hrequests who x _ hq
    exact ⟨k, s, hwho, hs, hx.symm, (Request.subscribe.inj heq).symm⟩

theorem origins_same {sessions : Table CallId Session}
    (h : ∀ k, (sessions.get? k).map Session.origin = (c.sessions.get? k).map Session.origin)
    {k : CallId} {s : Session} (hs : sessions.get? k = some s) :
    ∃ s', c.sessions.get? k = some s' ∧ s'.origin = s.origin := by
  have hk := h k
  rw [hs] at hk
  exact Option.map_eq_some_iff.1 hk.symm

theorem Handles.guides (h : Handles draw c e m) (hl : c.looksUp? e = none) : Guides draw c e m := by
  cases h with
  | call id _ h => exact h.guides hl rfl rfl
  | arrives id s a conn he hs hm =>
    subst he hm
    refine guides_of_quiet hl (fun k stage hk hr => ?_) (fun k s' hk => ?_) (fun _ _ _ hq => ?_) rfl
    · by_cases hki : k = id
      · obtain rfl : .greeting s none _ = stage := by simpa [launch, hki] using hk
        exact absurd trivial hr
      · simpa [launch, hki] using hk
    · by_cases hki : k = id
      · subst hki
        obtain rfl : { subscription := s, conn, pool := a } = s' := by
          simpa [launch, Client.put, Table.get?_put] using hk
        exact .inr ⟨rfl, hs⟩
      · exact .inl ⟨s', by simpa [launch, Client.put, Table.get?_put, hki] using hk, rfl⟩
    · simp [launch] at hq
  | talks _ h =>
    exact guides_of_quiet hl h.calls (fun k s hs => .inl (origins_same h.origins hs)) h.subscribes
      h.quiet.dials
  | leaves id s _ h =>
    refine guides_of_quiet hl h.calls (fun k s' hs => ?_) h.subscribes h.quiet.dials
    rw [h.sessions] at hs
    split at hs
    · cases hs
    · exact .inl ⟨s', hs, rfl⟩
  | shuts id _ hclosed hm =>
    rw [hm]
    exact (apart_close draw id hclosed).guides hl rfl rfl
  | ticks now _ hm =>
    subst hm
    exact guides_of_quiet hl (fun _ _ hs _ => hs) (fun _ s hs => .inl ⟨s, hs, rfl⟩)
      (fun _ _ _ hq => by simp [tick] at hq) rfl
  | expires _ hm =>
    subst hm
    exact guides_of_quiet hl (fun _ _ hs _ => hs) (fun _ s hs => .inl ⟨s, hs, rfl⟩)
      (fun _ _ _ hq => by simp [expire] at hq)
      (quiet_flatMap_close c.pools.values fun p => (p.expire c.now).2).dials

theorem Joins.calls_eq (h : Joins c id s a m) {k : CallId} (hk : k ≠ id) :
    m.1.calls.get? k = c.calls.get? k := by
  cases h with
  | late _ hcalls => simp [hcalls, Table.get?_erase, hk]
  | reuses _ _ _ _ _ hcalls | dials _ _ hcalls => simp [hcalls, Table.get?_put, hk]

theorem Joins.not_resolving (h : Joins c id s a m) : ¬ m.1.Resolving id := by
  rintro ⟨stage, hs, hresolves⟩
  cases h with
  | late _ hcalls => simp [hcalls, Table.get?_erase] at hs
  | reuses _ _ due _ _ hcalls =>
    obtain rfl : .greeting s none due = stage := by simpa [hcalls, Table.get?_put] using hs
    cases hresolves
  | dials _ _ hcalls =>
    obtain rfl : .joining s a = stage := by simpa [hcalls, Table.get?_put] using hs
    cases hresolves

theorem Joins.joining {s' : Subscription} {a' : Address} (h : Joins c id s a m)
    (hs : m.1.calls.get? id = some (.joining s' a')) : s' = s ∧ a' = a ∧ m.2 = [.dial id a] := by
  cases h with
  | late _ hcalls => simp [hcalls, Table.get?_erase] at hs
  | reuses _ _ _ _ _ hcalls => simp [hcalls, Table.get?_put] at hs
  | dials _ _ hcalls _ heffects =>
    obtain ⟨rfl, rfl⟩ : s = s' ∧ a = a' := by simpa [hcalls, Table.get?_put] using hs
    exact ⟨rfl, rfl, heffects⟩

theorem Joins.of_mem_dials {k : CallId} {b : Address} (h : Joins c id s a m)
    (hd : (k, b) ∈ Client.dials m.2) : k = id ∧ b = a := by
  cases h with
  | late _ _ _ heffects | reuses _ _ _ _ _ _ _ heffects => simp [heffects, Client.dials] at hd
  | dials _ _ _ _ heffects => simpa [heffects, Client.dials] using hd

theorem Joins.requests (h : Joins c id s a m) (who : Party) (x : Conn) (q : Request) :
    .call who x q ∉ m.2 := by
  cases h with
  | late _ _ _ heffects | reuses _ _ _ _ _ _ _ heffects | dials _ _ _ _ heffects =>
    simp [heffects]

theorem Joins.sessions {k : CallId} {s' : Session} (h : Joins c id s a m)
    (hs : m.1.sessions.get? k = some s') : c.sessions.get? k = some s' ∨
      k = id ∧ s'.subscription = s ∧ s'.pool = a ∧ s'.conn ∈ (c.pool a).conns := by
  cases h with
  | late _ _ hsessions | dials _ _ _ hsessions => exact .inl (hsessions ▸ hs)
  | reuses x rest due _ hconns _ hsessions =>
    rw [hsessions, Table.get?_put] at hs
    split at hs
    · next hk =>
      obtain rfl := Option.some.inj hs
      exact .inr ⟨hk, rfl, rfl, by simp [hconns]⟩
    · exact .inl hs

theorem Joins.guides (h : Joins c id s a m)
    (hr : Record.resolved? ⟨c, draw, e⟩ = some (id, s, a)) : Guides draw c e m where
  joining k s' a' hs := by
    by_cases hk : k = id
    · subst hk
      obtain ⟨rfl, rfl, heffects⟩ := h.joining hs
      exact .inr ⟨hr, heffects⟩
    · exact .inl ⟨h.calls_eq hk ▸ hs, fun b hd => hk (h.of_mem_dials hd).1⟩
  sessions k s' hs := by
    rcases h.sessions hs with hbefore | ⟨rfl, rfl, rfl, hx⟩
    · exact .inl ⟨s', hbefore, rfl⟩
    · exact .inr (.inr ⟨hr, hx⟩)
  resolving k hk := by
    -- the call itself is done with its lookups, and whoever else is between two was so before
    have hki : k ≠ id := fun hki => h.not_resolving (hki ▸ hk)
    rw [Resolving, h.calls_eq hki] at hk
    exact ⟨by simp [hr, Ne.symm hki], .inl hk⟩
  dials k b hd := by
    obtain ⟨rfl, rfl⟩ := h.of_mem_dials hd
    exact .inr (.inr ⟨s, hr⟩)
  requests who x q hq := absurd hq (h.requests who x _)

theorem Misses.guides {left : Nat} (h : Misses c id m)
    (hr : Record.resolved? ⟨c, draw, e⟩ = none) (hl : c.looksUp? e = some (id, s, left)) :
    Guides draw c e m where
  joining k s' a hs := by
    have hk : k ≠ id := fun hk => h.joining s' a (hk ▸ hs)
    exact .inl ⟨h.calls k hk ▸ hs, by simp [h.dials]⟩
  sessions k s' hs := .inl ⟨s', h.sessions ▸ hs, rfl⟩
  resolving k hk := by
    refine ⟨by simp [hr], ?_⟩
    by_cases hki : k = id
    · subst hki
      rcases exists_of_looksUp? hl with ⟨stream, o, he, -⟩ | ⟨due, hs⟩
      · exact .inr ⟨_, he⟩
      · exact .inl ⟨_, hs, rfl⟩
    · rw [Resolving, h.calls k hki] at hk
      exact .inl hk
  dials k a hd := by simp [h.dials] at hd
  requests who x q hq := absurd hq (h.requests who x _)

theorem Deals.guides (h : Deals draw c e (step draw c e)) : Guides draw c e (step draw c e) := by
  cases hl : c.looksUp? e with
  | some found =>
    obtain ⟨id, s, left⟩ := found
    rcases h.found hl with ⟨a, hr, hjoins⟩ | ⟨hr, hmisses⟩
    · exact hjoins.guides hr
    · exact hmisses.guides hr hl
  | none =>
    cases h with
    | other _ _ h => exact h.guides hl
    | refresh id t o _ _ _ _ hm =>
      rw [hm]
      refine guides_of_quiet hl (fun k stage hs _ => ?_) (fun _ s hs => .inl ⟨s, hs, rfl⟩)
        (fun _ _ _ hq => by simp [finish] at hq) rfl
      by_cases hk : k = id
      · simp [hk] at hs
      · simpa [hk, install] using hs
    | lookup _ _ _ _ hl' _ _ => cases hl.symm.trans hl'

end Guides

end StreamClient.Client
