import StreamClient.Proofs.Client.Conduct
import StreamClient.Proofs.Link.Dialing

/-! What a move for one call, or a turn of a session, does to the snapshot, to the pools and to the
connections of sessions, and what it dials and asks for. -/

namespace StreamClient

def Session.origin (s : Session) : Subscription × Conn × Address := (s.subscription, s.conn, s.pool)

theorem Session.origin_of_goOn {heard : Bool} {s s' : Session} {e : Session.Stimulus}
    {actions : List Session.Action} (h : s.turn heard e = .goOn s' actions) :
    s'.origin = s.origin := by
  unfold Session.turn at h
  split at h
  · cases h
  · split at h <;> (try split at h) <;> cases h <;> rfl

theorem Session.ask_of_goOn {heard : Bool} {s s' : Session} {e : Session.Stimulus}
    {actions : List Session.Action} (h : s.turn heard e = .goOn s' actions) {q : Subscription}
    (hq : .ask q ∈ actions) : q = s.subscription := by
  unfold Session.turn at h
  split at h
  · cases h
  · split at h <;> (try split at h) <;> cases h <;> first
      | exact Action.ask.inj (List.mem_singleton.1 hq)
      | exact absurd hq (by simp)

theorem mem_shuffle {α : Type} {x : α} {draw : Nat} {l : List α} :
    x ∈ shuffle draw l ↔ x ∈ l := by
  induction l generalizing draw with
  | nil => rfl
  | cons a r ih =>
    have hle : draw % (r.length + 1) ≤ (shuffle (draw / (r.length + 1)) r).length := by
      rw [length_shuffle]
      exact Nat.le_of_lt_succ (Nat.mod_lt draw (Nat.succ_pos _))
    rw [shuffle, List.mem_insertIdx hle, ih, List.mem_cons]

namespace Client

def dials (effects : List Effect) : List (CallId × Address) :=
  effects.filterMap fun
    | .dial id a => some (id, a)
    | _ => none

@[simp] theorem dials_nil : dials [] = [] := rfl

@[simp] theorem dials_append (a b : List Effect) : dials (a ++ b) = dials a ++ dials b :=
  List.filterMap_append ..

@[simp] theorem dials_map_close (conns : List Conn) : dials (conns.map .close) = [] := by
  simp [dials, List.filterMap_map]

theorem mem_dials {effects : List Effect} {id : CallId} {a : Address} :
    (id, a) ∈ dials effects ↔ .dial id a ∈ effects := by
  rw [dials, List.mem_filterMap]
  constructor
  · rintro ⟨x, hx, heq⟩
    cases x <;> cases heq
    exact hx
  · exact fun h => ⟨_, h, rfl⟩

theorem mem_dials_map_ofOrder {orders : List (Link.Order Request)} {id : CallId} {a : Address} :
    (id, a) ∈ dials (orders.map ofOrder) ↔ .dial id a ∈ orders := by
  rw [mem_dials, List.mem_map]
  constructor
  · rintro ⟨o, ho, heq⟩
    cases o <;> cases heq
    exact ho
  · exact fun h => ⟨_, h, rfl⟩

structure Quiet (effects : List Effect) : Prop where
  dials : dials effects = []
  refreshed : ∀ k s, .finish k (.ok (.refreshed s)) ∉ effects

theorem Quiet.append {a b : List Effect} (ha : Quiet a) (hb : Quiet b) : Quiet (a ++ b) where
  dials := by rw [dials_append, ha.dials, hb.dials]; rfl
  refreshed k s h := (List.mem_append.1 h).elim (ha.refreshed k s) (hb.refreshed k s)

def Effect.isWork : Effect → Bool
  | .dial .. | .call (.caller _) .. | .consult .. => true
  | _ => false

/-- No call asks for anything. -/
def Light (effects : List Effect) : Prop := ∀ x ∈ effects, x.isWork = false

theorem Light.dials {effects : List Effect} (h : Light effects) : Client.dials effects = [] := by
  refine List.filterMap_eq_nil_iff.2 fun x hx => ?_
  have hwork := h x hx
  cases x <;> first | rfl | cases hwork

theorem light_greet (c : Client) (id : CallId) (verdict : Except Fault Unit) :
    Light (c.greet id verdict).2 := fun x hx => by
  rw [(greet_hears c id verdict).2 x hx]
  rfl

theorem light_giveBack (c : Client) (address : Address) (conn : Conn) :
    Light (c.giveBack address conn).2 := fun x hx => by
  obtain ⟨y, rfl⟩ := (giveBack_frame c address conn).2 x hx
  rfl

theorem light_nil : Light [] := fun x hx => by cases hx

theorem Light.append {a b : List Effect} (ha : Light a) (hb : Light b) : Light (a ++ b) :=
  fun x hx => (List.mem_append.1 hx).elim (ha x) (hb x)

theorem light_singleton {x : Effect} (h : x.isWork = false) : Light [x] := fun y hy => by
  rwa [List.mem_singleton.1 hy]

theorem light_performAll (id : CallId) (conn : Conn) (deeds : List Session.Deed) (c : Client) :
    Light (c.performAll id conn deeds).2 := by
  induction deeds generalizing c with
  | nil => exact light_nil
  | cons d rest ih =>
    refine Light.append ?_ (ih _)
    cases d with
    | act a =>
      cases a with
      | greet r => exact light_greet c id r
      | _ => exact light_singleton rfl
    | opened => exact light_nil
    | release address x => exact light_giveBack _ address x
    | report f => exact light_singleton rfl
    | terminated => exact Light.append (light_singleton rfl) (light_greet c id _)

theorem light_stimulate (c : Client) (id : CallId) (e : Session.Stimulus) :
    Light (c.stimulate id e).2 := by
  cases hs : c.sessions.get? id with
  | none =>
    rw [stimulate, hs]
    exact light_nil
  | some s =>
    rw [stimulate_eq_performAll hs]
    exact light_performAll _ _ _ _

theorem light_unsubscribe (c : Client) (id : CallId) : Light (c.unsubscribe id).2 := fun x hx => by
  rw [(unsubscribe_frame c id).2 x hx]
  rfl

theorem quiet_stimulate (c : Client) (id : CallId) (e : Session.Stimulus) :
    Quiet (c.stimulate id e).2 where
  dials := (light_stimulate c id e).dials
  refreshed k s := by
    cases hs : c.sessions.get? id with
    | none =>
      rw [stimulate, hs]
      simp [stay]
    | some _ => exact (turned_stimulate hs e).finish k _

theorem quiet_unsubscribe (c : Client) (id : CallId) : Quiet (c.unsubscribe id).2 :=
  ⟨(light_unsubscribe c id).dials, fun k _ => (plain_unsubscribe c id).2 k _⟩

theorem asked_eq_some {c : Client} {id : CallId} {q : Request} :
    c.asked id = some q ↔ ∃ e conn, c.link.jobs.get? id = some (.calling e conn) ∧ e.request = q := by
  rw [asked]
  constructor
  · intro h
    split at h
    · next e conn hj => exact ⟨e, conn, hj, Option.some.inj h⟩
    · cases h
  · rintro ⟨e, conn, hj, rfl⟩
    rw [hj]

def Goal.refreshes : Goal → Bool
  | .connect | .created | .fetch | .resolve .. => true
  | _ => false

def Goal.resolves : Goal → Bool
  | .resolve .. => true
  | _ => false

def Stage.resolves : Stage → Bool
  | .linking goal _ => goal.resolves
  | .pausing .. => true
  | _ => false

def Resolving (c : Client) (id : CallId) : Prop :=
  ∃ stage, c.calls.get? id = some stage ∧ stage.resolves = true

/-- What a call with this goal asks for. -/
def Goal.Serves : Goal → Request → Prop
  | .connect, q | .created, q | .fetch, q | .resolve .., q => q = .fetchMetadata
  | .create _, q => ∃ creation, q = .createStream creation
  | .delete name, q => q = .deleteStream name
  | .publish, q => (∃ stream partition payload deadline,
      q = .publish stream partition payload deadline) ∨
      ∃ subject payload deadline, q = .publishToSubject subject payload deadline

theorem Goal.Serves.fetch_iff {goal : Goal} {q : Request} (h : goal.Serves q) :
    q = .fetchMetadata ↔ goal.refreshes = true := by
  cases goal with
  | create name =>
    obtain ⟨creation, rfl⟩ := h
    simp [refreshes]
  | delete name =>
    obtain rfl := h
    simp [refreshes]
  | publish =>
    rcases h with ⟨stream, partition, payload, deadline, rfl⟩ | ⟨subject, payload, deadline, rfl⟩ <;>
      simp [refreshes]
  | _ => exact ⟨fun _ => rfl, fun _ => h⟩

theorem Goal.Serves.ne_subscribe {goal : Goal} {q : Request} (h : goal.Serves q) (s : Subscription) :
    q ≠ .subscribe s := by
  rintro rfl
  cases goal with
  | create name =>
    obtain ⟨creation, heq⟩ := h
    cases heq
  | publish =>
    rcases h with ⟨stream, partition, payload, deadline, heq⟩ | ⟨subject, payload, deadline, heq⟩ <;>
      cases heq
  | _ => cases h

/-- The response to the metadata request of a call, if an event brings one. -/
def fetched? (c : Client) : Event → Option Topology
  | .answered (.caller id) (.ok reply) =>
    match c.asked id with
    | some .fetchMetadata => some reply.topology
    | _ => none
  | _ => none

/-- The subscription that a call looks its partition up for in an event, and the lookups that may
follow. -/
def looksUp? (c : Client) : Event → Option (CallId × Subscription × Nat)
  | .start id (.subscribe stream o) =>
    if c.closed then none else some (id, o.subscription stream, c.settings.lookups - 1)
  | .answered (.caller id) (.ok _) =>
    match c.calls.get? id, c.asked id with
    | some (.linking (.resolve s left) _), some _ => some (id, s, left)
    | _, _ => none
  | _ => none

def leaving? (c : Client) (e : Event) : Option (CallId × Session) :=
  match e.turn? with
  | some (id, stimulus) =>
    match c.sessions.get? id with
    | some s =>
      match s.turn (c.isHeard id) stimulus with
      | .over .. => some (id, s)
      | .goOn .. => none
    | none => none
  | none => none

/-- What a client is on the link for fits the stages of its calls, and it keeps the bootstrap
addresses it was given. -/
structure Sensible (c : Client) : Prop where
  bootstrap : c.snapshot.bootstrap = Snapshot.distinctAddresses c.settings.bootstrap
  probing : ∀ id rest, c.calls.get? id = some (.probing rest) →
    ∀ a ∈ rest, a ∈ c.settings.bootstrap
  wants : ∀ id goal due, c.calls.get? id = some (.linking goal due) →
    ∃ q, c.link.Wants id q ∧ goal.Serves q

theorem Sensible.mem_addresses {c : Client} (h : c.Sensible) {a : Address}
    (ha : a ∈ c.settings.bootstrap) : a ∈ c.snapshot.addresses := by
  rw [Snapshot.addresses, Snapshot.mem_distinctAddresses, List.mem_append, h.bootstrap,
    Snapshot.mem_distinctAddresses]
  exact .inl ha

/-- A move for the call `id` that comes to no lookup and installs nothing. -/
structure Apart (draw : Nat) (id : CallId) (c : Client) (m : Move) : Prop where
  frame : ∃ link calls, m.1 = { c with link, calls }
  calls : ∀ k, k ≠ id → m.1.calls.get? k = c.calls.get? k
  jobs : ∀ k, k ≠ id → m.1.link.jobs.get? k = c.link.jobs.get? k
  joining : ∀ s a, m.1.calls.get? id ≠ some (.joining s a)
  resolving : m.1.Resolving id → c.Resolving id
  probing : ∀ rest, m.1.calls.get? id = some (.probing rest) → ∀ a ∈ rest, a ∈ c.settings.bootstrap
  wants : ∀ goal due, m.1.calls.get? id = some (.linking goal due) →
    ∃ q, m.1.link.Wants id q ∧ goal.Serves q
  asked : ∀ q, m.1.asked id = some q →
    c.asked id = some q ∨ ∃ conn, .call (.caller id) conn q ∈ m.2
  requests : ∀ who conn q, .call who conn q ∈ m.2 → who = .caller id ∧ ∀ s, q ≠ .subscribe s
  dials : ∀ k a, (k, a) ∈ dials m.2 → k = id ∧
    ((c.pick draw = some a ∧ ∃ goal due, m.1.calls.get? id = some (.linking goal due)) ∨
      a ∈ c.settings.bootstrap ∧ ∃ rest, m.1.calls.get? id = some (.probing rest))
  refreshed : ∀ k s, .finish k (.ok (.refreshed s)) ∉ m.2

section Apart

variable {draw : Nat} {id : CallId} {c : Client}

theorem apart_finish (c : Client) (id : CallId) {r : Except CallError Outcome}
    (hr : ∀ s, r ≠ .ok (.refreshed s)) : Apart draw id c (c.finish id r) where
  frame := ⟨c.link, _, rfl⟩
  calls k hk := by simp [hk]
  jobs _ _ := rfl
  joining s a := by simp
  resolving h := by simp [Resolving] at h
  probing rest h := by simp at h
  wants goal due h := by simp at h
  asked _ hq := .inl hq
  requests who conn q h := by simp [finish] at h
  dials k a h := by cases h
  refreshed k s h := by
    obtain ⟨-, heq⟩ := Effect.finish.inj (List.mem_singleton.1 h)
    exact hr s heq.symm

theorem apart_turn {t : Link.Turn Request Reply} {m : Move}
    (h : ∀ k a, .dial k a ∈ t.orders → k = id ∧ c.pick draw = some a ∧
      ∃ goal due, m.1.calls.get? id = some (.linking goal due))
    (hasks : Link.Asks c.link id t)
    (hcalls : ∀ k conn q, .call k conn q ∈ t.orders → k = id ∧ ∀ s, q ≠ .subscribe s)
    (hjobs : ∀ k, k ≠ id → t.link.jobs.get? k = c.link.jobs.get? k)
    (hm : Apart draw id { c with link := t.link } m) :
    Apart draw id c (m.after (t.orders.map ofOrder)) where
  frame := by
    obtain ⟨link, calls, hframe⟩ := hm.frame
    exact ⟨link, calls, hframe⟩
  calls := hm.calls
  jobs k hk := (hm.jobs k hk).trans (hjobs k hk)
  joining := hm.joining
  resolving := hm.resolving
  probing := hm.probing
  wants := hm.wants
  asked q hq := by
    rcases hm.asked q hq with hasked | ⟨conn, hcall⟩
    · obtain ⟨e, conn, hj, rfl⟩ := asked_eq_some.1 hasked
      rcases hasks e conn hj with hj' | hcall
      · exact .inl (asked_eq_some.2 ⟨e, conn, hj', rfl⟩)
      · exact .inr ⟨conn, List.mem_append_left _ (List.mem_map_of_mem hcall)⟩
    · exact .inr ⟨conn, List.mem_append_right _ hcall⟩
  requests who conn q hq := by
    rcases List.mem_append.1 hq with hq | hq
    · obtain ⟨o, ho, heq⟩ := List.mem_map.1 hq
      cases o with
      | call k conn' q' =>
        obtain ⟨rfl, rfl, rfl⟩ := Effect.call.inj heq
        obtain ⟨rfl, hne⟩ := hcalls k conn' q' ho
        exact ⟨rfl, hne⟩
      | _ => cases heq
    · exact hm.requests who conn q hq
  dials k a hd := by
    rw [Move.after, dials_append, List.mem_append, mem_dials_map_ofOrder] at hd
    rcases hd with hd | hd
    · exact (h k a hd).imp_right .inl
    · exact hm.dials k a hd
  refreshed k s hf := by
    refine (List.mem_append.1 hf).elim (fun hf => ?_) (hm.refreshed k s)
    obtain ⟨o, -, ho⟩ := List.mem_map.1 hf
    cases o <;> cases ho

theorem apart_put {stage : Stage} {effects : List Effect}
    (hj : ∀ s a, stage ≠ .joining s a) (hr : stage.resolves = true → c.Resolving id)
    (hprobing : ∀ rest, stage = .probing rest → ∀ a ∈ rest, a ∈ c.settings.bootstrap)
    (hwants : ∀ goal due, stage = .linking goal due →
      ∃ q, c.link.Wants id q ∧ goal.Serves q)
    (hdials : ∀ k a, (k, a) ∈ dials effects → k = id ∧ a ∈ c.settings.bootstrap ∧
      ∃ rest, stage = .probing rest)
    (hcalls : ∀ who conn q, .call who conn q ∉ effects)
    (hrefreshed : ∀ k s, .finish k (.ok (.refreshed s)) ∉ effects) :
    Apart draw id c (c.put id stage, effects) where
  frame := ⟨c.link, _, rfl⟩
  calls k hk := by simp [hk]
  jobs _ _ := rfl
  joining s a := by simpa using hj s a
  resolving h := by
    obtain ⟨stage', hstage, hresolves⟩ := h
    obtain rfl : stage = stage' := by simpa using hstage
    exact hr hresolves
  probing rest h := hprobing rest (by simpa using h)
  wants goal due h := hwants goal due (by simpa using h)
  asked _ hq := .inl hq
  requests who conn q h := absurd h (hcalls who conn q)
  dials k a hd := by
    obtain ⟨hk, ha, rest, rfl⟩ := hdials k a hd
    exact ⟨hk, .inr ⟨ha, rest, by simp⟩⟩
  refreshed := hrefreshed

theorem apart_follow {q : Request} {goal : Goal} {due : Option Nat}
    {t : Link.Turn Request Reply} {next : Client → Except Fault Reply → Move}
    (h : Link.Seeks (c.pick draw) c.link id q t) (hq : goal.Serves q)
    (hr : goal.resolves = true → c.Resolving id)
    (hjobs : ∀ k, k ≠ id → t.link.jobs.get? k = c.link.jobs.get? k)
    (hnext : ∀ c' f, ∃ r, (∀ s, r ≠ .ok (.refreshed s)) ∧ next c' (.error f) = c'.finish id r) :
    Apart draw id c (c.follow id goal due t next) := by
  have hcalls : ∀ k conn q', .call k conn q' ∈ t.orders → k = id ∧ ∀ s, q' ≠ .subscribe s := by
    intro k conn q' hcall
    obtain ⟨hk, rfl⟩ := h.calls k conn q' hcall
    exact ⟨hk, hq.ne_subscribe⟩
  cases he : t.ending with
  | none =>
    have hput (due' : Option Nat) :
        Apart draw id { c with link := t.link } (Client.put { c with link := t.link } id
          (.linking goal due'), []) := by
      refine apart_put (by simp) hr (by simp) (fun goal' due'' hstage => ?_) (by simp) (by simp)
        (by simp)
      obtain ⟨rfl, -⟩ := Stage.linking.inj hstage
      exact ⟨q, h.wants, hq⟩
    have hdials : ∀ k a, .dial k a ∈ t.orders → k = id ∧ c.pick draw = some a ∧
        ∃ goal' due', (Client.put { c with link := t.link } id (.linking goal
          ((answerDue c.now t.orders).or (if (asked { c with link := t.link } id).isSome then due
            else none)))).calls.get? id = some (.linking goal' due') := fun k a hd => by
      obtain ⟨hk, hpick, -⟩ := h.dials k a hd
      exact ⟨hk, hpick, goal, _, by simp; rfl⟩
    have hmove := apart_turn hdials h.asks hcalls hjobs (hput ((answerDue c.now t.orders).or
      (if (asked { c with link := t.link } id).isSome then due else none)))
    simpa [follow, he, Move.after] using hmove
  | some e =>
    obtain ⟨f, rfl⟩ := h.ending e he
    obtain ⟨r, hr, heq⟩ := hnext { c with link := t.link } f
    -- a turn that dials does not end
    have hdials (m : Move) : ∀ k a, .dial k a ∈ t.orders → k = id ∧ c.pick draw = some a ∧
        ∃ goal due, m.1.calls.get? id = some (.linking goal due) := fun k a hd => by
      obtain ⟨-, -, hnone⟩ := h.dials k a hd
      cases hnone.symm.trans he
    simp only [follow, he, heq]
    exact apart_turn (hdials _) h.asks hcalls hjobs (apart_finish _ id hr)

theorem settle_error (draw : Nat) (c : Client) (id : CallId) (goal : Goal) (f : Fault) :
    ∃ r, (∀ s, r ≠ .ok (.refreshed s)) ∧ settle draw c id goal (.error f) = c.finish id r := by
  cases goal
  case created => exact ⟨.ok .done, by simp, rfl⟩
  all_goals exact ⟨_, by simp, rfl⟩

theorem apart_engage {q : Request} {goal : Goal} (due : Option Nat)
    {t : Link.Turn Request Reply} (h : Link.Seeks (c.pick draw) c.link id q t)
    (hq : goal.Serves q)
    (hr : goal.resolves = true → c.Resolving id)
    (hjobs : ∀ k, k ≠ id → t.link.jobs.get? k = c.link.jobs.get? k) :
    Apart draw id c (engage draw c id goal due t) :=
  apart_follow h hq hr hjobs fun c' f => settle_error draw c' id goal f

theorem apart_submit (draw : Nat) (c : Client) (id : CallId) {goal : Goal} {q : Request}
    (hq : goal.Serves q) (hr : goal.resolves = true → c.Resolving id) :
    Apart draw id c (submit draw c id goal q) :=
  apart_engage none (Link.submit_seeks _ _ id q) hq hr fun _ hk => Link.pursue_others _ hk _ _ _ _

theorem apart_closeLink {t : Link.Turn Request Reply}
    (h : Link.Asks c.link id t ∧ Link.Silent t.orders)
    (hjobs : ∀ k, k ≠ id → t.link.jobs.get? k = c.link.jobs.get? k) :
    Apart draw id c (c.closeLink id t) := by
  have hdials (m : Move) : ∀ k a, .dial k a ∈ t.orders → k = id ∧ c.pick draw = some a ∧
      ∃ goal due, m.1.calls.get? id = some (.linking goal due) :=
    fun k a hd => absurd hd (h.2.dial_notMem k a)
  have hcalls : ∀ k conn q, .call k conn q ∈ t.orders → k = id ∧ ∀ s, q ≠ .subscribe s :=
    fun k conn q hc => absurd hc (h.2.call_notMem k conn q)
  cases he : t.ending with
  | none =>
    have hput : Apart draw id { c with link := t.link } (Client.put { c with link := t.link } id
        .closing, []) :=
      apart_put (by simp) (by simp [Stage.resolves]) (by simp) (by simp) (by simp) (by simp) (by simp)
    have hmove := apart_turn (hdials _) h.1 hcalls hjobs hput
    simpa [closeLink, he, Move.after] using hmove
  | some e =>
    simp only [closeLink, he]
    exact apart_turn (hdials _) h.1 hcalls hjobs (apart_finish _ id (by simp))

theorem apart_probe (c : Client) (id : CallId) (last : Option Fault) {addresses : List Address}
    (h : ∀ a ∈ addresses, a ∈ c.settings.bootstrap) :
    Apart draw id c (c.probe id last addresses) := by
  cases addresses with
  | nil => exact apart_finish c id (by simp)
  | cons a rest =>
    refine apart_put (by simp) (by simp [Stage.resolves]) (fun rest' hstage a' ha' => ?_) (by simp)
      (fun k a' hd => ?_) (by simp) (by simp)
    · obtain rfl := Stage.probing.inj hstage
      exact h a' (List.mem_cons_of_mem _ ha')
    · obtain ⟨rfl, rfl⟩ : k = id ∧ a' = a := by simpa [dials] using hd
      exact ⟨rfl, h a' (List.mem_cons_self ..), rest, rfl⟩

end Apart

def Subscribes (c : Client) (effects : List Effect) : Prop :=
  ∀ who x q, .call who x q ∈ effects →
    ∃ id s, who = .session id ∧ c.sessions.get? id = some s ∧ x = s.conn ∧
      q = .subscribe s.subscription

structure Talks (c : Client) (m : Move) : Prop where
  frame : ∃ calls sessions, m.1 = { c with calls, sessions }
  calls : ∀ k stage, m.1.calls.get? k = some stage → ¬ Rests (some stage) →
    c.calls.get? k = some stage
  origins : ∀ k, (m.1.sessions.get? k).map Session.origin = (c.sessions.get? k).map Session.origin
  subscribes : Subscribes c m.2
  quiet : Quiet m.2

structure Leaves (id : CallId) (s : Session) (c : Client) (m : Move) : Prop where
  running : c.sessions.get? id = some s
  frame : ∃ calls sessions,
    m.1 = { c with calls, sessions, pools := (c.giveBack s.pool s.conn).1.pools }
  calls : ∀ k stage, m.1.calls.get? k = some stage → ¬ Rests (some stage) →
    c.calls.get? k = some stage
  sessions : ∀ k, m.1.sessions.get? k = if k = id then none else c.sessions.get? k
  closes : closes m.2 = closes (c.giveBack s.pool s.conn).2
  subscribes : Subscribes c m.2
  quiet : Quiet m.2

section Sessions

variable {c : Client} {id : CallId}

theorem talks_stay (c : Client) : Talks c c.stay where
  frame := ⟨c.calls, c.sessions, rfl⟩
  calls _ _ h _ := h
  origins _ := rfl
  subscribes who x q h := by cases h
  quiet := ⟨rfl, by simp [stay]⟩

theorem call_of_actAll {conn x : Conn} {who : Party} {q : Request} {actions : List Session.Action}
    (h : .call who x q ∈ (c.actAll id conn actions).2) :
    who = .session id ∧ x = conn ∧ ∃ s, .ask s ∈ actions ∧ q = .subscribe s := by
  induction actions generalizing c with
  | nil => cases h
  | cons a rest ih =>
    rcases List.mem_append.1 h with h | h
    · cases a with
      | ask s =>
        obtain ⟨rfl, rfl, rfl⟩ := Effect.call.inj (List.mem_singleton.1 h)
        exact ⟨rfl, rfl, s, List.mem_cons_self .., rfl⟩
      | greet r => cases (greet_hears c id r).2 _ h
      | _ => cases List.mem_singleton.1 h
    · obtain ⟨hwho, hx, s, hs, hq⟩ := ih h
      exact ⟨hwho, hx, s, List.mem_cons_of_mem _ hs, hq⟩

theorem subscribes_stimulate (c : Client) (id : CallId) (e : Session.Stimulus) :
    Subscribes c (c.stimulate id e).2 := by
  intro who x q h
  cases hs : c.sessions.get? id with
  | none =>
    rw [stimulate, hs] at h
    cases h
  | some s =>
    cases ht : s.turn (c.isHeard id) e with
    | goOn s' actions =>
      simp only [stimulate, hs, ht] at h
      obtain ⟨rfl, rfl, sub, hsub, rfl⟩ := call_of_actAll h
      refine ⟨id, s, rfl, hs, Session.conn_of_goOn ht, ?_⟩
      rw [Session.ask_of_goOn ht hsub]
    | «over» actions report =>
      simp only [stimulate, hs, ht] at h
      rcases List.mem_append.1 h with h | h
      · obtain ⟨-, -, sub, hsub, -⟩ := call_of_actAll h
        exact absurd hsub (Session.ask_notMem_of_over ht sub)
      · -- whoever ends only closes and tells
        simp only [terminate] at h
        rcases List.mem_append.1 h with h | h
        · rcases List.mem_append.1 h with h | h
          · rcases List.mem_append.1 h with h | h
            · obtain ⟨y, heq⟩ := (giveBack_frame _ s.pool s.conn).2 _ h
              cases heq
            · obtain ⟨r, -, heq⟩ := List.mem_map.1 h
              cases heq
          · cases List.mem_singleton.1 h
        · cases (greet_hears _ id _).2 _ h

theorem calls_of_turned {next : Option Session} {deeds : List Session.Deed} {m : Move}
    (h : Turned id next deeds c m) (k : CallId) (stage : Stage)
    (hs : m.1.calls.get? k = some stage) (hr : ¬ Rests (some stage)) :
    c.calls.get? k = some stage := by
  by_cases hk : k = id
  · subst hk
    rcases h.stage with hsame | ⟨s, verdict, due, -, hafter, -⟩
    · exact hsame ▸ hs
    · obtain rfl := Option.some.inj (hafter.symm.trans hs)
      exact absurd trivial hr
  · exact h.calls k hk ▸ hs

theorem closes_greet (c : Client) (id : CallId) (verdict : Except Fault Unit) :
    closes (c.greet id verdict).2 = [] := by
  refine List.filterMap_eq_nil_iff.2 fun x hx => ?_
  rw [(greet_hears c id verdict).2 x hx]

theorem talks_stimulate {s s' : Session} {e : Session.Stimulus} {actions : List Session.Action}
    (hs : c.sessions.get? id = some s) (ht : s.turn (c.isHeard id) e = .goOn s' actions) :
    Talks c (c.stimulate id e) := by
  have hturned := turned_stimulate hs e
  obtain ⟨hears, -, -⟩ := actAll_hears id s'.conn actions
    { c with sessions := c.sessions.put id s' }
  refine ⟨?_, calls_of_turned hturned, fun k => ?_, subscribes_stimulate c id e,
    quiet_stimulate c id e⟩
  · obtain ⟨calls, sessions, pools, hframe⟩ := stimulate_frame c id e
    have hpools : (c.stimulate id e).1.pools = c.pools := by
      simp only [stimulate, hs, ht]
      exact hears.pools
    rw [hframe] at hpools
    obtain rfl : pools = c.pools := hpools
    exact ⟨calls, sessions, hframe⟩
  · rw [hturned.sessions, ht]
    by_cases hk : k = id
    · rw [if_pos hk, hk, hs]
      exact congrArg some (Session.origin_of_goOn ht)
    · rw [if_neg hk]

theorem leaves_stimulate {s : Session} {e : Session.Stimulus} {actions : List Session.Action}
    {report : Option CallError} (hs : c.sessions.get? id = some s)
    (ht : s.turn (c.isHeard id) e = .over actions report) : Leaves id s c (c.stimulate id e) := by
  have hturned := turned_stimulate hs e
  obtain ⟨hears, hsilent, -⟩ := actAll_hears id s.conn actions c
  let c₁ : Client := (c.actAll id s.conn actions).1
  -- whatever the session did before, the pools were as they are
  have hback : ({ c₁ with sessions := c₁.sessions.erase id }.giveBack s.pool s.conn).1.pools =
        (c.giveBack s.pool s.conn).1.pools ∧
      ({ c₁ with sessions := c₁.sessions.erase id }.giveBack s.pool s.conn).2 =
        (c.giveBack s.pool s.conn).2 := by
    have hnow : c₁.now = c.now := by
      obtain ⟨calls, sessions, pools, hframe⟩ := performAll_frame id s.conn (actions.map .act) c
      rw [performAll_acts] at hframe
      show (c.actAll id s.conn actions).1.now = c.now
      rw [hframe]
    have hpools : c₁.pools = c.pools := hears.pools
    simp only [giveBack, hnow, hpools]
    cases c.pools.get? s.pool <;> exact ⟨rfl, rfl⟩
  have hgreet (c' : Client) : (c'.greet id (.error endedUnheard)).1.pools = c'.pools :=
    (greet_hears c' id _).1.pools
  refine ⟨hs, ?_, calls_of_turned hturned, fun k => ?_, ?_, subscribes_stimulate c id e,
    quiet_stimulate c id e⟩
  · obtain ⟨calls, sessions, pools, hframe⟩ := stimulate_frame c id e
    have hpools : (c.stimulate id e).1.pools = (c.giveBack s.pool s.conn).1.pools := by
      simp only [stimulate, hs, ht, Move.after, terminate, hgreet]
      exact hback.1
    rw [hframe] at hpools
    obtain rfl : pools = _ := hpools
    exact ⟨calls, sessions, hframe⟩
  · rw [hturned.sessions, ht]
    rfl
  · simp only [stimulate, hs, ht, Move.after, terminate, closes_append, hsilent, closes_greet]
    have hrest : closes (report.toList.map (.report id)) = [] ∧ closes [.terminated id] = [] := by
      cases report <;> exact ⟨rfl, rfl⟩
    rw [hrest.1, hrest.2, List.nil_append, List.append_nil, List.append_nil, List.append_nil]
    exact congrArg closes hback.2

theorem talks_unsubscribe (c : Client) (id : CallId) : Talks c (c.unsubscribe id) where
  frame := by
    obtain ⟨⟨sessions, hframe⟩, -⟩ := unsubscribe_frame c id
    exact ⟨c.calls, sessions, hframe⟩
  calls k stage hs _ := by
    obtain ⟨⟨sessions, hframe⟩, -⟩ := unsubscribe_frame c id
    rwa [hframe] at hs
  origins k := by
    unfold unsubscribe
    split
    · next s hs =>
      split
      · rfl
      · by_cases hk : k = id
        · subst hk
          simp only [Table.get?_put, if_true, hs]
          rfl
        · simp only [Table.get?_put, hk, if_false]
    · rfl
  subscribes who x q h := by
    obtain ⟨-, hwakes⟩ := unsubscribe_frame c id
    cases hwakes _ h
  quiet := quiet_unsubscribe c id

theorem talks_expel (c : Client) (id : CallId) (s : Subscription) (d : Span) :
    Talks c (c.expel id s d) := by
  have htalks := talks_unsubscribe c id
  obtain ⟨⟨sessions, hframe⟩, -⟩ := unsubscribe_frame c id
  have hfinish : Quiet [.finish id (.error (.ofHandshake s.stream s.partition (noHandshake d)))] :=
    ⟨rfl, by simp⟩
  refine ⟨?_, fun k stage hs hr => ?_, htalks.origins, fun who x q h => ?_,
    htalks.quiet.append hfinish⟩
  · refine ⟨c.calls.erase id, sessions, ?_⟩
    simp only [expel, Move.after, greeted, finish, hframe]
  · refine htalks.calls k stage ?_ hr
    by_cases hk : k = id
    · simp [expel, Move.after, greeted, hk] at hs
    · simpa [expel, Move.after, greeted, hk] using hs
  · refine htalks.subscribes who x q ((List.mem_append.1 h).resolve_right fun h => ?_)
    cases List.mem_singleton.1 h

end Sessions

end Client
end StreamClient
