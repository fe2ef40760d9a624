import StreamClient.Proofs.Client.Deeds
import StreamClient.Proofs.Link.Advance

/-! What an event that is no turn of a session does to each call, and that it does nothing that a
session would have to do. -/

namespace StreamClient.Client

/-- What a call is for, as far as its stages tell. -/
inductive Aim where
  | publishing
  | subscribing (s : Subscription)
  | other

def Op.aim : Op → Aim
  | .publish .. | .publishToSubject .. => .publishing
  | .subscribe stream o => .subscribing (o.subscription stream)
  | _ => .other

def Goal.aim : Goal → Aim
  | .publish => .publishing
  | .resolve s _ => .subscribing s
  | _ => .other

def Stage.aim : Stage → Aim
  | .choosing _ => .publishing
  | .linking goal _ => goal.aim
  | .pausing s _ _ | .joining s _ | .greeting s _ _ => .subscribing s
  | .probing _ | .closing => .other

def Aim.Allows : Aim → Except CallError Outcome → Prop
  | .subscribing _, r => ∃ e, r = .error e ∧ ∀ f, e ≠ .deadlineExceeded f
  | _, _ => True

/-- Where a subscribe call gets a connection from: its pool, or a dial of its own. -/
inductive Gains (c : Client) (e : Event) (id : CallId) (s : Subscription) (address : Address)
    (conn : Conn) : Prop
  | idle {p p' : Pool} : c.pools.get? address = some p → p.take? = some (conn, p') →
    Gains c e id s address conn
  | dialed : e = .dialed id (.ok conn) → c.calls.get? id = some (.joining s address) →
    Gains c e id s address conn

inductive Comes (a : Aim) (e : Event) (id : CallId) (c : Client) (m : Move) : Prop
  | waits (stage : Stage) : m.1.calls.get? id = some stage → stage.aim = a → ¬ Rests (some stage) →
    (∀ s address, stage = .joining s address → (m.1.pools.get? address).isSome) →
    m.1.sessions.get? id = c.sessions.get? id → (∀ r, .finish id r ∉ m.2) → Comes a e id c m
  | launches (s : Subscription) (address : Address) (conn : Conn) (due : Option Nat) :
    a = .subscribing s → m.1.calls.get? id = some (.greeting s none due) →
    m.1.sessions.get? id = some { subscription := s, conn, pool := address } →
    .wake (.session id) ∈ m.2 → (m.1.pools.get? address).isSome → Gains c e id s address conn →
    (∀ r, .finish id r ∉ m.2) → Comes a e id c m
  | returns (r : Except CallError Outcome) : m.1.calls.get? id = none →
    m.1.sessions.get? id = c.sessions.get? id → .finish id r ∈ m.2 →
    (∀ r', .finish id r' ∈ m.2 → r' = r) → a.Allows r → Comes a e id c m

structure Minds (id : CallId) (c : Client) (m : Move) : Prop where
  calls : ∀ k, k ≠ id → m.1.calls.get? k = c.calls.get? k
  sessions : ∀ k, k ≠ id → m.1.sessions.get? k = c.sessions.get? k
  jobs : ∀ k, k ≠ id → m.1.link.jobs.get? k = c.link.jobs.get? k
  pools : ∀ address, (c.pools.get? address).isSome → (m.1.pools.get? address).isSome
  silent : ∀ k, shown m.2 k = []
  finish : ∀ k r, .finish k r ∈ m.2 → k = id

/-- A move for the call `id`, which has no session yet. -/
structure Conducts (a : Aim) (e : Event) (id : CallId) (c : Client) (m : Move) : Prop extends
    Minds id c m where
  comes : Comes a e id c m

section Conducts

variable {a : Aim} {e : Event} {id : CallId} {c : Client} {m : Move}

def Plain (effects : List Effect) : Prop :=
  (∀ k, shown effects k = []) ∧ ∀ k r, .finish k r ∉ effects

theorem plain_nil : Plain [] := ⟨fun _ => rfl, by simp⟩

theorem plain_of_stay {c : Client} {m : Move} (hm : m = c.stay) : Plain m.2 := by
  subst hm
  exact plain_nil

theorem plain_map_ofOrder (orders : List (Link.Order Request)) : Plain (orders.map ofOrder) := by
  refine ⟨fun k => ?_, fun k r hr => ?_⟩
  · refine List.filterMap_eq_nil_iff.2 fun x hx => ?_
    obtain ⟨o, -, rfl⟩ := List.mem_map.1 hx
    cases o <;> rfl
  · obtain ⟨o, -, ho⟩ := List.mem_map.1 hr
    cases o <;> cases ho

theorem plain_flatMap_close {α : Type} (l : List α) (f : α → List Conn) :
    Plain (l.flatMap fun x => (f x).map .close) := by
  have hclose : ∀ x ∈ l.flatMap (fun x => (f x).map Effect.close), ∃ conn, x = .close conn := by
    simp only [List.mem_flatMap, List.mem_map]
    rintro x ⟨-, -, conn, -, rfl⟩
    exact ⟨conn, rfl⟩
  refine ⟨fun k => List.filterMap_eq_nil_iff.2 fun x hx => ?_, fun k r hr => ?_⟩
  · obtain ⟨conn, rfl⟩ := hclose x hx
    rfl
  · obtain ⟨conn, hconn⟩ := hclose _ hr
    cases hconn

theorem Minds.after {effects : List Effect} (h : Minds id c m) (hp : Plain effects) :
    Minds id c (m.after effects) where
  calls := h.calls
  sessions := h.sessions
  jobs := h.jobs
  pools := h.pools
  silent k := by
    rw [Move.after, shown_append, hp.1, h.silent]
    rfl
  finish k r hr := h.finish k r ((List.mem_append.1 hr).resolve_left (hp.2 k r))

theorem Conducts.after {effects : List Effect} (h : Conducts a e id c m) (hp : Plain effects) :
    Conducts a e id c (m.after effects) where
  toMinds := h.toMinds.after hp
  comes := by
    have hmem {x : Effect} (hx : x ∈ m.2) : x ∈ (m.after effects).2 := List.mem_append_right _ hx
    have honly {r : Except CallError Outcome} (hr : .finish id r ∈ (m.after effects).2) :
        .finish id r ∈ m.2 := (List.mem_append.1 hr).resolve_left (hp.2 id r)
    cases h.comes with
    | waits stage hstage haim hrests hpool hsessions hnone =>
      exact .waits stage hstage haim hrests hpool hsessions fun r hr => hnone r (honly hr)
    | launches s address conn due ha hstage hsession hwake hpool hgains hnone =>
      exact .launches s address conn due ha hstage hsession (hmem hwake) hpool hgains
        fun r hr => hnone r (honly hr)
    | returns r hstage hsessions hr hall hallowed =>
      exact .returns r hstage hsessions (hmem hr) (fun r' hr' => hall r' (honly hr')) hallowed

theorem Conducts.of_same {c' : Client} (h : Conducts a e id c' m) (hcalls : c'.calls = c.calls)
    (hsessions : c'.sessions = c.sessions) (hpools : c'.pools = c.pools)
    (hjobs : ∀ k, k ≠ id → c'.link.jobs.get? k = c.link.jobs.get? k) : Conducts a e id c m where
  calls k hk := (h.calls k hk).trans (by rw [hcalls])
  sessions k hk := (h.sessions k hk).trans (by rw [hsessions])
  jobs k hk := (h.jobs k hk).trans (hjobs k hk)
  pools address ha := h.pools address (by rw [hpools]; exact ha)
  silent := h.silent
  finish := h.finish
  comes := by
    cases h.comes with
    | waits stage hstage haim hrests hpool hs hnone =>
      exact .waits stage hstage haim hrests hpool (hs.trans (by rw [hsessions])) hnone
    | launches s address conn due ha hstage hsession hwake hpool hgains hnone =>
      refine .launches s address conn due ha hstage hsession hwake hpool ?_ hnone
      cases hgains with
      | idle hp ht => exact .idle (hpools ▸ hp) ht
      | dialed he hjoining => exact .dialed he (hcalls ▸ hjoining)
    | returns r hstage hs hr hall hallowed =>
      exact .returns r hstage (hs.trans (by rw [hsessions])) hr hall hallowed

structure Precedes (id : CallId) (c₀ c : Client) : Prop where
  calls : c.calls = c₀.calls
  sessions : c.sessions = c₀.sessions
  jobs : ∀ k, k ≠ id → c.link.jobs.get? k = c₀.link.jobs.get? k
  pools : ∀ address, (c₀.pools.get? address).isSome → (c.pools.get? address).isSome

theorem Precedes.refl (id : CallId) (c : Client) : Precedes id c c :=
  ⟨rfl, rfl, fun _ _ => rfl, fun _ h => h⟩

theorem precedes_link {l : Link Request}
    (h : ∀ k, k ≠ id → l.jobs.get? k = c.link.jobs.get? k) :
    Precedes id c { c with link := l } :=
  ⟨rfl, rfl, h, fun _ h => h⟩

theorem precedes_install (id : CallId) (c : Client) (t : Topology) : Precedes id c (c.install t) :=
  ⟨rfl, rfl, fun _ _ => rfl, fun _ h => h⟩

theorem precedes_pool (id : CallId) (c : Client) (address : Address) (p : Pool) :
    Precedes id c { c with pools := c.pools.put address p } where
  calls := rfl
  sessions := rfl
  jobs _ _ := rfl
  pools a h := by
    rw [Table.get?_put]
    split
    · rfl
    · exact h

theorem conducts_finish {c₀ : Client} (h : Precedes id c₀ c) (e : Event)
    {r : Except CallError Outcome} (hr : a.Allows r) : Conducts a e id c₀ (c.finish id r) where
  calls k hk := by simp [hk, h.calls]
  sessions k _ := congrArg (fun t => t.get? k) h.sessions
  jobs := h.jobs
  pools := h.pools
  silent _ := rfl
  finish k r' hr := by
    obtain ⟨hk, -⟩ := Effect.finish.inj (List.mem_singleton.1 hr)
    exact hk
  comes := .returns r (by simp) (congrArg (fun t => t.get? id) h.sessions)
    (List.mem_singleton_self _) (fun r' hr' => (Effect.finish.inj (List.mem_singleton.1 hr')).2) hr

theorem conducts_put {c₀ : Client} (h : Precedes id c₀ c) (e : Event) {stage : Stage}
    {effects : List Effect} (ha : stage.aim = a) (hr : ¬ Rests (some stage))
    (hj : ∀ s address, stage = .joining s address → (c.pools.get? address).isSome)
    (hp : Plain effects) : Conducts a e id c₀ (c.put id stage, effects) where
  calls k hk := by simp [hk, h.calls]
  sessions k _ := congrArg (fun t => t.get? k) h.sessions
  jobs := h.jobs
  pools := h.pools
  silent := hp.1
  finish k r hr := absurd hr (hp.2 k r)
  comes := .waits stage (by simp) ha hr hj (congrArg (fun t => t.get? id) h.sessions) (hp.2 id)

theorem plain_dial (id : CallId) (address : Address) : Plain [.dial id address] :=
  ⟨fun _ => rfl, by simp⟩

theorem conducts_launch {c₀ : Client} (h : Precedes id c₀ c) {s : Subscription} {address : Address}
    {conn : Conn} (hp : (c.pools.get? address).isSome) (hg : Gains c₀ e id s address conn) :
    Conducts (.subscribing s) e id c₀ (c.launch id s address conn) where
  calls k hk := by simp [launch, hk, h.calls]
  sessions k hk := by simp [launch, Client.put, Table.get?_put, hk, h.sessions]
  jobs := h.jobs
  pools := h.pools
  silent _ := rfl
  finish k r hr := by simp [launch] at hr
  comes := .launches s address conn (c.settings.handshakeTimeout.map fun d => c.now + d.ceilMillis)
    rfl (by simp [launch]) (by simp [launch, Client.put, Table.get?_put])
    (List.mem_singleton_self _) hp hg (by simp [launch])

theorem take?_pool {address : Address} {conn : Conn} {p : Pool}
    (h : (c.pool address).take? = some (conn, p)) :
    ∃ p₀, c.pools.get? address = some p₀ ∧ p₀.take? = some (conn, p) := by
  rw [pool] at h
  cases hp : c.pools.get? address with
  | none => simp [hp, Pool.take?] at h
  | some p₀ => exact ⟨p₀, rfl, by simpa [hp] using h⟩

theorem conducts_join (c : Client) (id : CallId) (e : Event) (s : Subscription)
    (address : Address) : Conducts (.subscribing s) e id c (c.join id s address) := by
  unfold join
  split
  · exact conducts_finish (.refl id c) e ⟨.closed, rfl, by simp⟩
  · split
    · next conn p hp =>
      obtain ⟨p₀, hget, htake⟩ := take?_pool hp
      exact conducts_launch (precedes_pool id c address p) (by simp [Table.get?_put])
        (.idle hget htake)
    · exact conducts_put (precedes_pool id c address _) e rfl (by simp [Rests])
        (by simp [Table.get?_put]) (plain_dial id address)

theorem conducts_lookup (draw : Nat) (c : Client) (id : CallId) (e : Event) (s : Subscription)
    (left : Nat) : Conducts (.subscribing s) e id c (lookup draw c id s left) := by
  unfold lookup
  split
  · exact conducts_join c id e s _
  · cases left with
    | zero => exact conducts_finish (.refl id c) e ⟨_, rfl, by simp⟩
    | succ n => exact conducts_put (.refl id c) e rfl (by simp [Rests]) (by simp) plain_nil

theorem conducts_follow {goal : Goal} (due : Option Nat) {t : Link.Turn Request Reply}
    {next : Client → Except Fault Reply → Move} (ht : t.ending ≠ some .shut)
    (hjobs : ∀ k, k ≠ id → t.link.jobs.get? k = c.link.jobs.get? k)
    (hnext : ∀ c' r, Conducts goal.aim e id c' (next c' r)) :
    Conducts goal.aim e id c (c.follow id goal due t next) := by
  have hplain := plain_map_ofOrder t.orders
  unfold follow
  dsimp only
  split
  · exact conducts_put (precedes_link hjobs) e rfl (by simp [Rests]) (by simp) hplain
  · next r hr =>
    have hover := hnext { c with link := t.link } r
    exact (hover.of_same (c := c) rfl rfl rfl hjobs).after hplain
  · next hr => exact absurd hr ht

theorem conducts_created (c : Client) (id : CallId) (e : Event) (r : Except Fault Reply) :
    Conducts .other e id c (c.created id r) := by
  cases r with
  | ok reply => exact conducts_finish (precedes_install id c reply.topology) e trivial
  | error f => exact conducts_finish (.refl id c) e trivial

theorem conducts_settle (draw : Nat) (c : Client) (id : CallId) (e : Event) (goal : Goal)
    (r : Except Fault Reply) : Conducts goal.aim e id c (settle draw c id goal r) := by
  -- only a stream that was created leads to another call, and only a lookup to a session
  cases goal <;> cases r
  case create.ok =>
    have hcreated (c' : Client) (r : Except Fault Reply) :
        Conducts Goal.created.aim e id c' (c'.created id r) := conducts_created c' id e r
    exact conducts_follow none (Link.pursue_not_shut _ _ _ _ _ _)
      (fun k hk => Link.pursue_others _ hk _ _ _ _) hcreated
  case resolve.ok s left reply =>
    exact (conducts_lookup draw (c.install reply.topology) id e s left).of_same rfl rfl rfl
      fun _ _ => rfl
  case created.ok reply => exact conducts_created c id e (.ok reply)
  case created.error f => exact conducts_created c id e (.error f)
  case connect.ok reply =>
    exact conducts_finish (precedes_install id c reply.topology) e trivial
  case fetch.ok reply =>
    exact conducts_finish (precedes_install id c reply.topology) e trivial
  case resolve.error s left f => exact conducts_finish (.refl id c) e ⟨.rpc f, rfl, by simp⟩
  all_goals exact conducts_finish (.refl id c) e trivial

theorem conducts_engage (draw : Nat) (c : Client) (id : CallId) (e : Event) (goal : Goal)
    (due : Option Nat) {t : Link.Turn Request Reply} (ht : t.ending ≠ some .shut)
    (hjobs : ∀ k, k ≠ id → t.link.jobs.get? k = c.link.jobs.get? k) :
    Conducts goal.aim e id c (engage draw c id goal due t) :=
  conducts_follow due ht hjobs fun c' r => conducts_settle draw c' id e goal r

theorem conducts_submit (draw : Nat) (c : Client) (id : CallId) (e : Event) (goal : Goal)
    (q : Request) : Conducts goal.aim e id c (submit draw c id goal q) :=
  conducts_engage draw c id e goal none (Link.pursue_not_shut _ _ _ _ _ _)
    fun _ hk => Link.pursue_others _ hk _ _ _ _

theorem conducts_closeLink {c₀ : Client} (h : Precedes id c₀ c) (e : Event)
    {t : Link.Turn Request Reply} (hjobs : ∀ k, k ≠ id → t.link.jobs.get? k = c.link.jobs.get? k) :
    Conducts .other e id c₀ (c.closeLink id t) := by
  have hplain := plain_map_ofOrder t.orders
  have hturn : Precedes id c₀ { c with link := t.link } :=
    ⟨h.calls, h.sessions, fun k hk => (hjobs k hk).trans (h.jobs k hk), h.pools⟩
  unfold closeLink
  dsimp only
  split
  · exact conducts_put hturn e rfl (by simp [Rests]) (by simp) hplain
  · exact (conducts_finish hturn e (a := .other) (r := .ok .done) trivial).after hplain

theorem conducts_probe (c : Client) (id : CallId) (e : Event) (last : Option Fault)
    (addresses : List Address) : Conducts .other e id c (c.probe id last addresses) := by
  cases addresses with
  | nil => exact conducts_finish (.refl id c) e trivial
  | cons a rest =>
    exact conducts_put (.refl id c) e rfl (by simp [Rests]) (by simp) (plain_dial id a)

theorem isSome_map_pools (c : Client) (f : Pool → Pool) {address : Address}
    (h : (c.pools.get? address).isSome) :
    ((c.pools.map fun _ p => f p).get? address).isSome := by
  rw [Table.get?_map, Option.isSome_map]
  exact h

theorem conducts_close (c : Client) (id : CallId) (e : Event) :
    Conducts .other e id c (c.close id) := by
  unfold close
  split
  · exact conducts_finish (.refl id c) e trivial
  · have hpools : Precedes id c { c with closed := true }.closePools.1 :=
      ⟨rfl, rfl, fun _ _ => rfl, fun _ h => isSome_map_pools c (fun p => p.close.1) h⟩
    have hclose := conducts_closeLink hpools e fun k hk =>
      (Link.shut_others hk : (c.link.shut id : Link.Turn Request Reply).link.jobs.get? k = _)
    exact hclose.after (plain_flatMap_close c.pools.values fun p => p.close.2)

theorem conducts_start (draw : Nat) (c : Client) (id : CallId) (op : Op) :
    Conducts op.aim (.start id op) id c (start draw c id op) := by
  -- a client that is closed refuses every call
  have hclosed : op.aim.Allows (.error .closed) := by
    cases op <;> first
      | trivial
      | exact ⟨.closed, rfl, by simp⟩
  unfold start
  split
  · exact conducts_finish (.refl id c) _ hclosed
  · cases op with
    | connect =>
      simp only [openCall, connect]
      split
      · exact conducts_finish (.refl id c) _ trivial
      · exact conducts_probe c id _ none _
    | createStream name o =>
      simp only [openCall]
      split
      · exact conducts_finish (.refl id c) _ trivial
      · exact conducts_submit draw c id _ (.create name) _
    | deleteStream name => exact conducts_submit draw c id _ (.delete name) _
    | publish stream value o =>
      simp only [openCall]
      split
      · exact conducts_submit draw c id _ .publish _
      · exact conducts_put (.refl id c) _ rfl (by simp [Rests]) (by simp) ⟨fun _ => rfl, by simp⟩
    | publishToSubject subject value o => exact conducts_submit draw c id _ .publish _
    | subscribe stream o => exact conducts_lookup draw c id _ (o.subscription stream) _
    | fetchMetadata => exact conducts_submit draw c id _ .fetch _
    | close => exact conducts_close c id _

end Conducts

def Aims (c : Client) (e : Event) (id : CallId) (a : Aim) : Prop :=
  (∃ stage, c.calls.get? id = some stage ∧ stage.aim = a ∧ ¬ Rests (some stage)) ∨
    ∃ op, e = .start id op ∧ op.aim = a

def expel (c : Client) (id : CallId) (s : Subscription) (d : Span) : Move :=
  ((c.unsubscribe id).1.greeted id s (.error (noHandshake d))).after (c.unsubscribe id).2

inductive Passes (e : Event) (c : Client) (m : Move) (id : CallId) : Prop
  | still : m.1.calls.get? id = c.calls.get? id → m.1.sessions.get? id = c.sessions.get? id →
    (∀ r, .finish id r ∉ m.2) → Passes e c m id
  | comes (a : Aim) : Aims c e id a → Comes a e id c m → Passes e c m id
  | told (s : Subscription) (verdict : Except Fault Unit) (due : Option Nat) :
    c.calls.get? id = some (.greeting s (some verdict) due) → m = c.greeted id s verdict →
      Passes e c m id
  | expelled (s : Subscription) (due : Nat) (d : Span) : e = .lapse id →
    c.calls.get? id = some (.greeting s none (some due)) → c.settings.handshakeTimeout = some d →
    due ≤ c.now → m = c.expel id s d → Passes e c m id
  | quits : e = .unsubscribe id → m = c.unsubscribe id → Passes e c m id
  | abandoned : e = .abandon id → m = c.abandon id → Passes e c m id

def Event.caller? : Event → Option CallId
  | .start id _ | .dialed id _ | .answered (.caller id) _ | .chosen id _ | .run (.caller id)
  | .abandon id | .lapse id => some id
  | _ => none

inductive Event.OfCall (id : CallId) : Event → Prop
  | start (op : Op) : OfCall id (.start id op)
  | dialed (r : Except Fault Conn) : OfCall id (.dialed id r)
  | answered (r : Except Fault Reply) : OfCall id (.answered (.caller id) r)
  | chosen (partition : Int32) : OfCall id (.chosen id partition)
  | run : OfCall id (.run (.caller id))
  | abandon : OfCall id (.abandon id)
  | lapse : OfCall id (.lapse id)

theorem Event.ofCall {e : Event} {id : CallId} (h : e.caller? = some id) : e.OfCall id := by
  unfold Event.caller? at h
  split at h <;> cases h <;> constructor

/-- What an event that is no turn of a session does. -/
structure Aside (e : Event) (c : Client) (m : Move) : Prop where
  pools : ∀ address, (c.pools.get? address).isSome → (m.1.pools.get? address).isSome
  silent : ∀ k, shown m.2 k = []
  passes : ∀ k, Passes e c m k
  away : ∀ k, e.caller? ≠ some k → m.1.calls.get? k = c.calls.get? k ∧
    m.1.link.jobs.get? k = c.link.jobs.get? k ∧ ∀ r, .finish k r ∉ m.2

section Aside

variable {c : Client} {e : Event} {id : CallId} {m : Move}

theorem Minds.aside (h : Minds id c m) (he : e.caller? = some id) (hp : Passes e c m id) :
    Aside e c m where
  pools := h.pools
  silent := h.silent
  passes k := by
    by_cases hk : k = id
    · subst hk
      exact hp
    · exact .still (h.calls k hk) (h.sessions k hk) fun r hr => hk (h.finish k r hr)
  away k hk := by
    have hne : k ≠ id := by
      rintro rfl
      exact hk he
    exact ⟨h.calls k hne, h.jobs k hne, fun r hr => hne (h.finish k r hr)⟩

theorem Conducts.aside {a : Aim} (h : Conducts a e id c m) (he : e.caller? = some id)
    (ha : Aims c e id a) : Aside e c m :=
  h.toMinds.aside he (.comes a ha h.comes)

theorem aside_stay (e : Event) (c : Client) : Aside e c c.stay where
  pools _ h := h
  silent _ := rfl
  passes _ := .still rfl rfl (by simp [stay])
  away _ _ := ⟨rfl, rfl, by simp [stay]⟩

theorem aims_linking {goal : Goal} {due : Option Nat}
    (h : c.calls.get? id = some (.linking goal due)) : Aims c e id goal.aim :=
  .inl ⟨_, h, rfl, by simp [Rests]⟩

theorem minds_greeted (c : Client) (id : CallId) (s : Subscription)
    (verdict : Except Fault Unit) : Minds id c (c.greeted id s verdict) where
  calls k hk := by simp [greeted, hk]
  sessions _ _ := rfl
  jobs _ _ := rfl
  pools _ ha := ha
  silent _ := rfl
  finish k r hr := (Effect.finish.inj (List.mem_singleton.1 hr)).1

theorem aside_greeted {s : Subscription} {verdict : Except Fault Unit} {due : Option Nat}
    (he : e.caller? = some id) (h : c.calls.get? id = some (.greeting s (some verdict) due)) :
    Aside e c (c.greeted id s verdict) :=
  (minds_greeted c id s verdict).aside he (.told s verdict due h rfl)

def Pooled (c : Client) : Prop :=
  ∀ id s address, c.calls.get? id = some (.joining s address) → (c.pools.get? address).isSome

theorem aside_dialed (draw : Nat) (hp : c.Pooled) (id : CallId) (r : Except Fault Conn) :
    Aside (.dialed id r) c (dialed draw c id r) := by
  unfold dialed
  split
  · next rest conn hs =>
    have hsubmit := conducts_submit draw { c with link := { c.link with cached := some conn } } id
      (.dialed id (.ok conn)) .connect .fetchMetadata
    exact (hsubmit.of_same (c := c) rfl rfl rfl fun _ _ => rfl).aside rfl
      (.inl ⟨_, hs, rfl, by simp [Rests]⟩)
  · next rest f hs =>
    exact (conducts_probe c id _ (some f) rest).aside rfl (.inl ⟨_, hs, rfl, by simp [Rests]⟩)
  · next goal due hs =>
    exact (conducts_engage draw c id _ goal due (Link.dialed_not_shut _ _ id _)
      fun k hk => Link.dialed_others _ hk _).aside rfl (aims_linking hs)
  · next s address conn hs =>
    exact (conducts_launch (.refl id c) (hp id s address hs) (.dialed rfl hs)).aside rfl
      (.inl ⟨_, hs, rfl, by simp [Rests]⟩)
  · next s address f hs =>
    have hallowed : (Aim.subscribing s).Allows (.error (.rpc f)) := ⟨.rpc f, rfl, by simp⟩
    exact (conducts_finish (.refl id c) _ hallowed).aside rfl
      (.inl ⟨_, hs, rfl, by simp [Rests]⟩)
  · exact aside_stay _ c

theorem aside_answered (draw : Nat) (c : Client) (id : CallId) (r : Except Fault Reply) :
    Aside (.answered (.caller id) r) c (answered draw c r (.caller id)) := by
  simp only [answered]
  split
  · next goal due hs =>
    exact (conducts_engage draw c id _ goal due (Link.answered_not_shut _ _ id r)
      fun k hk => Link.answered_others _ hk r).aside rfl (aims_linking hs)
  · exact aside_stay _ c

theorem aside_chosen (draw : Nat) (c : Client) (id : CallId) (partition : Int32) :
    Aside (.chosen id partition) c (chosen draw c id partition) := by
  unfold chosen
  split
  · next d hs =>
    exact (conducts_submit draw c id _ .publish _).aside rfl (.inl ⟨_, hs, rfl, by simp [Rests]⟩)
  · exact aside_stay _ c

theorem aside_run (draw : Nat) (hc : c.Coherent) (id : CallId) :
    Aside (.run (.caller id)) c (run draw c (.caller id)) := by
  simp only [run]
  split
  · next goal due hs =>
    -- only a close shuts the link, and this call waits for an answer
    have hjob : c.link.jobs.get? id ≠ some .shutting := by
      obtain ⟨⟨j, hj, hne⟩, -⟩ := hc.linking hs
      rw [hj]
      exact fun h => hne (Option.some.inj h)
    exact (conducts_engage draw c id _ goal due (Link.resume_not_shut _ hjob)
      fun k hk => Link.resume_others _ hk).aside rfl (aims_linking hs)
  · next hs =>
    exact (conducts_closeLink (.refl id c) _ fun k hk => Link.resume_others _ hk).aside rfl
      (.inl ⟨_, hs, rfl, by simp [Rests]⟩)
  · next s verdict due hs => exact aside_greeted rfl hs
  · exact aside_stay _ c

theorem passes_unsubscribe_other (c : Client) {id k : CallId} (hk : k ≠ id) :
    (c.unsubscribe id).1.calls.get? k = c.calls.get? k ∧
      (c.unsubscribe id).1.sessions.get? k = c.sessions.get? k := by
  unfold unsubscribe
  split
  · split
    · exact ⟨rfl, rfl⟩
    · exact ⟨rfl, by simp [Table.get?_put, hk]⟩
  · exact ⟨rfl, rfl⟩

theorem plain_unsubscribe (c : Client) (id : CallId) : Plain (c.unsubscribe id).2 := by
  obtain ⟨-, hwakes⟩ := unsubscribe_frame c id
  refine ⟨fun k => List.filterMap_eq_nil_iff.2 fun x hx => ?_, fun k r hr => ?_⟩
  · rw [hwakes x hx]
    rfl
  · cases hwakes _ hr

theorem aside_unsubscribe (c : Client) (id : CallId) :
    Aside (.unsubscribe id) c (c.unsubscribe id) where
  pools a ha := by
    obtain ⟨⟨sessions, hframe⟩, -⟩ := unsubscribe_frame c id
    rw [hframe]
    exact ha
  silent := (plain_unsubscribe c id).1
  passes k := by
    by_cases hk : k = id
    · subst hk
      exact .quits rfl rfl
    · obtain ⟨hcalls, hsessions⟩ := passes_unsubscribe_other c hk
      exact .still hcalls hsessions ((plain_unsubscribe c id).2 k)
  away k _ := by
    obtain ⟨⟨sessions, hframe⟩, -⟩ := unsubscribe_frame c id
    rw [hframe]
    exact ⟨rfl, rfl, (plain_unsubscribe c id).2 k⟩

theorem minds_expel (c : Client) (id : CallId) (s : Subscription) (d : Span) :
    Minds id c (c.expel id s d) := by
  have hgreeted := minds_greeted (c.unsubscribe id).1 id s (.error (noHandshake d))
  obtain ⟨⟨sessions, hframe⟩, -⟩ := unsubscribe_frame c id
  have hunsubscribed : Minds id c ((c.unsubscribe id).1.greeted id s (.error (noHandshake d))) := {
    calls := fun k hk => (hgreeted.calls k hk).trans (passes_unsubscribe_other c hk).1
    sessions := fun k hk => (hgreeted.sessions k hk).trans (passes_unsubscribe_other c hk).2
    jobs := fun k hk => (hgreeted.jobs k hk).trans (by rw [hframe])
    pools := fun a ha => hgreeted.pools a (by rw [hframe]; exact ha)
    silent := hgreeted.silent
    finish := hgreeted.finish }
  exact hunsubscribed.after (plain_unsubscribe c id)

theorem aside_lapse (draw : Nat) (c : Client) (id : CallId) :
    Aside (.lapse id) c (lapse draw c id) := by
  unfold lapse
  split
  · next goal due hs =>
    split
    · next d hd =>
      split
      · have hanswered := conducts_engage draw c id (.lapse id) goal none
          (Link.answered_not_shut (c.pick draw) c.link id (.error (noAck d)))
          fun k hk => Link.answered_others _ hk _
        exact (hanswered.after ⟨fun _ => rfl, by simp⟩).aside rfl (aims_linking hs)
      · exact aside_stay _ c
    · exact aside_stay _ c
  · next s left due hs =>
    split
    · exact (conducts_submit draw c id _ (.resolve s left) _).aside rfl
        (.inl ⟨_, hs, rfl, by simp [Rests]⟩)
    · exact aside_stay _ c
  · next s verdict due hs => exact aside_greeted rfl hs
  · next s due hs =>
    split
    · next d hd =>
      split
      · next hdue =>
        exact (minds_expel c id s d).aside rfl (.expelled s due d rfl hs hd hdue rfl)
      · exact aside_stay _ c
    · exact aside_stay _ c
  · exact aside_stay _ c

theorem abandon_erases (c : Client) (id : CallId) :
    (∃ l, (c.abandon id).1 = { c with calls := c.calls.erase id, link := l } ∧
      ∀ k, k ≠ id → l.jobs.get? k = c.link.jobs.get? k) ∧ Plain (c.abandon id).2 := by
  have habandon (k : CallId) (hk : k ≠ id) :
      (c.link.abandon id : Link.Turn Request Reply).link.jobs.get? k = c.link.jobs.get? k :=
    Link.abandon_others hk
  unfold abandon
  dsimp only
  split
  · exact ⟨⟨c.link, rfl, fun _ _ => rfl⟩, fun _ => rfl, by simp⟩
  · exact ⟨⟨c.link, rfl, fun _ _ => rfl⟩, fun _ => rfl, by simp⟩
  · exact ⟨⟨_, rfl, habandon⟩, plain_map_ofOrder _⟩
  · exact ⟨⟨_, rfl, habandon⟩, plain_map_ofOrder _⟩
  · exact ⟨⟨c.link, rfl, fun _ _ => rfl⟩, plain_nil⟩

theorem calls_abandon (c : Client) (id : CallId) : (c.abandon id).1.calls.get? id = none := by
  obtain ⟨⟨l, hl, -⟩, -⟩ := abandon_erases c id
  rw [hl, Table.get?_erase, if_pos rfl]

theorem sessions_abandon (c : Client) (id : CallId) : (c.abandon id).1.sessions = c.sessions := by
  obtain ⟨⟨l, hl, -⟩, -⟩ := abandon_erases c id
  rw [hl]

theorem plain_abandon (c : Client) (id : CallId) : Plain (c.abandon id).2 :=
  (abandon_erases c id).2

theorem minds_abandon (c : Client) (id : CallId) : Minds id c (c.abandon id) := by
  obtain ⟨⟨l, hl, hjobs⟩, hplain⟩ := abandon_erases c id
  exact {
    calls := fun k hk => by rw [hl, Table.get?_erase, if_neg hk]
    sessions := fun k _ => by rw [hl]
    jobs := fun k hk => by rw [hl]; exact hjobs k hk
    pools := fun a ha => by rw [hl]; exact ha
    silent := hplain.1
    finish := fun k r hr => absurd hr (hplain.2 k r) }

theorem aside_step (draw : Nat) (hc : c.Coherent) (hp : c.Pooled) (h : e.turn? = none) :
    Aside e c (step draw c e) := by
  cases e with
  | start id op => exact (conducts_start draw c id op).aside rfl (.inr ⟨op, rfl, rfl⟩)
  | dialed id r => exact aside_dialed draw hp id r
  | chosen id partition => exact aside_chosen draw c id partition
  | answered who r =>
    cases who with
    | caller id => exact aside_answered draw c id r
    | session id => cases h
  | run who =>
    cases who with
    | caller id => exact aside_run draw hc id
    | session id => cases h
  | item id i => cases h
  | ended id => cases h
  | unsubscribe id => exact aside_unsubscribe c id
  | abandon id => exact (minds_abandon c id).aside rfl (.abandoned rfl rfl)
  | lapse id => exact aside_lapse draw c id
  | tick now =>
    have hfinish (k : CallId) (r : Except CallError Outcome) :
        .finish k r ∉ (step draw c (.tick now)).2 := by simp [step, tick]
    exact ⟨fun _ ha => ha, fun _ => rfl, fun k => .still rfl rfl (hfinish k),
      fun k _ => ⟨rfl, rfl, hfinish k⟩⟩
  | expire =>
    have hplain := plain_flatMap_close c.pools.values fun p => (p.expire c.now).2
    exact ⟨fun _ h => isSome_map_pools c (fun p => (p.expire c.now).1) h, hplain.1,
      fun k => .still rfl rfl (hplain.2 k), fun k _ => ⟨rfl, rfl, hplain.2 k⟩⟩

end Aside

end StreamClient.Client
