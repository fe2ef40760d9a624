import StreamClient.Proofs.Client.Conduct
import StreamClient.Proofs.Client.Stories

/-! The life of a call and of the session that it may start, over all runs of a client. -/

namespace StreamClient.Client

open Session (Deed Stands)

def takes (c : Client) (id : CallId) (e : Event) : List Signal :=
  match e.turn?, c.sessions.get? id with
  | some (k, stimulus), some s => if k = id then s.takes stimulus else []
  | _, _ => []

def taken : History → CallId → List Signal
  | [], _ => []
  | r :: earlier, id => taken earlier id ++ r.before.takes id r.event

/-- The connection with which a session of `id` starts as `c` becomes `c'`, and its pool. -/
def acquires (c c' : Client) (id : CallId) : List (Address × Conn) :=
  match c.sessions.get? id, c'.sessions.get? id with
  | none, some s => [(s.pool, s.conn)]
  | _, _ => []

def acquired : History → CallId → List (Address × Conn)
  | [], _ => []
  | r :: earlier, id => acquired earlier id ++ acquires r.before r.move.1 id

def Aimed (history : History) (id : CallId) (a : Aim) : Prop :=
  ∃ r ∈ history, ∃ op, r.event = .start id op ∧ op.aim = a

def Unsubscribed (history : History) (id : CallId) : Prop :=
  ∃ later earlier before draw, history = later ++ ⟨before, draw, .unsubscribe id⟩ :: earlier ∧
    acquired earlier id ≠ []

/-- The session of `id` may have been told to end: it was unsubscribed, or its call failed. -/
def Quit (history : History) (id : CallId) : Prop :=
  Unsubscribed history id ∨ ∃ e, .finish id (.error e) ∈ trail history

def Effect.wakes (id : CallId) : Effect → Bool
  | .wake (.session k) => k == id
  | _ => false

def Event.runs (id : CallId) : Event → Bool
  | .run (.session k) => k == id
  | _ => false

/-- The session of `id` was woken and did not run since. -/
def woken : History → CallId → Bool
  | [], _ => false
  | r :: earlier, id => r.move.2.any (Effect.wakes id) || (woken earlier id && !r.event.runs id)

/-- What every run keeps for the session of a call. -/
structure Lodges (history : History) (c : Client) (id : CallId) : Prop where
  stands : ∃ sub, (acquired history id ≠ [] → Aimed history id (.subscribing sub)) ∧
    Stands sub (Quit history id) (acquired history id) (log history id) (taken history id)
      (c.sessions.get? id)
  home : ∀ s, c.sessions.get? id = some s → (c.pools.get? s.pool).isSome
  woken : ∀ s, c.sessions.get? id = some s → s.phase = .fresh ∨ s.cancelled = true →
    woken history id = true
  shown : shown (trail history) id = (log history id).filter Deed.isShown

/-- What every run keeps for a call and its session. -/
structure Life (history : History) (c : Client) (id : CallId) : Prop extends
    Lodges history c id where
  pooled : ∀ s address, c.calls.get? id = some (.joining s address) →
    (c.pools.get? address).isSome
  known : ∀ a, Aimed history id a → id ∈ started history
  aims : ∀ a a', Aimed history id a → Aimed history id a' → a = a'
  aim : ∀ stage, c.calls.get? id = some stage → Aimed history id stage.aim
  rests : acquired history id ≠ [] → Rests (c.calls.get? id)
  verdict : ∀ s u due, c.calls.get? id = some (.greeting s (some (.ok u)) due) →
    .act (.greet (.ok ())) ∈ log history id
  finish : ∀ r, .finish id r ∈ trail history → c.calls.get? id = none ∧ id ∈ started history ∧
    ∀ r', .finish id r' ∈ trail history → r' = r
  accepted : ∀ s, .finish id (.ok .done) ∈ trail history → Aimed history id (.subscribing s) →
    .act (.greet (.ok ())) ∈ log history id

theorem life_fresh (settings : Settings) (now : Nat) (id : CallId) :
    Life [] (.fresh settings now) id where
  pooled s address h := by cases h
  known a h := by
    obtain ⟨r, hr, -⟩ := h
    cases hr
  aims a a' h := by
    obtain ⟨r, hr, -⟩ := h
    cases hr
  aim stage h := by cases h
  stands := ⟨⟨"", 0, .newOnly, false⟩, fun h => absurd rfl h, .unborn⟩
  rests h := absurd rfl h
  home s h := by cases h
  verdict s u due h := by cases h
  woken s h := by cases h
  shown := rfl
  finish r h := by cases h
  accepted s h := by cases h

section Lives

variable {history : History} {c : Client} {id : CallId} {draw : Nat} {e : Event}

theorem aimed_cons {a : Aim} : Aimed (⟨c, draw, e⟩ :: history) id a ↔
    (∃ op, e = .start id op ∧ op.aim = a) ∨ Aimed history id a := by
  simp [Aimed]

theorem Quit.cons (h : Quit history id) : Quit (⟨c, draw, e⟩ :: history) id := by
  rcases h with ⟨later, earlier, before, draw', rfl, ha⟩ | ⟨f, hf⟩
  · exact .inl ⟨⟨c, draw, e⟩ :: later, earlier, before, draw', rfl, ha⟩
  · exact .inr ⟨f, List.mem_append_left _ hf⟩

theorem deeds_of_none (h : c.sessions.get? id = none) : c.deeds id e = [] ∧ c.takes id e = [] := by
  simp only [deeds, takes, h]
  exact ⟨by split <;> simp_all, by split <;> simp_all⟩

theorem deeds_of_other {k : CallId} {stimulus : Session.Stimulus} (h : e.turn? = some (k, stimulus))
    (hk : k ≠ id) : c.deeds id e = [] ∧ c.takes id e = [] := by
  simp only [deeds, takes, h]
  cases c.sessions.get? id <;> simp [hk]

theorem runs_of_other {k : CallId} {stimulus : Session.Stimulus}
    (h : e.turn? = some (k, stimulus)) (hk : k ≠ id) : e.runs id = false := by
  unfold Event.turn? at h
  split at h <;> cases h
  · rfl
  · simp [Event.runs, hk]
  · rfl
  · rfl

theorem deeds_of_aside (h : e.turn? = none) : c.deeds id e = [] ∧ c.takes id e = [] := by
  simp only [deeds, takes, h]
  exact ⟨trivial, trivial⟩

theorem deeds_of_turn {stimulus : Session.Stimulus} {s : Session}
    (h : e.turn? = some (id, stimulus)) (hs : c.sessions.get? id = some s) :
    c.deeds id e = s.deeds (c.isHeard id) stimulus ∧ c.takes id e = s.takes stimulus := by
  simp [deeds, takes, h, hs]

theorem acquires_of_same {c' : Client} (h : c'.sessions.get? id = c.sessions.get? id) :
    acquires c c' id = [] := by
  rw [acquires, h]
  cases c.sessions.get? id <;> rfl

theorem acquires_of_some {c' : Client} {s : Session} (h : c.sessions.get? id = some s) :
    acquires c c' id = [] := by
  rw [acquires, h]

theorem runs_of_aside (h : e.turn? = none) : e.runs id = false := by
  unfold Event.runs
  split
  · cases h
  · rfl

structure Skips (draw : Nat) (c : Client) (e : Event) (id : CallId) : Prop where
  deeds : c.deeds id e = [] ∧ c.takes id e = []
  sessions : (step draw c e).1.sessions.get? id = c.sessions.get? id
  pools : ∀ a, (c.pools.get? a).isSome → ((step draw c e).1.pools.get? a).isSome
  shown : shown (step draw c e).2 id = []
  runs : e.runs id = false ∨ c.sessions.get? id = none

theorem Aside.skips (h : Aside e c (step draw c e)) (hturn : e.turn? = none)
    (hsessions : (step draw c e).1.sessions.get? id = c.sessions.get? id) :
    Skips draw c e id :=
  ⟨deeds_of_aside hturn, hsessions, h.pools, h.silent id, .inl (runs_of_aside hturn)⟩

inductive Meets (draw : Nat) (c : Client) (e : Event) (id : CallId) : Prop
  | elsewhere : Skips draw c e id → (step draw c e).1.calls.get? id = c.calls.get? id →
    (∀ r, .finish id r ∉ (step draw c e).2) → Meets draw c e id
  | turn (stimulus : Session.Stimulus) (s : Session) : e.turn? = some (id, stimulus) →
    c.sessions.get? id = some s → Meets draw c e id
  | aside : e.turn? = none → Aside e c (step draw c e) → Meets draw c e id

theorem meets (draw : Nat) (hc : c.Coherent) (hp : c.Pooled) (e : Event) (id : CallId) :
    Meets draw c e id := by
  cases hturn : e.turn? with
  | none => exact .aside hturn (aside_step draw hc hp hturn)
  | some turn =>
    obtain ⟨k, stimulus⟩ := turn
    cases hs : c.sessions.get? k with
    | none =>
      have hstay : step draw c e = c.stay := by
        rw [step_of_turn draw hturn, stimulate, hs]
      have hnone : (c.deeds id e = [] ∧ c.takes id e = []) ∧
          (e.runs id = false ∨ c.sessions.get? id = none) := by
        by_cases hk : k = id
        · exact ⟨deeds_of_none (hk ▸ hs), .inr (hk ▸ hs)⟩
        · exact ⟨deeds_of_other hturn hk, .inl (runs_of_other hturn hk)⟩
      refine .elsewhere ⟨hnone.1, ?_, ?_, ?_, hnone.2⟩ ?_ ?_
      all_goals rw [hstay]
      · rfl
      · exact fun _ ha => ha
      · rfl
      · rfl
      · simp [stay]
    | some s =>
      by_cases hk : k = id
      · subst hk
        exact .turn stimulus s hturn hs
      · have hturned := turned_step draw hturn hs
        refine .elsewhere ⟨deeds_of_other hturn hk, ?_, hturned.pools, ?_,
          .inl (runs_of_other hturn hk)⟩ (hturned.calls id (Ne.symm hk)) (hturned.finish id)
        · rw [hturned.sessions, if_neg (Ne.symm hk)]
        · rw [hturned.shown, if_neg (Ne.symm hk)]

theorem Lodges.acquired_eq (h : Lodges history c id) {s : Session}
    (hs : c.sessions.get? id = some s) : acquired history id = [(s.pool, s.conn)] := by
  obtain ⟨sub, -, hstands⟩ := h.stands
  exact (hs ▸ hstands).acquired_eq

theorem Lodges.same (h : Lodges history c id) (hs : Skips draw c e id) :
    Lodges (⟨c, draw, e⟩ :: history) (step draw c e).1 id where
  stands := by
    obtain ⟨sub, hsub, hstands⟩ := h.stands
    rw [log, taken, acquired, Record.move, hs.deeds.1, hs.deeds.2, acquires_of_same hs.sessions,
      List.append_nil, List.append_nil, List.append_nil, hs.sessions]
    exact ⟨sub, fun ha => aimed_cons.2 (.inr (hsub ha)), hstands.mono Quit.cons⟩
  home s hs' := hs.pools _ (h.home s (hs.sessions ▸ hs'))
  woken s hs' hwaits := by
    rw [hs.sessions] at hs'
    have hruns : e.runs id = false := hs.runs.resolve_right (by simp [hs'])
    simp [Client.woken, h.woken s hs' hwaits, hruns]
  shown := by
    rw [trail, Record.move, shown_append, hs.shown, List.append_nil, log, hs.deeds.1,
      List.append_nil]
    exact h.shown

theorem Lodges.launch (h : Lodges history c id) (hturn : e.turn? = none) {sub : Subscription}
    {address : Address} {conn : Conn}
    (ha : Aimed (⟨c, draw, e⟩ :: history) id (.subscribing sub)) (hnew : acquired history id = [])
    (hs : (step draw c e).1.sessions.get? id = some { subscription := sub, conn, pool := address })
    (hpool : ((step draw c e).1.pools.get? address).isSome)
    (hwake : .wake (.session id) ∈ (step draw c e).2)
    (hshown : Client.shown (step draw c e).2 id = []) :
    Lodges (⟨c, draw, e⟩ :: history) (step draw c e).1 id where
  stands := by
    obtain ⟨sub', -, hstands⟩ := h.stands
    rw [hnew] at hstands
    obtain ⟨hlog, htaken, hnone⟩ := hstands.eq_unborn
    obtain ⟨hdeeds, htakes⟩ : c.deeds id e = [] ∧ c.takes id e = [] := deeds_of_aside hturn
    have hacquires : acquires c (step draw c e).1 id = [(address, conn)] := by
      rw [acquires, hnone, hs]
    rw [log, taken, acquired, Record.move, hdeeds, htakes, hlog, htaken, hnew, hacquires, hs]
    refine ⟨sub, fun _ => ha, ?_⟩
    exact .running (s := { subscription := sub, conn, pool := address }) rfl (by simp) (.fresh rfl)
  home s hs' := by
    rw [hs] at hs'
    exact Option.some.inj hs' ▸ hpool
  woken s _ _ := by
    have hany : (step draw c e).2.any (Effect.wakes id) = true :=
      List.any_eq_true.2 ⟨_, hwake, by simp [Effect.wakes]⟩
    simp [Client.woken, Record.move, hany]
  shown := by
    rw [trail, Record.move, shown_append, hshown, List.append_nil, log, (deeds_of_aside hturn).1,
      List.append_nil]
    exact h.shown

theorem Lodges.cancel (h : Lodges history c id) (hturn : e.turn? = none) {s : Session}
    (hs : c.sessions.get? id = some s) (hquit : Quit (⟨c, draw, e⟩ :: history) id)
    (hs' : (step draw c e).1.sessions.get? id = some { s with cancelled := true })
    (hpools : ∀ a, (c.pools.get? a).isSome → ((step draw c e).1.pools.get? a).isSome)
    (hwake : .wake (.session id) ∈ (step draw c e).2)
    (hshown : Client.shown (step draw c e).2 id = []) :
    Lodges (⟨c, draw, e⟩ :: history) (step draw c e).1 id where
  stands := by
    obtain ⟨sub, hsub, hstands⟩ := h.stands
    obtain ⟨hdeeds, htakes⟩ : c.deeds id e = [] ∧ c.takes id e = [] := deeds_of_aside hturn
    rw [log, taken, acquired, Record.move, hdeeds, htakes, acquires_of_some hs, List.append_nil,
      List.append_nil, List.append_nil, hs']
    exact ⟨sub, fun ha => aimed_cons.2 (.inr (hsub ha)), (hs ▸ hstands).cancel hquit⟩
  home s'' hs'' := by
    rw [hs'] at hs''
    exact Option.some.inj hs'' ▸ hpools _ (h.home s hs)
  woken s'' _ _ := by
    have hany : (step draw c e).2.any (Effect.wakes id) = true :=
      List.any_eq_true.2 ⟨_, hwake, by simp [Effect.wakes]⟩
    simp [Client.woken, Record.move, hany]
  shown := by
    rw [trail, Record.move, shown_append, hshown, List.append_nil, log, (deeds_of_aside hturn).1,
      List.append_nil]
    exact h.shown

theorem Lodges.turn (h : Lodges history c id) (draw : Nat) {stimulus : Session.Stimulus}
    (hturn : e.turn? = some (id, stimulus)) {s : Session} (hs : c.sessions.get? id = some s) :
    Lodges (⟨c, draw, e⟩ :: history) (step draw c e).1 id := by
  have hturned := turned_step draw hturn hs
  obtain ⟨hdeeds, htakes⟩ := deeds_of_turn hturn hs
  have hacquired : acquired (⟨c, draw, e⟩ :: history) id = acquired history id := by
    rw [acquired, Record.move, acquires_of_some hs, List.append_nil]
  have hself : (step draw c e).1.sessions.get? id = (s.turn (c.isHeard id) stimulus).next? := by
    rw [hturned.sessions, if_pos rfl]
  obtain ⟨sub, hsub, hstands⟩ := h.stands
  have hnext : Stands sub (Quit (⟨c, draw, e⟩ :: history) id)
      (acquired (⟨c, draw, e⟩ :: history) id) (log (⟨c, draw, e⟩ :: history) id)
      (taken (⟨c, draw, e⟩ :: history) id) ((step draw c e).1.sessions.get? id) := by
    rw [hself, hacquired, log, taken, hdeeds, htakes]
    exact ((hs ▸ hstands).turn (c.isHeard id) stimulus).mono Quit.cons
  exact {
    stands := ⟨sub, fun ha => aimed_cons.2 (.inr (hsub (hacquired ▸ ha))), hnext⟩
    home := fun s' hs' => by
      -- the session has the connection it was started with
      rw [hs', hacquired, h.acquired_eq hs] at hnext
      obtain ⟨hpool, -⟩ : s.pool = s'.pool ∧ s.conn = s'.conn := by simpa using hnext.acquired_eq
      exact hpool ▸ hturned.pools _ (h.home s hs)
    woken := fun s' hs' hwaits => by
      rw [hself] at hs'
      cases ht : s.turn (c.isHeard id) stimulus with
      | «over» actions report => simp [ht, Session.Turn.next?] at hs'
      | goOn s'' actions =>
        obtain rfl : s'' = s' := by simpa [ht, Session.Turn.next?] using hs'
        obtain ⟨hfresh, hwake⟩ := Session.waits_of_goOn ht hwaits
        have hruns : e.runs id = false := by
          unfold Event.turn? at hturn
          split at hturn <;> cases hturn
          all_goals first
            | rfl
            | exact absurd rfl hwake
        simp [Client.woken, h.woken s hs (.inl hfresh), hruns]
    shown := by
      rw [trail, Record.move, shown_append, h.shown, hturned.shown, if_pos rfl, log, hdeeds,
        List.filter_append] }

theorem Life.known_cons (h : Life history c id) {a : Aim}
    (ha : Aimed (⟨c, draw, e⟩ :: history) id a) : id ∈ started (⟨c, draw, e⟩ :: history) := by
  rcases aimed_cons.1 ha with ⟨op, rfl, -⟩ | ha
  · simp [started]
  · exact mem_started_cons (h.known a ha)

theorem Life.aims_cons (h : Life history c id) (hp : Possible history c e) {a a' : Aim}
    (ha : Aimed (⟨c, draw, e⟩ :: history) id a) (ha' : Aimed (⟨c, draw, e⟩ :: history) id a') :
    a = a' := by
  rcases aimed_cons.1 ha with ⟨op, rfl, rfl⟩ | hbefore
  · rcases aimed_cons.1 ha' with ⟨op', hop, rfl⟩ | hbefore'
    · cases hop
      rfl
    · exact absurd (h.known a' hbefore') hp.1
  · rcases aimed_cons.1 ha' with ⟨op', rfl, rfl⟩ | hbefore'
    · exact absurd (h.known a hbefore) hp.1
    · exact h.aims a a' hbefore hbefore'

theorem Life.next (h : Life history c id) (hp : Possible history c e)
    (hlodges : Lodges (⟨c, draw, e⟩ :: history) (step draw c e).1 id)
    (hpooled : ∀ s address, (step draw c e).1.calls.get? id = some (.joining s address) →
      ((step draw c e).1.pools.get? address).isSome)
    (haim : ∀ stage, (step draw c e).1.calls.get? id = some stage →
      Aimed (⟨c, draw, e⟩ :: history) id stage.aim)
    (hrests : acquired (⟨c, draw, e⟩ :: history) id ≠ [] → Rests ((step draw c e).1.calls.get? id))
    (hverdict : ∀ s u due, (step draw c e).1.calls.get? id = some (.greeting s (some (.ok u)) due) →
      .act (.greet (.ok ())) ∈ log (⟨c, draw, e⟩ :: history) id)
    (hover : c.calls.get? id = none → id ∈ started history →
      (step draw c e).1.calls.get? id = none)
    (hfinish : ∀ r, .finish id r ∈ (step draw c e).2 → (∀ r', .finish id r' ∉ trail history) ∧
      (step draw c e).1.calls.get? id = none ∧ id ∈ started (⟨c, draw, e⟩ :: history) ∧
      (∀ r', .finish id r' ∈ (step draw c e).2 → r' = r) ∧
      (r = .ok .done → ∀ s, Aimed (⟨c, draw, e⟩ :: history) id (.subscribing s) →
        .act (.greet (.ok ())) ∈ log (⟨c, draw, e⟩ :: history) id)) :
    Life (⟨c, draw, e⟩ :: history) (step draw c e).1 id where
  toLodges := hlodges
  pooled := hpooled
  known _ ha := h.known_cons ha
  aims _ _ ha ha' := h.aims_cons hp ha ha'
  aim := haim
  rests := hrests
  verdict := hverdict
  finish r hr := by
    rcases List.mem_append.1 hr with hr | hr
    · obtain ⟨hstage, hstarted, hall⟩ := h.finish r hr
      refine ⟨hover hstage hstarted, mem_started_cons hstarted, fun r' hr' => ?_⟩
      exact (List.mem_append.1 hr').elim (hall r') fun hnew => absurd hr ((hfinish r' hnew).1 r)
    · obtain ⟨hnone, hstage, hstarted, hall, -⟩ := hfinish r hr
      refine ⟨hstage, hstarted, fun r' hr' => ?_⟩
      exact (List.mem_append.1 hr').elim (fun hold => absurd hold (hnone r')) (hall r')
  accepted s hr ha := by
    rcases List.mem_append.1 hr with hold | hnew
    · refine List.mem_append_left _ ?_
      rcases aimed_cons.1 ha with ⟨op, rfl, -⟩ | hbefore
      · exact absurd (h.finish _ hold).2.1 hp.1
      · exact h.accepted s hold hbefore
    · exact (hfinish _ hnew).2.2.2.2 rfl s ha

theorem Life.still (h : Life history c id) (hp : Possible history c e) (hs : Skips draw c e id)
    (hcalls : (step draw c e).1.calls.get? id = c.calls.get? id)
    (hfinish : ∀ r, .finish id r ∉ (step draw c e).2) :
    Life (⟨c, draw, e⟩ :: history) (step draw c e).1 id := by
  refine h.next hp (h.toLodges.same hs) ?_ ?_ ?_ ?_ ?_ ?_
  · exact fun s a hstage => hs.pools a (h.pooled s a (hcalls ▸ hstage))
  · exact fun stage hstage => aimed_cons.2 (.inr (h.aim stage (hcalls ▸ hstage)))
  · rw [acquired, Record.move, acquires_of_same hs.sessions, List.append_nil, hcalls]
    exact h.rests
  · exact fun s u due hstage => List.mem_append_left _ (h.verdict s u due (hcalls ▸ hstage))
  · exact fun hnone _ => hcalls.trans hnone
  · exact fun r hr => absurd hr (hfinish r)

theorem Life.begins (h : Life history c id) (draw : Nat) (hp : Possible history c e) {a : Aim}
    (ha : Aims c e id a) : acquired history id = [] ∧ Aimed (⟨c, draw, e⟩ :: history) id a ∧
      (c.calls.get? id = none → id ∉ started history) ∧ ∀ r, .finish id r ∉ trail history := by
  rcases ha with ⟨stage, hs, rfl, hrests⟩ | ⟨op, rfl, rfl⟩
  · refine ⟨?_, aimed_cons.2 (.inr (h.aim stage hs)), fun hnone => ?_, fun r hr => ?_⟩
    · by_contra hne
      exact hrests (hs ▸ h.rests hne)
    · rw [hs] at hnone
      cases hnone
    · have hnone := (h.finish r hr).1
      rw [hs] at hnone
      cases hnone
  · refine ⟨?_, aimed_cons.2 (.inl ⟨op, rfl, rfl⟩), fun _ => hp.1,
      fun r hr => hp.1 (h.finish r hr).2.1⟩
    by_contra hne
    obtain ⟨sub, hsub, -⟩ := h.stands
    exact hp.1 (h.known _ (hsub hne))

theorem Life.continues (h : Life history c id) (hp : Possible history c e) {stage : Stage}
    (hstage : (step draw c e).1.calls.get? id = some stage)
    (hlodges : Lodges (⟨c, draw, e⟩ :: history) (step draw c e).1 id)
    (hpooled : ∀ s address, stage = .joining s address →
      ((step draw c e).1.pools.get? address).isSome)
    (haimed : Aimed (⟨c, draw, e⟩ :: history) id stage.aim)
    (hrests : acquired (⟨c, draw, e⟩ :: history) id ≠ [] → Rests (some stage))
    (huntold : ∀ s u due, stage ≠ .greeting s (some (.ok u)) due)
    (hunstarted : c.calls.get? id = none → id ∉ started history)
    (hnone : ∀ r, .finish id r ∉ (step draw c e).2) :
    Life (⟨c, draw, e⟩ :: history) (step draw c e).1 id := by
  have honly {stage' : Stage} (hs : (step draw c e).1.calls.get? id = some stage') :
      stage = stage' := Option.some.inj (hstage.symm.trans hs)
  refine h.next hp hlodges ?_ ?_ ?_ ?_ ?_ ?_
  · exact fun s address hs => hpooled s address (honly hs)
  · exact fun stage' hs => honly hs ▸ haimed
  · rw [hstage]
    exact hrests
  · exact fun s u due hs => absurd (honly hs) (huntold s u due)
  · exact fun hcall hstarted => absurd hstarted (hunstarted hcall)
  · exact fun r hr => absurd hr (hnone r)

theorem Life.comes (h : Life history c id) (hp : Possible history c e) (hturn : e.turn? = none)
    (haside : Aside e c (step draw c e)) {a : Aim} (ha : Aims c e id a)
    (hcomes : Comes a e id c (step draw c e)) :
    Life (⟨c, draw, e⟩ :: history) (step draw c e).1 id := by
  obtain ⟨hnew, haimed, hunstarted, hunfinished⟩ := h.begins draw hp ha
  have hsame (hsessions : (step draw c e).1.sessions.get? id = c.sessions.get? id) :
      acquired (⟨c, draw, e⟩ :: history) id = [] := by
    rw [acquired, Record.move, acquires_of_same hsessions, hnew, List.append_nil]
  cases hcomes with
  | waits stage hstage haim hrests hpool hsessions hnone =>
    have hlodges := h.toLodges.same (haside.skips hturn hsessions)
    refine h.continues hp hstage hlodges hpool (haim ▸ haimed) ?_ ?_ hunstarted hnone
    · exact fun hne => absurd (hsame hsessions) hne
    · rintro s u due rfl
      exact hrests trivial
  | launches s address conn due hsub hstage hsession hwake hpool hgains hnone =>
    subst hsub
    have hlodges := h.toLodges.launch hturn haimed hnew hsession hpool hwake (haside.silent id)
    refine h.continues hp hstage hlodges ?_ haimed (fun _ => trivial) ?_ hunstarted hnone
    · exact fun s' address' hs => by cases hs
    · exact fun s' u due' hs => by cases hs
  | returns r hstage hsessions hr hall hallowed =>
    refine h.next hp (h.toLodges.same (haside.skips hturn hsessions)) ?_ ?_ ?_ ?_ ?_ ?_
    · intro s address hs
      cases hstage.symm.trans hs
    · intro stage hs
      cases hstage.symm.trans hs
    · exact fun hne => absurd (hsame hsessions) hne
    · intro s u due hs
      cases hstage.symm.trans hs
    · exact fun _ _ => hstage
    · intro r' hr'
      obtain rfl := hall r' hr'
      refine ⟨hunfinished, hstage, h.known_cons haimed, hall, ?_⟩
      rintro rfl s hs
      -- a subscribe call without a session returns an error only
      obtain rfl := h.aims_cons hp haimed hs
      obtain ⟨f, hf, -⟩ := hallowed
      cases hf

theorem Life.unfinished (h : Life history c id) {stage : Stage} (hs : c.calls.get? id = some stage)
    (r : Except CallError Outcome) : .finish id r ∉ trail history := fun hr => by
  have hnone := (h.finish r hr).1
  rw [hs] at hnone
  cases hnone

theorem Life.returns (h : Life history c id) (hp : Possible history c e) {stage : Stage}
    (hs : c.calls.get? id = some stage) {r : Except CallError Outcome}
    (hlodges : Lodges (⟨c, draw, e⟩ :: history) (step draw c e).1 id)
    (hcalls : (step draw c e).1.calls.get? id = none)
    (hr : ∀ r', .finish id r' ∈ (step draw c e).2 → r' = r)
    (haccepted : r = .ok .done → .act (.greet (.ok ())) ∈ log history id) :
    Life (⟨c, draw, e⟩ :: history) (step draw c e).1 id := by
  refine h.next hp hlodges ?_ ?_ ?_ ?_ ?_ ?_
  · simp [hcalls]
  · simp [hcalls]
  · rw [hcalls]
    exact fun _ => trivial
  · simp [hcalls]
  · exact fun _ _ => hcalls
  · intro r' hr'
    obtain rfl := hr r' hr'
    refine ⟨h.unfinished hs, hcalls, mem_started_cons (h.known _ (h.aim stage hs)), hr,
      fun hdone s _ => List.mem_append_left _ (haccepted hdone)⟩

theorem Lodges.quit (h : Lodges history c id) (draw : Nat) (hturn : e.turn? = none)
    (hquit : acquired history id ≠ [] → Quit (⟨c, draw, e⟩ :: history) id)
    (haside : Aside e c (step draw c e))
    (hsessions : (step draw c e).1.sessions = (c.unsubscribe id).1.sessions)
    (hwake : ∀ x ∈ (c.unsubscribe id).2, x ∈ (step draw c e).2) :
    Lodges (⟨c, draw, e⟩ :: history) (step draw c e).1 id := by
  have hsame (hs : (c.unsubscribe id).1.sessions.get? id = c.sessions.get? id) :
      Lodges (⟨c, draw, e⟩ :: history) (step draw c e).1 id :=
    h.same (haside.skips hturn (by rw [hsessions, hs]))
  cases hs : c.sessions.get? id with
  | none => exact hsame (by simp [unsubscribe, hs, stay])
  | some s =>
    cases hc : s.cancelled with
    | true => exact hsame (by simp [unsubscribe, hs, hc, stay])
    | false =>
      have hacquired : acquired history id ≠ [] := by simp [h.acquired_eq hs]
      refine h.cancel hturn hs (hquit hacquired) ?_ haside.pools (hwake _ ?_) (haside.silent id)
      · simp [hsessions, unsubscribe, hs, hc, Table.get?_put]
      · simp [unsubscribe, hs, hc]

theorem acquires_unsubscribe (c : Client) (id : CallId) :
    acquires c (c.unsubscribe id).1 id = [] := by
  cases hs : c.sessions.get? id with
  | some s => exact acquires_of_some hs
  | none => exact acquires_of_same (by simp [unsubscribe, hs, stay])

theorem Life.told (h : Life history c id) (hp : Possible history c e) (hturn : e.turn? = none)
    (haside : Aside e c (step draw c e)) {s : Subscription} {verdict : Except Fault Unit}
    {due : Option Nat} (hs : c.calls.get? id = some (.greeting s (some verdict) due))
    (hm : step draw c e = c.greeted id s verdict) :
    Life (⟨c, draw, e⟩ :: history) (step draw c e).1 id := by
  have hlodges := h.toLodges.same (haside.skips hturn (by rw [hm]; rfl))
  have hcalls : (step draw c e).1.calls.get? id = none := by
    rw [hm]
    simp [greeted]
  cases verdict with
  | ok u =>
    refine h.returns hp hs (r := .ok .done) hlodges hcalls (fun r hr => ?_)
      fun _ => h.verdict s u due hs
    rw [hm] at hr
    exact (Effect.finish.inj (List.mem_singleton.1 hr)).2
  | error f =>
    refine h.returns hp hs (r := .error (.ofHandshake s.stream s.partition f)) hlodges hcalls
      (fun r hr => ?_) (by simp)
    rw [hm] at hr
    exact (Effect.finish.inj (List.mem_singleton.1 hr)).2

theorem Life.expelled (h : Life history c id) (hp : Possible history c e) (hturn : e.turn? = none)
    (haside : Aside e c (step draw c e)) {s : Subscription} {due : Nat} {d : Span}
    (hs : c.calls.get? id = some (.greeting s none (some due)))
    (hm : step draw c e = c.expel id s d) :
    Life (⟨c, draw, e⟩ :: history) (step draw c e).1 id := by
  let f : CallError := .ofHandshake s.stream s.partition (noHandshake d)
  have heffects : (step draw c e).2 = (c.unsubscribe id).2 ++ [.finish id (.error f)] := by
    rw [hm]
    rfl
  have hquit : Quit (⟨c, draw, e⟩ :: history) id := by
    refine .inr ⟨f, List.mem_append_right _ ?_⟩
    rw [Record.move, heffects]
    exact List.mem_append_right _ (List.mem_singleton_self _)
  have hwakes : ∀ x ∈ (c.unsubscribe id).2, x ∈ (step draw c e).2 := fun x hx => by
    rw [heffects]
    exact List.mem_append_left _ hx
  have hlodges := h.toLodges.quit draw hturn (fun _ => hquit) haside (by rw [hm]; rfl) hwakes
  refine h.returns hp hs (r := .error f) hlodges
    (by rw [hm]; simp [expel, Move.after, greeted]) (fun r hr => ?_) (by simp)
  rw [heffects] at hr
  rcases List.mem_append.1 hr with hr | hr
  · exact absurd hr ((plain_unsubscribe c id).2 id r)
  · exact (Effect.finish.inj (List.mem_singleton.1 hr)).2

theorem Life.unsubscribe (h : Life history c id) (hp : Possible history c (.unsubscribe id))
    (haside : Aside (.unsubscribe id) c (step draw c (.unsubscribe id))) :
    Life (⟨c, draw, .unsubscribe id⟩ :: history) (step draw c (.unsubscribe id)).1 id := by
  have hquit (hacquired : acquired history id ≠ []) :
      Quit (⟨c, draw, .unsubscribe id⟩ :: history) id :=
    .inl ⟨[], history, c, draw, rfl, hacquired⟩
  have hlodges := h.toLodges.quit draw rfl hquit haside rfl fun _ hx => hx
  obtain ⟨⟨sessions, hframe⟩, -⟩ := unsubscribe_frame c id
  have hcalls : (step draw c (.unsubscribe id)).1.calls = c.calls := by
    rw [Client.step, hframe]
  refine h.next hp hlodges ?_ ?_ ?_ ?_ ?_ ?_
  · exact fun s a hs => haside.pools a (h.pooled s a (hcalls ▸ hs))
  · exact fun stage hs => aimed_cons.2 (.inr (h.aim stage (hcalls ▸ hs)))
  · have hacquires : acquires c (step draw c (.unsubscribe id)).1 id = [] :=
      acquires_unsubscribe c id
    rw [acquired, Record.move, hacquires, List.append_nil, hcalls]
    exact h.rests
  · exact fun s u due hs => List.mem_append_left _ (h.verdict s u due (hcalls ▸ hs))
  · exact fun hnone _ => by rw [hcalls, hnone]
  · exact fun r hr => absurd hr ((plain_unsubscribe c id).2 id r)

theorem Life.abandoned (h : Life history c id) (hp : Possible history c e) (hturn : e.turn? = none)
    (haside : Aside e c (step draw c e)) (hm : step draw c e = c.abandon id) :
    Life (⟨c, draw, e⟩ :: history) (step draw c e).1 id := by
  have hsessions : (step draw c e).1.sessions.get? id = c.sessions.get? id := by
    rw [hm, sessions_abandon]
  have hcalls : (step draw c e).1.calls.get? id = none := by rw [hm, calls_abandon]
  refine h.next hp (h.toLodges.same (haside.skips hturn hsessions)) ?_ ?_ ?_ ?_ ?_ ?_
  · simp [hcalls]
  · simp [hcalls]
  · exact fun _ => hcalls ▸ trivial
  · simp [hcalls]
  · exact fun _ _ => hcalls
  · intro r hr
    rw [hm] at hr
    exact absurd hr ((plain_abandon c id).2 id r)

theorem Life.aside (h : Life history c id) (hp : Possible history c e) (hturn : e.turn? = none)
    (haside : Aside e c (step draw c e)) :
    Life (⟨c, draw, e⟩ :: history) (step draw c e).1 id := by
  cases haside.passes id with
  | still hcalls hsessions hfinish =>
    exact h.still hp (haside.skips hturn hsessions) hcalls hfinish
  | comes a haims hcomes => exact h.comes hp hturn haside haims hcomes
  | told s verdict due hs hm => exact h.told hp hturn haside hs hm
  | expelled s due d he hs hd hdue hm => exact h.expelled hp hturn haside hs hm
  | quits he hm =>
    subst he
    exact h.unsubscribe hp haside
  | abandoned he hm => exact h.abandoned hp hturn haside hm

theorem Life.turn (h : Life history c id) (hp : Possible history c e) {stimulus : Session.Stimulus}
    (hturn : e.turn? = some (id, stimulus)) {s : Session} (hs : c.sessions.get? id = some s) :
    Life (⟨c, draw, e⟩ :: history) (step draw c e).1 id := by
  have hlodges := h.toLodges.turn draw hturn hs
  have hturned := turned_step draw hturn hs
  refine h.next hp hlodges ?_ ?_ ?_ ?_ ?_ ?_
  · intro s' a hstage
    rcases hturned.stage with hsame | ⟨s'', verdict, due, -, hafter, -⟩
    · exact hturned.pools a (h.pooled s' a (hsame ▸ hstage))
    · cases hafter.symm.trans hstage
  · intro stage hstage
    refine aimed_cons.2 (.inr ?_)
    rcases hturned.stage with hsame | ⟨s', verdict, due, hbefore, hafter, -⟩
    · exact h.aim stage (hsame ▸ hstage)
    · obtain rfl := Option.some.inj (hafter.symm.trans hstage)
      have haim := h.aim _ hbefore
      exact haim
  · intro ha
    rw [acquired, Record.move, acquires_of_some hs, List.append_nil] at ha
    rcases hturned.stage with hsame | ⟨s', verdict, due, -, hafter, -⟩
    · exact hsame ▸ h.rests ha
    · rw [hafter]
      trivial
  · intro s' u due hstage
    rcases hturned.stage with hsame | ⟨s'', verdict, due', hbefore, hafter, hverdict⟩
    · exact List.mem_append_left _ (h.verdict s' u due (hsame ▸ hstage))
    · obtain ⟨-, hok, -⟩ : s'' = s' ∧ verdict = .ok u ∧ due' = due := by
        simpa using hafter.symm.trans hstage
      rw [hok] at hverdict
      rw [log, (deeds_of_turn hturn hs).1]
      exact List.mem_append_right _ (hverdict.resolve_right (by simp))
  · intro hnone _
    rcases hturned.stage with hsame | ⟨s', verdict, due, hbefore, -, -⟩
    · exact hsame.trans hnone
    · cases hnone.symm.trans hbefore
  · exact fun r hr => absurd hr (hturned.finish id r)

theorem Life.step (h : Life history c id) (hp : Possible history c e) (hc : c.Coherent)
    (hpooled : c.Pooled) : Life (⟨c, draw, e⟩ :: history) (step draw c e).1 id := by
  cases meets draw hc hpooled e id with
  | elsewhere hs hcalls hfinish => exact h.still hp hs hcalls hfinish
  | turn stimulus s hturn hs => exact h.turn hp hturn hs
  | aside hturn haside => exact h.aside hp hturn haside

end Lives

theorem Run.life {settings : Settings} {now : Nat} {history : History} {c : Client}
    (h : Run settings now history c) (id : CallId) : Life history c id := by
  induction h generalizing id with
  | fresh => exact life_fresh settings now id
  | next draw hrun hp ih =>
    exact (ih id).step hp hrun.keeps.coherent fun k s address hs => (ih k).pooled s address hs

theorem Run.pooled {settings : Settings} {now : Nat} {history : History} {c : Client}
    (h : Run settings now history c) : c.Pooled :=
  fun id s address hs => (h.life id).pooled s address hs

end StreamClient.Client
