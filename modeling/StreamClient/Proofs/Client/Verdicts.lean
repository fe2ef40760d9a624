import StreamClient.Proofs.Client.Answers
import StreamClient.Proofs.Client.Release
import StreamClient.Proofs.Client.Snapshots

/-! How the handshake of a subscription comes out over a run: when the call got its connection, what
the broker decided and when, and what the call returned. -/

namespace StreamClient

def Subscription.reply (s : Subscription) :
    Except Fault Unit → Except CallError Client.Outcome
  | .ok _ => .ok .done
  | .error f => .error (.ofHandshake s.stream s.partition f)

namespace Client

open Session (Deed)

section Clock

variable {draw : Nat} {c : Client} {e : Event} {id : CallId} {m : Move}

theorem now_lookup (draw : Nat) (c : Client) (id : CallId) (s : Subscription) (left : Nat) :
    (lookup draw c id s left).1.now = c.now := by
  cases lookup_finds draw c id s left with
  | nowhere _ _ hm => rw [hm]; rfl
  | later _ _ _ _ hm => rw [hm]; rfl
  | late _ _ _ hm => rw [hm]; rfl
  | reuses _ _ _ _ _ _ hm => rw [hm]; rfl
  | dials _ _ _ _ hm => rw [hm]; rfl

theorem Deals.now_eq (h : Deals draw c e m) (he : ∀ t, e ≠ .tick t) : m.1.now = c.now := by
  cases h with
  | other _ _ hm =>
    cases hm with
    | call id _ hm =>
      obtain ⟨link, calls, hframe⟩ := hm.frame
      rw [hframe]
    | arrives id s a conn _ _ hm => rw [hm]; rfl
    | talks _ hm =>
      obtain ⟨calls, sessions, hframe⟩ := hm.frame
      rw [hframe]
    | leaves id s _ hm =>
      obtain ⟨calls, sessions, hframe⟩ := hm.frame
      rw [hframe]
    | shuts id _ hclosed hm =>
      obtain ⟨link, calls, hframe⟩ := (apart_close draw id hclosed).frame
      rw [hm, hframe]
      rfl
    | ticks now he' _ => exact absurd he' (he now)
    | expires _ hm => rw [hm]; rfl
  | refresh id t o _ _ _ _ hm => rw [hm]; rfl
  | lookup id s left link _ _ hm => rw [hm, now_lookup, informed_frame]

theorem Deals.now_le (h : Deals draw c e m) (hm : m = step draw c e) : c.now ≤ m.1.now := by
  by_cases he : ∃ t, e = .tick t
  · obtain ⟨t, rfl⟩ := he
    rw [hm]
    exact Nat.le_max_left _ _
  · exact (h.now_eq fun t ht => he ⟨t, ht⟩).ge

theorem Deals.launched (h : Deals draw c e m) {s : Session} (hnone : c.sessions.get? id = none)
    (hs : m.1.sessions.get? id = some s) :
    s.cancelled = false ∧ s.phase = .fresh ∧ m.1.calls.get? id = some (.greeting s.subscription none
      (c.settings.handshakeTimeout.map fun d => c.now + d.ceilMillis)) := by
  have hsame {m' : Move} (hm : m = m') (hsessions : m'.1.sessions.get? id = c.sessions.get? id) :
      False := by
    rw [hm, hsessions, hnone] at hs
    cases hs
  have hlaunch {k : CallId} {sub : Subscription} {a : Address} {conn : Conn} {c' : Client}
      (hm : m = c'.launch k sub a conn) (hsessions : c'.sessions = c.sessions)
      (hnow : c'.now = c.now) (hsettings : c'.settings = c.settings) :
      s.cancelled = false ∧ s.phase = .fresh ∧ m.1.calls.get? id = some (.greeting s.subscription
        none (c.settings.handshakeTimeout.map fun d => c.now + d.ceilMillis)) := by
    by_cases hk : id = k
    · subst hk
      obtain rfl : { subscription := sub, conn, pool := a } = s := by
        simpa [hm, launch, Client.put, Table.get?_put] using hs
      simp [hm, launch, hnow, hsettings]
    · rw [hm] at hs
      simp [launch, Client.put, Table.get?_put, hk, hsessions, hnone] at hs
  cases h with
  | other _ _ hm =>
    cases hm with
    | call k _ hm =>
      obtain ⟨link, calls, hframe⟩ := hm.frame
      rw [hframe] at hs
      cases hnone.symm.trans hs
    | arrives k sub a conn _ _ hm => exact hlaunch hm rfl rfl rfl
    | talks _ hm =>
      have horigin := hm.origins id
      rw [hs, hnone] at horigin
      cases horigin
    | leaves k s' _ hm =>
      rw [hm.sessions] at hs
      split at hs
      · cases hs
      · cases hnone.symm.trans hs
    | shuts k _ hclosed hm =>
      obtain ⟨link, calls, hframe⟩ := (apart_close draw k hclosed).frame
      exact (hsame hm (by rw [hframe]; rfl)).elim
    | ticks now _ hm => exact (hsame hm rfl).elim
    | expires _ hm => exact (hsame hm rfl).elim
  | refresh k t o _ _ _ _ hm => exact (hsame hm rfl).elim
  | lookup k sub left link _ _ hm =>
    have hinformed := informed_frame c e
    cases lookup_finds draw { c.informed e with link } k sub left with
    | reuses a conn p _ _ _ hfound =>
      exact hlaunch (hm.trans hfound) (by rw [hinformed]) (by rw [hinformed]) (by rw [hinformed])
    | nowhere _ _ hfound => exact (hsame (hm.trans hfound) (by rw [hinformed]; rfl)).elim
    | later _ _ _ _ hfound => exact (hsame (hm.trans hfound) (by rw [hinformed]; rfl)).elim
    | late _ _ _ hfound => exact (hsame (hm.trans hfound) (by rw [hinformed]; rfl)).elim
    | dials _ _ _ _ hfound => exact (hsame (hm.trans hfound) (by rw [hinformed]; rfl)).elim

end Clock

/-- What the broker decides about the subscription of `id` in an event. -/
def verdict? (c : Client) (id : CallId) (e : Event) : Option (Except Fault Unit) :=
  match e.turn?, c.sessions.get? id with
  | some (k, stimulus), some s => if k = id then s.verdict? stimulus else none
  | _, _ => none

def verdicts : History → CallId → List (Nat × Except Fault Unit)
  | [], _ => []
  | r :: earlier, id =>
    ((r.before.verdict? id r.event).map (r.before.now, ·)).toList ++ verdicts earlier id

def joinedAt? : History → CallId → Option Nat
  | [], _ => none
  | r :: earlier, id =>
    if acquires r.before r.move.1 id = [] then joinedAt? earlier id else some r.before.now

def waitsUntil? (settings : Settings) (history : History) (id : CallId) : Option Nat :=
  (joinedAt? history id).bind fun t => settings.handshakeTimeout.map fun d => t + d.ceilMillis

/-- The clock does not pass the time at which the call `id` is up. -/
def Record.isPunctual (id : CallId) (r : Record) : Bool :=
  match r.event, (r.before.calls.get? id).bind Stage.due? with
  | .tick t, some due => decide (t ≤ due)
  | _, _ => true

def Punctual (history : History) (id : CallId) : Prop := ∀ r ∈ history, r.isPunctual id = true

/-- What the call `id` hears of the handshake: what the broker decided, or that the session is over
after it was unsubscribed. -/
def Settles (settings : Settings) (history : History) (id : CallId) (v : Except Fault Unit) : Prop :=
  (∃ t, verdicts history id = [(t, v)] ∧ (Punctual history id →
    ∀ due, waitsUntil? settings history id = some due → t ≤ due)) ∨
  v = .error endedUnheard ∧ Unsubscribed history id

/-- How a session is left that was accepted, or was not. -/
def Remains (history : History) (c : Client) (id : CallId) : Except Fault Unit → Prop
  | .ok _ => ∀ session, c.sessions.get? id = some session → session.phase = .streaming
  | .error _ => c.sessions.get? id = none ∧ .act (.greet (.ok ())) ∉ log history id

inductive Shakes (settings : Settings) (history : History) (c : Client) (id : CallId) : Prop
  | apart : acquired history id = [] → (∀ s v due, c.calls.get? id ≠ some (.greeting s v due)) →
    Shakes settings history c id
  | waits (s : Subscription) (session : Session) :
    c.calls.get? id = some (.greeting s none (waitsUntil? settings history id)) →
    c.sessions.get? id = some session → session.phase ≠ .streaming →
    (session.cancelled = true → Unsubscribed history id) → verdicts history id = [] →
    (Punctual history id → ∀ due, waitsUntil? settings history id = some due → c.now ≤ due) →
    .act (.greet (.ok ())) ∉ log history id → Shakes settings history c id
  | told (s : Subscription) (v : Except Fault Unit) :
    c.calls.get? id = some (.greeting s (some v) (waitsUntil? settings history id)) →
    Settles settings history id v → Remains history c id v → Shakes settings history c id
  | returned (s : Subscription) (v : Except Fault Unit) : c.calls.get? id = none →
    Aimed history id (.subscribing s) → .finish id (s.reply v) ∈ trail history →
    Settles settings history id v → Remains history c id v → Shakes settings history c id
  | expired (s : Subscription) (d : Span) (t : Nat) : c.calls.get? id = none →
    Aimed history id (.subscribing s) → settings.handshakeTimeout = some d →
    joinedAt? history id = some t → t + d.ceilMillis ≤ c.now →
    .finish id (s.reply (.error (noHandshake d))) ∈ trail history →
    (∀ session, c.sessions.get? id = some session → session.cancelled = true) →
    (∀ x ∈ verdicts history id, t + d.ceilMillis ≤ x.1) →
    .act (.greet (.ok ())) ∉ log history id → Shakes settings history c id
  | abandoned : c.calls.get? id = none → (∃ r ∈ history, r.event = .abandon id) →
    (∀ r, .finish id r ∉ trail history) → Shakes settings history c id

section Verdicts

variable {settings : Settings} {now : Nat} {history : History} {c : Client} {draw : Nat} {e : Event}
  {id : CallId}

theorem verdict?_of_turn {stimulus : Session.Stimulus} {s : Session}
    (hturn : e.turn? = some (id, stimulus)) (hs : c.sessions.get? id = some s) :
    c.verdict? id e = s.verdict? stimulus := by
  simp [verdict?, hturn, hs]

theorem session_of_verdict? {v : Except Fault Unit} (h : c.verdict? id e = some v) :
    ∃ stimulus s, e.turn? = some (id, stimulus) ∧ c.sessions.get? id = some s ∧
      s.verdict? stimulus = some v := by
  unfold verdict? at h
  split at h
  · next k stimulus s hturn hs =>
    split at h
    · next hk => exact ⟨stimulus, s, hk ▸ hturn, hs, h⟩
    · cases h
  · cases h

theorem verdicts_cons (c : Client) (draw : Nat) (e : Event) (history : History) (id : CallId) :
    verdicts (⟨c, draw, e⟩ :: history) id =
      ((c.verdict? id e).map (c.now, ·)).toList ++ verdicts history id := rfl

theorem verdicts_same (h : c.verdict? id e = none) :
    verdicts (⟨c, draw, e⟩ :: history) id = verdicts history id := by
  rw [verdicts_cons, h]
  rfl

theorem joinedAt?_same (h : acquires c (step draw c e).1 id = []) :
    joinedAt? (⟨c, draw, e⟩ :: history) id = joinedAt? history id := by
  rw [joinedAt?, Record.move, if_pos h]

theorem waitsUntil?_same (settings : Settings) (history : History)
    (h : acquires c (step draw c e).1 id = []) :
    waitsUntil? settings (⟨c, draw, e⟩ :: history) id = waitsUntil? settings history id := by
  rw [waitsUntil?, waitsUntil?, joinedAt?_same h]

theorem Punctual.of_cons {r : Record} (h : Punctual (r :: history) id) : Punctual history id :=
  fun r' hr' => h r' (List.mem_cons_of_mem _ hr')

theorem Unsubscribed.cons (h : Unsubscribed history id) :
    Unsubscribed (⟨c, draw, e⟩ :: history) id := by
  obtain ⟨later, earlier, before, draw', rfl, ha⟩ := h
  exact ⟨⟨c, draw, e⟩ :: later, earlier, before, draw', rfl, ha⟩

theorem Settles.same {v : Except Fault Unit} (h : Settles settings history id v)
    (hv : c.verdict? id e = none) (ha : acquires c (step draw c e).1 id = []) :
    Settles settings (⟨c, draw, e⟩ :: history) id v := by
  rcases h with ⟨t, hverdicts, hpunctual⟩ | ⟨hunheard, hunsubscribed⟩
  · refine .inl ⟨t, (verdicts_same hv).trans hverdicts, fun hp => ?_⟩
    rw [waitsUntil?_same settings history ha]
    exact hpunctual hp.of_cons
  · exact .inr ⟨hunheard, hunsubscribed.cons⟩

theorem Run.verdicts_of_unborn (h : Run settings now history c) (ha : acquired history id = []) :
    verdicts history id = [] := by
  induction h with
  | fresh => rfl
  | @next history c e draw hrun hp ih =>
    have hbefore : acquired history id = [] := by
      rw [acquired, List.append_eq_nil_iff] at ha
      exact ha.1
    cases hv : c.verdict? id e with
    | none => exact (verdicts_same hv).trans (ih hbefore)
    | some v =>
      obtain ⟨-, s, -, hs, -⟩ := session_of_verdict? hv
      have hone := (hrun.life id).toLodges.acquired_eq hs
      rw [hbefore] at hone
      cases hone

structure Stays (draw : Nat) (c : Client) (e : Event) (id : CallId) : Prop where
  calls : (step draw c e).1.calls.get? id = c.calls.get? id
  finish : ∀ r, .finish id r ∉ (step draw c e).2
  deeds : c.deeds id e = []
  verdict : c.verdict? id e = none
  acquires : acquires c (step draw c e).1 id = []
  sessions : (step draw c e).1.sessions.get? id = c.sessions.get? id ∨ e = .unsubscribe id ∧
    ∃ s, c.sessions.get? id = some s ∧
      (step draw c e).1.sessions.get? id = some { s with cancelled := true }

theorem verdict?_of_aside (h : e.turn? = none) : c.verdict? id e = none := by
  simp [verdict?, h]

theorem Skips.verdict (h : Skips draw c e id) : c.verdict? id e = none := by
  refine Option.eq_none_iff_forall_ne_some.2 fun v hv => ?_
  obtain ⟨stimulus, s, hturn, hs, hverdict⟩ := session_of_verdict? hv
  refine Session.deeds_ne_nil (c.isHeard id) hverdict ?_
  rw [← (deeds_of_turn hturn hs).1, h.deeds.1]

theorem Skips.stays (h : Skips draw c e id)
    (hcalls : (step draw c e).1.calls.get? id = c.calls.get? id)
    (hfinish : ∀ r, .finish id r ∉ (step draw c e).2) : Stays draw c e id :=
  ⟨hcalls, hfinish, h.deeds.1, h.verdict, acquires_of_same h.sessions, .inl h.sessions⟩

theorem stays_unsubscribe (draw : Nat) (c : Client) (id : CallId) :
    Stays draw c (.unsubscribe id) id where
  calls := by
    obtain ⟨⟨sessions, hframe⟩, -⟩ := unsubscribe_frame c id
    rw [step, hframe]
  finish := (plain_unsubscribe c id).2 id
  deeds := (deeds_of_aside rfl).1
  verdict := verdict?_of_aside rfl
  acquires := acquires_unsubscribe c id
  sessions := by
    cases hs : c.sessions.get? id with
    | none => exact .inl (by simp [step, unsubscribe, hs, stay])
    | some s =>
      cases hc : s.cancelled with
      | true => exact .inl (by simp [step, unsubscribe, hs, hc, stay])
      | false =>
        exact .inr ⟨rfl, s, rfl, by simp [step, unsubscribe, hs, hc, Table.get?_put]⟩

theorem Stays.session_of_some (h : Stays draw c e id) {s : Session}
    (hs : c.sessions.get? id = some s) : ∃ s', (step draw c e).1.sessions.get? id = some s' ∧
      s'.phase = s.phase ∧ (s'.cancelled = true → s.cancelled = true ∨ e = .unsubscribe id) ∧
        (s.cancelled = true → s'.cancelled = true) := by
  rcases h.sessions with hsame | ⟨he, s', hs', hafter⟩
  · exact ⟨s, hsame.trans hs, rfl, .inl, fun hc => hc⟩
  · obtain rfl := Option.some.inj (hs.symm.trans hs')
    exact ⟨_, hafter, rfl, fun _ => .inr he, fun _ => rfl⟩

theorem Stays.session_of_none (h : Stays draw c e id) (hs : c.sessions.get? id = none) :
    (step draw c e).1.sessions.get? id = none := by
  rcases h.sessions with hsame | ⟨-, s', hs', -⟩
  · exact hsame.trans hs
  · cases hs.symm.trans hs'

theorem log_same (h : c.deeds id e = []) : log (⟨c, draw, e⟩ :: history) id = log history id := by
  rw [log, h, List.append_nil]

theorem acquired_same (h : acquires c (step draw c e).1 id = []) :
    acquired (⟨c, draw, e⟩ :: history) id = acquired history id := by
  rw [acquired, Record.move, h, List.append_nil]

theorem Remains.stays {v : Except Fault Unit} (h : Remains history c id v)
    (hs : Stays draw c e id) : Remains (⟨c, draw, e⟩ :: history) (step draw c e).1 id v := by
  cases v with
  | ok u =>
    intro s' hs'
    cases hbefore : c.sessions.get? id with
    | none => cases (hs.session_of_none hbefore).symm.trans hs'
    | some s =>
      obtain ⟨s'', hafter, hphase, -⟩ := hs.session_of_some hbefore
      obtain rfl := Option.some.inj (hafter.symm.trans hs')
      exact hphase.trans (h s hbefore)
  | error f => exact ⟨hs.session_of_none h.1, by rw [log_same hs.deeds]; exact h.2⟩

theorem Settles.stays {v : Except Fault Unit} (h : Settles settings history id v)
    (hs : Stays draw c e id) : Settles settings (⟨c, draw, e⟩ :: history) id v :=
  h.same hs.verdict hs.acquires

theorem mem_trail_cons {x : Effect} (h : x ∈ trail history) :
    x ∈ trail (⟨c, draw, e⟩ :: history) := List.mem_append_left _ h

theorem Aimed.cons {a : Aim} (h : Aimed history id a) : Aimed (⟨c, draw, e⟩ :: history) id a :=
  aimed_cons.2 (.inr h)

theorem now_le_of_punctual (hrun : Run settings now history c)
    (hp : Punctual (⟨c, draw, e⟩ :: history) id) {stage : Stage}
    (hs : c.calls.get? id = some stage) {due : Nat} (hdue : stage.due? = some due)
    (hle : c.now ≤ due) : (step draw c e).1.now ≤ due := by
  by_cases he : ∃ t, e = .tick t
  · obtain ⟨t, rfl⟩ := he
    have hpunctual := hp _ (List.mem_cons_self ..)
    have ht : t ≤ due := by simpa [Record.isPunctual, hs, hdue] using hpunctual
    exact Nat.max_le.2 ⟨hle, ht⟩
  · rw [(hrun.deals draw e).now_eq fun t ht => he ⟨t, ht⟩]
    exact hle

theorem Lodges.eq_unborn (h : Lodges history c id) (ha : acquired history id = []) :
    log history id = [] ∧ c.sessions.get? id = none := by
  obtain ⟨sub, -, hstands⟩ := h.stands
  rw [ha] at hstands
  exact ⟨hstands.eq_unborn.1, hstands.eq_unborn.2.2⟩

theorem Shakes.stays (h : Shakes settings history c id) (hrun : Run settings now history c)
    (hs : Stays draw c e id) :
    Shakes settings (⟨c, draw, e⟩ :: history) (step draw c e).1 id := by
  have hwaits := waitsUntil?_same settings history hs.acquires
  have hlog : ∀ d, d ∉ log history id → d ∉ log (⟨c, draw, e⟩ :: history) id := fun d hd => by
    rwa [log_same hs.deeds]
  cases h with
  | apart ha hstage =>
    refine .apart ((acquired_same hs.acquires).trans ha) ?_
    rwa [hs.calls]
  | waits s session hstage hsession hphase hcancelled hverdicts hpunctual hgreet =>
    obtain ⟨session', hafter, hphase', hcancel, -⟩ := hs.session_of_some hsession
    refine .waits s session' ?_ hafter (hphase' ▸ hphase) (fun hc => ?_)
      ((verdicts_same hs.verdict).trans hverdicts) (fun hp due hdue => ?_) (hlog _ hgreet)
    · rw [hs.calls, hwaits]
      exact hstage
    · rcases hcancel hc with hc | rfl
      · exact (hcancelled hc).cons
      · refine ⟨[], history, c, draw, rfl, fun hnone => ?_⟩
        cases ((hrun.life id).eq_unborn hnone).2.symm.trans hsession
    · rw [hwaits] at hdue
      exact now_le_of_punctual hrun hp hstage hdue (hpunctual hp.of_cons due hdue)
  | told s v hstage hsettles hafter =>
    refine .told s v ?_ (hsettles.stays hs) (hafter.stays hs)
    rw [hs.calls, hwaits]
    exact hstage
  | returned s v hnone haimed hfinish hsettles hafter =>
    exact .returned s v (hs.calls.trans hnone) haimed.cons (mem_trail_cons hfinish)
      (hsettles.stays hs) (hafter.stays hs)
  | expired s d t hnone haimed hd hjoined hdue hfinish hcancelled hverdicts hgreet =>
    refine .expired s d t (hs.calls.trans hnone) haimed.cons hd
      ((joinedAt?_same hs.acquires).trans hjoined)
      (hdue.trans ((hrun.deals draw e).now_le rfl)) (mem_trail_cons hfinish) (fun s' hs' => ?_)
      (by rwa [verdicts_same hs.verdict]) (hlog _ hgreet)
    cases hbefore : c.sessions.get? id with
    | none => cases (hs.session_of_none hbefore).symm.trans hs'
    | some session =>
      obtain ⟨session', hafter, -, -, hkept⟩ := hs.session_of_some hbefore
      obtain rfl := Option.some.inj (hafter.symm.trans hs')
      exact hkept (hcancelled session hbefore)
  | abandoned hnone hr hunfinished =>
    obtain ⟨r, hr, hevent⟩ := hr
    refine .abandoned (hs.calls.trans hnone) ⟨r, List.mem_cons_of_mem _ hr, hevent⟩ fun r hr => ?_
    exact (List.mem_append.1 hr).elim (hunfinished r) (hs.finish r)

theorem Shakes.of_told (h : Shakes settings history c id) {s : Subscription}
    {v : Except Fault Unit} {due : Option Nat}
    (hs : c.calls.get? id = some (.greeting s (some v) due)) :
    Settles settings history id v ∧ Remains history c id v := by
  cases h with
  | told s' v' hcall hsettles hremains =>
    obtain ⟨-, rfl, -⟩ : s = s' ∧ v = v' ∧ due = _ := by simpa using hs.symm.trans hcall
    exact ⟨hsettles, hremains⟩
  | apart _ hstage => exact absurd hs (hstage _ _ _)
  | waits _ _ hcall => simp [hs] at hcall
  | returned _ _ hcall => simp [hs] at hcall
  | expired _ _ _ hcall => simp [hs] at hcall
  | abandoned hcall => simp [hs] at hcall

theorem Shakes.of_waiting (h : Shakes settings history c id) {s : Subscription} {due : Option Nat}
    (hs : c.calls.get? id = some (.greeting s none due)) :
    due = waitsUntil? settings history id ∧ verdicts history id = [] ∧
      (Punctual history id → ∀ t, due = some t → c.now ≤ t) ∧
      .act (.greet (.ok ())) ∉ log history id := by
  cases h with
  | waits s' session hcall _ _ _ hverdicts hpunctual hgreet =>
    obtain ⟨-, rfl⟩ : s = s' ∧ due = waitsUntil? settings history id := by
      simpa using hs.symm.trans hcall
    exact ⟨rfl, hverdicts, hpunctual, hgreet⟩
  | apart _ hstage => exact absurd hs (hstage _ _ _)
  | told _ _ hcall => simp [hs] at hcall
  | returned _ _ hcall => simp [hs] at hcall
  | expired _ _ _ hcall => simp [hs] at hcall
  | abandoned hcall => simp [hs] at hcall

theorem exists_joined {due : Nat} {d : Span} (h : waitsUntil? settings history id = some due)
    (hd : settings.handshakeTimeout = some d) :
    ∃ t, joinedAt? history id = some t ∧ due = t + d.ceilMillis := by
  obtain ⟨t, hjoined, hdue⟩ := Option.bind_eq_some_iff.1 h
  rw [hd] at hdue
  exact ⟨t, hjoined, (Option.some.inj hdue).symm⟩

theorem Remains.turn {v : Except Fault Unit} (h : Remains history c id v) (draw : Nat)
    {stimulus : Session.Stimulus} {s : Session} (hturn : e.turn? = some (id, stimulus))
    (hs : c.sessions.get? id = some s) : c.verdict? id e = none ∧
      Remains (⟨c, draw, e⟩ :: history) (step draw c e).1 id v := by
  have hturned := turned_step draw hturn hs
  cases v with
  | error f =>
    have hnone := h.1
    rw [hs] at hnone
    cases hnone
  | ok u =>
    have hphase := h s hs
    refine ⟨(verdict?_of_turn hturn hs).trans (Session.verdict?_of_streaming hphase _), ?_⟩
    intro s' hs'
    rw [hturned.sessions, if_pos rfl] at hs'
    exact Session.streaming_of_next hphase hs'

theorem Shakes.turn (h : Shakes settings history c id) (hrun : Run settings now history c)
    {stimulus : Session.Stimulus} {s : Session} (hturn : e.turn? = some (id, stimulus))
    (hs : c.sessions.get? id = some s) :
    Shakes settings (⟨c, draw, e⟩ :: history) (step draw c e).1 id := by
  have hturned := turned_step draw hturn hs
  have hacquires : acquires c (step draw c e).1 id = [] := acquires_of_some hs
  have hwaits := waitsUntil?_same settings history hacquires
  have hdeeds := (deeds_of_turn hturn hs).1
  have hverdict := verdict?_of_turn hturn hs
  have hlog : log (⟨c, draw, e⟩ :: history) id =
      log history id ++ s.deeds (c.isHeard id) stimulus := by rw [log, hdeeds]
  have hself : (step draw c e).1.sessions.get? id = (s.turn (c.isHeard id) stimulus).next? := by
    rw [hturned.sessions, if_pos rfl]
  have hstage := stage_step draw hturn hs
  have hnone (hcall : c.calls.get? id = none) : (step draw c e).1.calls.get? id = none := by
    rw [hstage, hcall]
    rfl
  have hunchanged : (step draw c e).1.now = c.now := by
    refine (hrun.deals draw e).now_eq fun t ht => ?_
    subst ht
    cases hturn
  cases h with
  | apart ha _ =>
    have hone := (hrun.life id).toLodges.acquired_eq hs
    rw [ha] at hone
    cases hone
  | waits sub session hcall hsession hphase hcancelled hverdicts hpunctual hgreet =>
    obtain rfl := Option.some.inj (hs.symm.trans hsession)
    have hheard : c.isHeard id = true := by rw [isHeard, hcall]
    rw [hheard] at hlog hself hstage
    have htold (v : Option (Except Fault Unit))
        (hv : (s.deeds true stimulus).findSome? Deed.tells? = v) :
        (step draw c e).1.calls.get? id =
          some (.greeting sub v (waitsUntil? settings (⟨c, draw, e⟩ :: history) id)) := by
      rw [hstage, hcall, hwaits, hv]
      cases v <;> rfl
    have hunaccepted (hd : .act (.greet (.ok ())) ∉ s.deeds true stimulus) :
        .act (.greet (.ok ())) ∉ log (⟨c, draw, e⟩ :: history) id := by
      rw [hlog]
      exact fun hmem => (List.mem_append.1 hmem).elim hgreet hd
    have hsettles {v : Except Fault Unit} (hv : s.verdict? stimulus = some v) :
        Settles settings (⟨c, draw, e⟩ :: history) id v := by
      refine .inl ⟨c.now, ?_, fun hp due hdue => ?_⟩
      · rw [verdicts_cons, hverdict, hv, hverdicts]
        rfl
      · exact hpunctual hp.of_cons due (hwaits ▸ hdue)
    have hanswers := Session.answers hphase stimulus
    generalize hdeeds' : s.deeds true stimulus = deeds at hanswers
    generalize hnext : (s.turn true stimulus).next? = next at hanswers
    rw [hdeeds'] at htold hunaccepted
    rw [hnext] at hself
    cases hanswers with
    | pending hc hv hc' hphase' htells hgreet' =>
      refine .waits sub _ (htold none htells) hself hphase' (fun hc'' => ?_) ?_
        (fun hp due hdue => ?_) (hunaccepted hgreet')
      · rw [hc'] at hc''
        cases hc''
      · exact (verdicts_same (hverdict.trans hv)).trans hverdicts
      · rw [hunchanged]
        exact hpunctual hp.of_cons due (hwaits ▸ hdue)
    | accepted hc hv htells =>
      refine .told sub (.ok ()) (htold _ htells) (hsettles hv) fun session hsession' => ?_
      obtain rfl := Option.some.inj (hself.symm.trans hsession')
      rfl
    | rejected hc hv htells hgreet' =>
      exact .told sub _ (htold _ htells) (hsettles hv) ⟨hself, hunaccepted hgreet'⟩
    | cancelled hc htells hgreet' =>
      exact .told sub _ (htold _ htells) (.inr ⟨rfl, (hcancelled hc).cons⟩)
        ⟨hself, hunaccepted hgreet'⟩
  | told sub v hcall hsettles hafter =>
    obtain ⟨hv, hafter'⟩ := hafter.turn draw hturn hs
    refine .told sub v ?_ (hsettles.same hv hacquires) hafter'
    rw [hstage, hcall, hwaits]
    rfl
  | returned sub v hcall haimed hfinish hsettles hafter =>
    obtain ⟨hv, hafter'⟩ := hafter.turn draw hturn hs
    exact .returned sub v (hnone hcall) haimed.cons (mem_trail_cons hfinish)
      (hsettles.same hv hacquires) hafter'
  | expired sub d t hcall haimed hd hjoined hdue hfinish hcancelled hverdicts hgreet =>
    have hc := hcancelled s hs
    refine .expired sub d t (hnone hcall) haimed.cons hd
      ((joinedAt?_same hacquires).trans hjoined) (hunchanged ▸ hdue) (mem_trail_cons hfinish)
      (fun s' hs' => ?_) (fun x hx => ?_) ?_
    · rw [hself, (Session.turn_of_cancelled _ _ hc).1] at hs'
      cases hs'
    · rw [verdicts_cons] at hx
      rcases List.mem_append.1 hx with hx | hx
      · obtain ⟨v, -, rfl⟩ := Option.map_eq_some_iff.1 (Option.mem_toList.1 hx)
        exact hdue
      · exact hverdicts x hx
    · rw [hlog]
      exact fun hmem => (List.mem_append.1 hmem).elim hgreet
        (Session.greet_notMem_of_cancelled _ _ hc _)
  | abandoned hcall hr hunfinished =>
    obtain ⟨r, hr, hevent⟩ := hr
    refine .abandoned (hnone hcall) ⟨r, List.mem_cons_of_mem _ hr, hevent⟩ fun r hr => ?_
    exact (List.mem_append.1 hr).elim (hunfinished r) (hturned.finish id r)

theorem Shakes.comes (hrun : Run settings now history c) (hp : Possible history c e)
    (hturn : e.turn? = none) {a : Aim} (ha : Aims c e id a)
    (hcomes : Comes a e id c (step draw c e)) :
    Shakes settings (⟨c, draw, e⟩ :: history) (step draw c e).1 id := by
  have hnew := ((hrun.life id).begins draw hp ha).1
  obtain ⟨hempty, hunborn⟩ := (hrun.life id).eq_unborn hnew
  have hapart (hsessions : (step draw c e).1.sessions.get? id = c.sessions.get? id)
      (hstage : ∀ s v due, (step draw c e).1.calls.get? id ≠ some (.greeting s v due)) :
      Shakes settings (⟨c, draw, e⟩ :: history) (step draw c e).1 id :=
    .apart ((acquired_same (acquires_of_same hsessions)).trans hnew) hstage
  cases hcomes with
  | waits stage hstage _ hrests _ hsessions _ =>
    refine hapart hsessions fun s v due hs => hrests ?_
    obtain rfl := Option.some.inj (hstage.symm.trans hs)
    trivial
  | returns r hstage hsessions _ _ _ => exact hapart hsessions (by simp [hstage])
  | launches s address conn due _ _ hsession _ _ _ _ =>
    obtain ⟨hc, hphase, hcall⟩ := (hrun.deals draw e).launched hunborn hsession
    have hacquires : acquires c (step draw c e).1 id ≠ [] := by simp [acquires, hunborn, hsession]
    have hjoined : joinedAt? (⟨c, draw, e⟩ :: history) id = some c.now := by
      rw [joinedAt?, Record.move, if_neg hacquires]
    have hwaits : waitsUntil? settings (⟨c, draw, e⟩ :: history) id =
        settings.handshakeTimeout.map fun d => c.now + d.ceilMillis := by
      rw [waitsUntil?, hjoined]
      rfl
    have hlog : log (⟨c, draw, e⟩ :: history) id = [] :=
      (log_same (deeds_of_aside hturn).1).trans hempty
    refine .waits s _ ?_ hsession (by simp) (by simp) ?_ (fun hp' due' hdue => ?_) (by simp [hlog])
    · rw [hwaits, ← hrun.settings_eq]
      exact hcall
    · exact (verdicts_same (verdict?_of_aside hturn)).trans (hrun.verdicts_of_unborn hnew)
    · -- the time that is granted begins now
      have hsame : (step draw c e).1.now ≤ c.now := by
        by_cases he : ∃ t, e = .tick t
        · obtain ⟨t, rfl⟩ := he
          rcases ha with ⟨stage, hs, -, hrests⟩ | ⟨op, hop, -⟩
          · rw [step, tick] at hsession
            cases hunborn.symm.trans hsession
          · cases hop
        · exact ((hrun.deals draw e).now_eq fun t ht => he ⟨t, ht⟩).le
      rw [hwaits] at hdue
      obtain ⟨d, -, rfl⟩ := Option.map_eq_some_iff.1 hdue
      exact hsame.trans (Nat.le_add_right ..)

theorem Shakes.aside (h : Shakes settings history c id) (hrun : Run settings now history c)
    (hp : Possible history c e) (hturn : e.turn? = none) (haside : Aside e c (step draw c e)) :
    Shakes settings (⟨c, draw, e⟩ :: history) (step draw c e).1 id := by
  have hdeeds : c.deeds id e = [] := (deeds_of_aside hturn).1
  have hverdict : c.verdict? id e = none := verdict?_of_aside hturn
  cases haside.passes id with
  | still hcalls hsessions hfinish =>
    exact h.stays hrun ⟨hcalls, hfinish, hdeeds, hverdict, acquires_of_same hsessions,
      .inl hsessions⟩
  | comes a haims hcomes => exact Shakes.comes hrun hp hturn haims hcomes
  | told s v due hs hm =>
    have hsessions : (step draw c e).1.sessions.get? id = c.sessions.get? id := by
      rw [hm]
      rfl
    have hacquires := acquires_of_same hsessions
    have haimed : Aimed history id (.subscribing s) := (hrun.life id).aim _ hs
    have hfinish : .finish id (s.reply v) ∈ trail (⟨c, draw, e⟩ :: history) := by
      refine List.mem_append_right _ ?_
      rw [Record.move, hm]
      cases v <;> exact List.mem_singleton_self _
    have hnone : (step draw c e).1.calls.get? id = none := by
      rw [hm]
      simp [greeted]
    obtain ⟨hsettles, hafter⟩ := h.of_told hs
    refine .returned s v hnone haimed.cons hfinish (hsettles.same hverdict hacquires) ?_
    cases v with
    | ok u => exact fun session hsession => hafter session (hsessions ▸ hsession)
    | error f => exact ⟨hsessions.trans hafter.1, by rw [log_same hdeeds]; exact hafter.2⟩
  | expelled s due d he hs hd hdue hm =>
    have haimed : Aimed history id (.subscribing s) := (hrun.life id).aim _ hs
    have hsessions : (step draw c e).1.sessions.get? id = (c.unsubscribe id).1.sessions.get? id := by
      rw [hm]
      rfl
    have hacquires : acquires c (step draw c e).1 id = [] := by
      rw [hm]
      exact acquires_unsubscribe c id
    have hfinish : .finish id (s.reply (.error (noHandshake d))) ∈
        trail (⟨c, draw, e⟩ :: history) := by
      refine List.mem_append_right _ ?_
      rw [Record.move, hm]
      exact List.mem_append_right _ (List.mem_singleton_self _)
    have hnone : (step draw c e).1.calls.get? id = none := by
      rw [hm]
      simp [expel, Move.after, greeted]
    have hd' : settings.handshakeTimeout = some d := hrun.settings_eq ▸ hd
    obtain ⟨hwaits, hverdicts, -, hgreet⟩ := h.of_waiting hs
    obtain ⟨t, hjoined, rfl⟩ := exists_joined hwaits.symm hd'
    refine .expired s d t hnone haimed.cons hd' ((joinedAt?_same hacquires).trans hjoined)
      (hdue.trans ((hrun.deals draw e).now_le rfl)) hfinish (fun s' hs' => ?_) ?_
      (by rwa [log_same hdeeds])
    · exact cancelled_of_unsubscribe (hsessions ▸ hs')
    · rw [verdicts_same hverdict, hverdicts]
      simp
  | quits he hm =>
    subst he
    exact h.stays hrun (stays_unsubscribe draw c id)
  | abandoned he hm =>
    have hnone : (step draw c e).1.calls.get? id = none := by rw [hm, calls_abandon]
    have hsessions : (step draw c e).1.sessions.get? id = c.sessions.get? id := by
      rw [hm, sessions_abandon]
    have hfinish : ∀ r, .finish id r ∉ (step draw c e).2 := by
      rw [hm]
      exact (plain_abandon c id).2 id
    -- a call that has returned cannot be given up any more
    cases hs : c.calls.get? id with
    | none =>
      exact h.stays hrun ⟨hnone.trans hs.symm, hfinish, hdeeds, hverdict,
        acquires_of_same hsessions, .inl hsessions⟩
    | some stage =>
      refine .abandoned hnone ⟨_, List.mem_cons_self .., he⟩ fun r hr => ?_
      exact (List.mem_append.1 hr).elim ((hrun.life id).unfinished hs r) (hfinish r)

theorem Run.shakes (h : Run settings now history c) (id : CallId) :
    Shakes settings history c id := by
  induction h with
  | fresh => exact .apart rfl fun _ _ _ hs => by cases hs
  | @next history c e draw hrun hp ih =>
    cases meets draw hrun.keeps.coherent hrun.pooled e id with
    | elsewhere hskips hcalls hfinish => exact ih.stays hrun (hskips.stays hcalls hfinish)
    | turn stimulus s hturn hs => exact ih.turn hrun hturn hs
    | aside hturn haside => exact ih.aside hrun hp hturn haside

theorem fault?_ofHandshake (stream : String) (partition : Int32) (f : Fault) :
    (CallError.ofHandshake stream partition f).fault? = some f := by
  unfold CallError.ofHandshake
  split <;> rfl

theorem Run.replies (h : Run settings now history c) (draw : Nat) (hp : Possible history c e)
    (hheard : c.isHeard id = true) {r : Except CallError Outcome}
    (hr : .finish id r ∈ (step draw c e).2) :
    (∃ s v due, c.calls.get? id = some (.greeting s (some v) due) ∧ r = s.reply v) ∨
      ∃ s due d, e = .lapse id ∧ c.calls.get? id = some (.greeting s none (some due)) ∧
        settings.handshakeTimeout = some d ∧ due ≤ c.now ∧ r = s.reply (.error (noHandshake d)) := by
  obtain ⟨s, v, due, hs⟩ : ∃ s v due, c.calls.get? id = some (.greeting s v due) := by
    unfold isHeard at hheard
    split at hheard
    · exact ⟨_, _, _, ‹_›⟩
    · cases hheard
  cases meets draw h.keeps.coherent h.pooled e id with
  | elsewhere _ _ hnone => exact absurd hr (hnone r)
  | turn stimulus session hturn hsession =>
    exact absurd hr ((turned_step draw hturn hsession).finish id r)
  | aside hturn haside =>
    cases haside.passes id with
    | still _ _ hnone => exact absurd hr (hnone r)
    | comes a haims _ =>
      rcases haims with ⟨stage, hstage, -, hrests⟩ | ⟨op, rfl, -⟩
      · obtain rfl := Option.some.inj (hs.symm.trans hstage)
        exact absurd trivial hrests
      · cases hs.symm.trans (h.keeps.admits hp).1
    | told s' v' due' hs' hm =>
      rw [hm] at hr
      refine .inl ⟨s', v', due', hs', ?_⟩
      obtain ⟨-, hreply⟩ := Effect.finish.inj (List.mem_singleton.1 hr)
      rw [hreply]
      cases v' <;> rfl
    | expelled s' due' d he hs' hd hdue hm =>
      rw [hm] at hr
      refine .inr ⟨s', due', d, he, hs', h.settings_eq ▸ hd, hdue, ?_⟩
      rcases List.mem_append.1 hr with hr | hr
      · exact absurd hr ((plain_unsubscribe c id).2 id r)
      · exact (Effect.finish.inj (List.mem_singleton.1 hr)).2
    | quits he hm =>
      rw [hm] at hr
      exact absurd hr ((plain_unsubscribe c id).2 id r)
    | abandoned he hm =>
      rw [hm] at hr
      exact absurd hr ((plain_abandon c id).2 id r)

end Verdicts

end Client
end StreamClient
