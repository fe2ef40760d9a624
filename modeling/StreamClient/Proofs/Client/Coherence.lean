import StreamClient.Proofs.Client.Turns

/-! The invariant of a client, and what one event can do to it. -/

namespace StreamClient.Client

/-- Stages, jobs on the link and sessions go together, and the build of a client runs alone. -/
structure Coherent (c : Client) : Prop where
  sound : c.link.Sound
  fits : ∀ id, Fits (c.calls.get? id) (c.link.jobs.get? id)
  rests : ∀ id, (c.sessions.get? id).isSome → Rests (c.calls.get? id)
  building : ∀ id rest, c.calls.get? id = some (.probing rest) →
    c.link.cached = none ∧ (∀ k, k ≠ id → c.calls.get? k = none) ∧ ∀ k, c.sessions.get? k = none

/-- The client was closed, and its cached connection was taken by this. -/
def IsShut (c : Client) : Prop := c.closed = true ∧ ∀ k, c.calls.get? k ≠ some .closing

def news : Event → List Conn
  | .dialed _ (.ok conn) => [conn]
  | _ => []

/-- The connection that an event brings to the link; others go to a session. -/
def gain? (c : Client) : Event → Option Conn
  | .dialed id (.ok conn) =>
    match c.calls.get? id with
    | some (.joining ..) => none
    | _ => some conn
  | _ => none

def failing? (c : Client) : Event → Option Conn
  | .answered (.caller id) r =>
    match c.link.jobs.get? id with
    | some (.calling _ conn) => if Link.unreached r then some conn else none
    | _ => none
  | _ => none

def isDialing (c : Client) (id : CallId) : Bool :=
  match c.calls.get? id with
  | some (.probing _) | some (.joining ..) => true
  | some (.linking ..) =>
    match c.link.jobs.get? id with
    | some (.dialing _) => true
    | _ => false
  | _ => false

theorem dialing_of_isDialing {c : Client} {id : CallId} {goal : Goal} {due : Option Nat}
    (hs : c.calls.get? id = some (.linking goal due)) (h : c.isDialing id = true) :
    ∃ e, c.link.jobs.get? id = some (.dialing e) := by
  simp only [isDialing, hs] at h
  split at h
  · next e hj => exact ⟨e, hj⟩
  · cases h

/-- Why the link changes as it does in an event. -/
structure Explains (c : Client) (e : Event) (c' : Client) (cause : Link.Cause) : Prop where
  dialed : ∀ d, c.gain? e = some d ↔ cause = .dialed d
  failed : ∀ d, c.failing? e = some d ↔ cause = .failed d
  gone : cause = .gone → ∃ id, e = .abandon id ∧ (c'.IsShut → c.closed = true)
  shut : cause = .shut → ¬ c.IsShut
  stays : c.IsShut → c'.IsShut
  turns : c'.IsShut → c.IsShut ∨ cause = .shut ∨ cause = .gone

structure Steps (c : Client) (e : Event) (m : Move) : Prop where
  coherent : m.1.Coherent
  ledger : ∀ x, m.1.total x + (closes m.2).count x = c.total x + (news e).count x
  dropped : ∀ x, c.link.cached = some x → m.1.link.cached = some x ∨ x ∈ closes m.2
  grounded : ∀ who conn q, .call who conn q ∈ m.2 → 0 < m.1.total conn
  known : ∀ k, (m.1.calls.get? k).isSome ∨ (m.1.sessions.get? k).isSome →
    (c.calls.get? k).isSome ∨ (c.sessions.get? k).isSome ∨ ∃ op, e = .start k op
  link : ∃ id cause, c.link.Evolves cause id m.1.link ∧ Explains c e m.1 cause

theorem Coherent.parked {c : Client} (h : c.Coherent) {id : CallId}
    (hr : Rests (c.calls.get? id)) : c.Parked id := by
  refine ⟨h.sound, ?_, hr⟩
  have hf := h.fits id
  rcases hc : c.calls.get? id with _ | (_ | _ | _ | _ | _ | _ | _)
  all_goals rw [hc] at hf hr
  all_goals first
    | exact hr.elim
    | exact hf

/-- The build runs alone, so an event of another call or session finds none under way. -/
theorem Coherent.not_probing {c : Client} (h : c.Coherent) {id k : CallId} {rest : List Address}
    (hk : k ≠ id) (hid : (c.calls.get? id).isSome ∨ (c.sessions.get? id).isSome) :
    c.calls.get? k ≠ some (.probing rest) := by
  intro hp
  obtain ⟨-, hcalls, hsessions⟩ := h.building k rest hp
  rw [hcalls id (Ne.symm hk), hsessions id] at hid
  simp at hid

theorem Acts.coherent {kind : Kind} {cause : Link.Cause} {id : CallId} {c : Client}
    {news : List Conn} {m : Move} (h : Acts kind cause id c news m) (hc : c.Coherent)
    (hb : ∀ k rest, k ≠ id → c.calls.get? k ≠ some (.probing rest))
    (hself : ∀ rest, m.1.calls.get? id = some (.probing rest) → m.1.link.cached = none ∧
      (∀ k, k ≠ id → m.1.calls.get? k = none) ∧ ∀ k, m.1.sessions.get? k = none) :
    m.1.Coherent where
  sound := h.sound
  fits k := by
    by_cases hk : k = id
    · exact hk ▸ h.fits
    · rw [h.calls k hk, h.link.others k hk]
      exact hc.fits k
  rests k hs := by
    by_cases hk : k = id
    · subst hk
      exact h.rests hs
    · rw [h.calls k hk]
      exact hc.rests k (h.sessions k hk ▸ hs)
  building k rest hp := by
    by_cases hk : k = id
    · subst hk
      exact hself rest hp
    · exact absurd ((h.calls k hk).symm.trans hp) (hb k rest hk)

theorem Acts.known {kind : Kind} {cause : Link.Cause} {id : CallId} {c : Client}
    {news : List Conn} {m : Move} {e : Event} (h : Acts kind cause id c news m)
    (hid : (c.calls.get? id).isSome ∨ (c.sessions.get? id).isSome ∨ ∃ op, e = .start id op) (k : CallId)
    (hk : (m.1.calls.get? k).isSome ∨ (m.1.sessions.get? k).isSome) :
    (c.calls.get? k).isSome ∨ (c.sessions.get? k).isSome ∨ ∃ op, e = .start k op := by
  by_cases hki : k = id
  · exact hki ▸ hid
  · rw [h.calls k hki, h.sessions k hki] at hk
    exact hk.imp_right .inl

theorem Acts.isShut_iff {kind : Kind} {cause : Link.Cause} {id : CallId} {c : Client}
    {news : List Conn} {m : Move} (h : Acts kind cause id c news m)
    (hc : c.calls.get? id ≠ some .closing) (hm : m.1.calls.get? id ≠ some .closing) :
    m.1.IsShut ↔ c.IsShut := by
  refine and_congr (by rw [h.closed]) (forall_congr' fun k => ?_)
  by_cases hk : k = id
  · subst hk
    exact iff_of_true hm hc
  · rw [h.calls k hk]

theorem Acts.steps {kind : Kind} {cause : Link.Cause} {id : CallId} {c : Client} {m : Move}
    {e : Event} (h : Acts kind cause id c (news e) m) (hc : c.Coherent)
    (hid : (c.calls.get? id).isSome ∨ (c.sessions.get? id).isSome ∨ ∃ op, e = .start id op)
    (hb : ∀ k rest, k ≠ id → c.calls.get? k ≠ some (.probing rest))
    (hself : ∀ rest, m.1.calls.get? id = some (.probing rest) → m.1.link.cached = none ∧
      (∀ k, k ≠ id → m.1.calls.get? k = none) ∧ ∀ k, m.1.sessions.get? k = none)
    (hclosing : c.calls.get? id ≠ some .closing) (hclosing' : m.1.calls.get? id ≠ some .closing)
    (hdialed : ∀ d, c.gain? e = some d ↔ cause = .dialed d)
    (hfailed : ∀ d, c.failing? e = some d ↔ cause = .failed d) (hshut : cause ≠ .shut)
    (hgone : cause ≠ .gone) : Steps c e m where
  coherent := h.coherent hc hb hself
  ledger := h.ledger
  dropped := h.dropped
  grounded := h.grounded
  known := h.known hid
  link := ⟨id, cause, h.link, {
    dialed := hdialed
    failed := hfailed
    gone := fun hg => absurd hg hgone
    shut := fun hs => absurd hs hshut
    stays := (h.isShut_iff hclosing hclosing').2
    turns := fun hs => .inl ((h.isShut_iff hclosing hclosing').1 hs) }⟩

theorem Acts.steps_quiet {id : CallId} {c : Client} {m : Move} {e : Event}
    (h : Acts .ordinary .quiet id c [] m) (hc : c.Coherent)
    (hid : (c.calls.get? id).isSome ∨ (c.sessions.get? id).isSome)
    (hclosing : c.calls.get? id ≠ some .closing) (hnews : news e = []) (hgain : c.gain? e = none)
    (hfailing : c.failing? e = none) : Steps c e m := by
  rw [← hnews] at h
  refine h.steps hc (hid.imp_right .inl) (fun k rest hk => hc.not_probing hk hid)
    (fun rest hp => absurd hp (h.stage.2 rest)) hclosing h.stage.1 (fun d => ?_) (fun d => ?_)
    (by simp) (by simp)
  · simp [hgain]
  · simp [hfailing]

theorem explains_quiet {c c' : Client} {e : Event} (hgain : c.gain? e = none)
    (hfailing : c.failing? e = none) (hshut : c'.IsShut ↔ c.IsShut) : Explains c e c' .quiet where
  dialed d := by simp [hgain]
  failed d := by simp [hfailing]
  gone hg := by cases hg
  shut hs := by cases hs
  stays := hshut.2
  turns hs := .inl (hshut.1 hs)

theorem steps_stay {c : Client} {e : Event} (hc : c.Coherent) (hnews : news e = [])
    (hgain : c.gain? e = none) (hfailing : c.failing? e = none) : Steps c e c.stay where
  coherent := hc
  ledger x := by rw [hnews]; rfl
  dropped _ hx := .inl hx
  grounded who conn q hq := by simp [stay] at hq
  known k hk := hk.imp_right .inl
  link := ⟨0, .quiet, .refl 0 c.link, explains_quiet hgain hfailing .rfl⟩

end StreamClient.Client
