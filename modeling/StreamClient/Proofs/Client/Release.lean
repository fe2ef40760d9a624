import StreamClient.Proofs.Client.Feeds
import StreamClient.Proofs.Client.Places

/-! The connection of a session: it was taken from a pool, or dialed for it, and goes back to that
pool once, after its stream was closed and before the subscriber hears of the end. -/

namespace StreamClient.Client

open Session (Deed Stands)

/-- A session that did `log` is over: its stream was closed, then its connection was given back,
then the subscriber was told, and last it counted as terminated. -/
def Concluded (log : List Deed) (address : Address) (conn : Conn) : Prop :=
  ∃ before report, log = before ++ .release address conn ::
      (Option.toList report).map .report ++ [.terminated] ∧
    Session.streamOpen before = false ∧ ∀ d ∈ before, d.isLast = false

def OpenOn (history : History) (id : CallId) (x : Conn) : Prop :=
  Session.streamOpen (log history id) = true ∧ ∃ address, (address, x) ∈ acquired history id

/-- What becomes of the connections that subscribe calls get for their sessions. -/
structure GivesBack (sent : CallId → List Signal) (history : History) (c : Client) : Prop where
  single : ∀ id, (acquired history id).length ≤ 1
  gains : ∀ id, ∀ r ∈ history, ∀ address x, (address, x) ∈ acquires r.before r.move.1 id →
    ∃ s, Gains r.before r.event id s address x
  home : ∀ id s, c.sessions.get? id = some s →
    acquired history id = [(s.pool, s.conn)] ∧ ∃ p, c.pools.get? s.pool = some p
  performs : ∀ r ∈ history, ∀ id stimulus s, r.event.turn? = some (id, stimulus) →
    r.before.sessions.get? id = some s →
      r.move = (r.before.afterTurn id (s.turn (r.before.isHeard id) stimulus)).performAll id s.conn
        (r.before.deeds id r.event)
  shown : ∀ id, shown (trail history) id = (log history id).filter Deed.isShown
  /-- A connection is given back once, to the pool it came from, and when the session ends. -/
  releases : ∀ id, Session.releases (log history id) =
    if c.isRunning id then [] else acquired history id
  running : ∀ id, c.isRunning id = true → ∀ d ∈ log history id, d.isLast = false
  concluded : ∀ id, c.isRunning id = false → ∀ address x, (address, x) ∈ acquired history id →
    Concluded (log history id) address x
  terminated : ∀ id, .terminated id ∈ trail history ↔
    acquired history id ≠ [] ∧ c.isRunning id = false
  last : ∀ id later earlier, history = later ++ earlier → .terminated id ∈ trail earlier →
    log history id = log earlier id
  /-- A connection with an open stream is nowhere else, and has no other open stream. -/
  alone : ∀ id x, OpenOn history id x → (∀ p, p ≠ .held id → tally history c x p = 0) ∧
    ∀ id', OpenOn history id' x → id' = id
  settled : Settled sent history c → ∀ id, Unsubscribed history id ∨
      (.opened ∈ log history id ∧ ∃ signal ∈ sent id, signal.isStop = true) →
    .terminated id ∈ trail history

section Release

variable {settings : Settings} {now : Nat} {sent : CallId → List Signal} {history : History}
  {c : Client} {e : Event} {id : CallId}

theorem isRunning_eq_false : c.isRunning id = false ↔ c.sessions.get? id = none := by
  simp [isRunning, Table.contains]

theorem isRunning_eq_true : c.isRunning id = true ↔ ∃ s, c.sessions.get? id = some s := by
  simp [isRunning, Table.contains, Option.isSome_iff_exists]

theorem gains_of_acquires (draw : Nat) (hc : c.Coherent) (hpooled : c.Pooled) {address : Address}
    {x : Conn} (ha : (address, x) ∈ acquires c (step draw c e).1 id) :
    ∃ s, Gains c e id s address x := by
  have hsame (hs : (step draw c e).1.sessions.get? id = c.sessions.get? id) :
      ∃ s, Gains c e id s address x := by
    rw [acquires_of_same hs] at ha
    cases ha
  cases meets draw hc hpooled e id with
  | elsewhere hskips _ _ => exact hsame hskips.sessions
  | turn stimulus s hturn hs =>
    rw [acquires_of_some hs] at ha
    cases ha
  | aside hturn haside =>
    cases haside.passes id with
    | still _ hs _ => exact hsame hs
    | comes a haims hcomes =>
      cases hcomes with
      | waits _ _ _ _ _ hs _ => exact hsame hs
      | returns _ _ hs _ _ _ => exact hsame hs
      | launches s address' conn due _ _ hs _ _ hgains _ =>
        refine ⟨s, ?_⟩
        rw [acquires, hs] at ha
        split at ha
        · next s' _ hs' =>
          obtain rfl := Option.some.inj hs'
          obtain ⟨rfl, rfl⟩ : address = address' ∧ x = conn := by simpa using ha
          exact hgains
        · cases ha
    | told s verdict due _ hm => exact hsame (by rw [hm]; rfl)
    | expelled s due d _ _ _ _ hm =>
      have hnone := acquires_unsubscribe c id
      rw [hm] at ha
      exact absurd (hnone ▸ ha) (by simp)
    | quits _ hm =>
      rw [hm, acquires_unsubscribe] at ha
      cases ha
    | abandoned _ hm =>
      exact hsame (by rw [hm, sessions_abandon])

theorem Run.gains (h : Run settings now history c) {r : Record} (hr : r ∈ history)
    {address : Address} {x : Conn} (ha : (address, x) ∈ acquires r.before r.move.1 id) :
    ∃ s, Gains r.before r.event id s address x := by
  induction h with
  | fresh => cases hr
  | next draw hrun hp ih =>
    rcases List.mem_cons.1 hr with rfl | hr
    · exact gains_of_acquires draw hrun.keeps.coherent hrun.pooled ha
    · exact ih hr

theorem Lodges.open_held (h : Lodges history c id) {x : Conn} (ho : OpenOn history id x) :
    ∃ s, c.sessions.get? id = some s ∧ s.conn = x := by
  obtain ⟨hopen, address, ha⟩ := ho
  obtain ⟨sub, -, hstands⟩ := h.stands
  obtain ⟨s, hs, -, hacquired⟩ := hstands.streamOpen hopen
  rw [hacquired] at ha
  obtain ⟨-, rfl⟩ : address = s.pool ∧ x = s.conn := by simpa using ha
  exact ⟨s, hs, rfl⟩

theorem mem_shown_terminated {effects : List Effect} :
    .terminated ∈ shown effects id ↔ .terminated id ∈ effects := by
  refine ⟨fun h => ?_, fun h => List.mem_filterMap.2 ⟨_, h, by simp [Effect.deed?]⟩⟩
  obtain ⟨x, hx, hd⟩ := List.mem_filterMap.1 h
  unfold Effect.deed? at hd
  split at hd <;> simp at hd
  exact hd ▸ hx

theorem Lodges.terminated_iff (h : Lodges history c id) :
    .terminated id ∈ trail history ↔ acquired history id ≠ [] ∧ c.isRunning id = false := by
  have hlog : .terminated id ∈ trail history ↔ .terminated ∈ log history id := by
    rw [← mem_shown_terminated, h.shown, List.mem_filter]
    exact and_iff_left rfl
  obtain ⟨sub, -, hstands⟩ := h.stands
  rw [hlog, hstands.terminated_iff, isRunning_eq_false]

theorem Lodges.not_running (h : Lodges history c id) (hsettled : Settled sent history c)
    (hreason : (∀ s, c.sessions.get? id = some s → s.cancelled = true) ∨
      .opened ∈ log history id ∧ ∃ signal ∈ sent id, signal.isStop = true) :
    c.isRunning id = false := by
  rw [isRunning_eq_false]
  cases hs : c.sessions.get? id with
  | none => rfl
  | some s =>
    obtain ⟨hwoken, hread⟩ := hsettled id
    -- a session that waits for a turn was woken
    have hidle : ¬ (s.phase = .fresh ∨ s.cancelled = true) := fun hwaits => by
      rw [h.woken s hs hwaits] at hwoken
      cases hwoken
    rcases hreason with hcancelled | ⟨hopened, signal, hsignal, hstop⟩
    · exact absurd (.inr (hcancelled s hs)) hidle
    · obtain ⟨sub, -, hstands⟩ := h.stands
      rw [hs] at hstands
      obtain ⟨hstream, hnone⟩ := hstands.of_opened hopened
      rw [← hread s hs hstream] at hsignal
      rw [hnone signal hsignal] at hstop
      cases hstop

theorem Lodges.concluded (h : Lodges history c id) (hover : c.isRunning id = false)
    {address : Address} {x : Conn} (ha : (address, x) ∈ acquired history id) :
    Concluded (log history id) address x := by
  obtain ⟨sub, -, hstands⟩ := h.stands
  rw [isRunning_eq_false.1 hover] at hstands
  exact hstands.farewell ha

theorem Lodges.notLast (h : Lodges history c id) (hruns : c.isRunning id = true) :
    ∀ d ∈ log history id, d.isLast = false := by
  obtain ⟨s, hs⟩ := isRunning_eq_true.1 hruns
  obtain ⟨sub, -, hstands⟩ := h.stands
  rw [hs] at hstands
  exact hstands.notLast

theorem Run.over_of_terminated {later earlier : History}
    (h : Run settings now (later ++ earlier) c) (ht : .terminated id ∈ trail earlier) :
    log (later ++ earlier) id = log earlier id := by
  have hover (c' : Client) (hrun : Run settings now earlier c') :
      acquired earlier id ≠ [] ∧ c'.isRunning id = false :=
    (hrun.life id).toLodges.terminated_iff.1 ht
  obtain ⟨c', hrun⟩ := h.of_append
  have hacquired := (hover c' hrun).1
  exact (h.over_stays (fun c'' hrun' => isRunning_eq_false.1 (hover c'' hrun').2) hacquired).2

theorem Run.open_alone (h : Run settings now history c) {x : Conn} (ho : OpenOn history id x) :
    (∀ p, p ≠ .held id → tally history c x p = 0) ∧
      ∀ id', OpenOn history id' x → id' = id := by
  have hkeeps := h.keeps
  obtain ⟨s, hs, rfl⟩ := (h.life id).toLodges.open_held ho
  have hpos : 0 < tally history c s.conn (.held id) := tally_held hs
  refine ⟨fun p hp => hkeeps.tally_other hpos hp, fun id' ho' => ?_⟩
  obtain ⟨s', hs', hconn⟩ := (h.life id').toLodges.open_held ho'
  by_contra hne
  have hpos' : 0 < tally history c s'.conn (.held id') := tally_held hs'
  rw [hconn, hkeeps.tally_other hpos (fun heq => hne (Place.held.inj heq))] at hpos'
  exact absurd hpos' (Nat.lt_irrefl 0)

theorem Fed.terminated_of_settled (h : Fed settings now sent history c)
    (hsettled : Settled sent history c) (hends : Unsubscribed history id ∨
      (.opened ∈ log history id ∧ ∃ signal ∈ sent id, signal.isStop = true)) :
    .terminated id ∈ trail history := by
  have hrun := h.run
  have hlodges : Lodges history c id := (hrun.life id).toLodges
  rw [hlodges.terminated_iff]
  rcases hends with ⟨later, earlier, b, d, rfl, ha⟩ | hstopped
  · have hnow := acquired_append (later ++ [⟨b, d, .unsubscribe id⟩]) earlier ha
    rw [List.append_assoc, List.singleton_append] at hnow
    exact ⟨hnow, hlodges.not_running hsettled (.inl (hrun.silent_since ha).1)⟩
  · refine ⟨fun hnone => ?_, hlodges.not_running hsettled (.inr hstopped)⟩
    obtain ⟨sub, -, hstands⟩ := hlodges.stands
    rw [hnone] at hstands
    rw [hstands.eq_unborn.1] at hstopped
    exact absurd hstopped.1 (by simp)

/-- After any run of a client whose streams yield what they may, each session gave its connection
back at most once, to the pool it came from, and exactly once if it is over. The dialer keeps to
`Fresh`, and `keepAlive` is within the range of the timer queue. -/
theorem Fed.gives_back_once (h : Fed settings now sent history c) : GivesBack sent history c := by
  have hrun := h.run
  have hlodges (id : CallId) : Lodges history c id := (hrun.life id).toLodges
  exact {
    single := fun id => (hlodges id).length_le
    gains := fun id r hr address x ha => hrun.gains hr ha
    home := fun id s hs =>
      ⟨(hlodges id).acquired_eq hs, Option.isSome_iff_exists.1 ((hlodges id).home s hs)⟩
    performs := fun r _ id stimulus s hturn hs => by
      rw [Record.move, step_of_turn r.draw hturn, stimulate_eq_performAll hs,
        (deeds_of_turn hturn hs).1]
    shown := fun id => (hlodges id).shown
    releases := fun id => by
      obtain ⟨sub, -, hstands⟩ := (hlodges id).stands
      exact hstands.releases
    running := fun id hs => (hlodges id).notLast hs
    concluded := fun id hs address x ha => (hlodges id).concluded hs ha
    terminated := fun id => (hlodges id).terminated_iff
    last := by
      rintro id later earlier rfl hterminated
      exact hrun.over_of_terminated hterminated
    alone := fun id x ho => hrun.open_alone ho
    settled := fun hsettled id hends => h.terminated_of_settled hsettled hends }

end Release

/-- A subscription fails after a message, and another one gets its connection and is
unsubscribed. -/
def handedOn : List Input :=
  [.event 0 (.start 0 .connect), .event 0 (.dialed 0 (.ok 1)),
    .event 0 (.answered (.caller 0) (.ok {
      topology := {
        brokers := [⟨"b", "h", 1⟩]
        streams := [⟨"s", "s", [{ id := 0, leader := some "b" }]⟩] } })),
    .event 0 (.start 1 (.subscribe "s" {})), .event 0 (.dialed 1 (.ok 2)),
    .event 0 (.run (.session 1)), .event 0 (.answered (.session 1) (.ok {})),
    .yields 1 (.item (.ok {})), .yields 1 (.item (.ok { offset := 7 })),
    .yields 1 (.item (.error ⟨.notFound, "gone"⟩)),
    .event 0 (.item 1 (.ok {})), .event 0 (.run (.caller 1)),
    .event 0 (.item 1 (.ok { offset := 7 })), .event 0 (.item 1 (.error ⟨.notFound, "gone"⟩)),
    .event 0 (.start 2 (.subscribe "s" {})), .event 0 (.run (.session 2)),
    .event 0 (.unsubscribe 2), .event 0 (.run (.session 2))]

theorem gives_back_once_handedOn :
    ∃ s, feed (fun _ => []) ([], .fresh { bootstrap := ["a:1"] } 0) handedOn = some s ∧
      Settled s.1 s.2.1 s.2.2 ∧ .terminated 1 ∈ trail s.2.1 ∧
      Session.releases (log s.2.1 1) = [("h:1", 2)] ∧ Concluded (log s.2.1 1) "h:1" 2 ∧
      Session.releases (log s.2.1 2) = [("h:1", 2)] ∧ Concluded (log s.2.1 2) "h:1" 2 := by
  have hends : (feed (fun _ => []) ([], .fresh { bootstrap := ["a:1"] } 0) handedOn).map
      (fun s => decide (isSettled s.1 s.2.1 s.2.2 = true ∧
        s.2.2.isRunning 1 = false ∧ acquired s.2.1 1 = [("h:1", 2)] ∧
        s.2.2.isRunning 2 = false ∧ acquired s.2.1 2 = [("h:1", 2)])) = some true := by
    decide +kernel
  obtain ⟨s, hs, hfed, hsettled, hover, hacquired, hover', hacquired'⟩ := exists_fed hends
  have hback := Fed.gives_back_once hfed
  refine ⟨s, hs, settled_of_isSettled hsettled, ?_, ?_, ?_, ?_, ?_⟩
  · exact (hback.terminated 1).2 ⟨by simp [hacquired], hover⟩
  · rw [hback.releases, hover, hacquired]
    rfl
  · exact hback.concluded 1 hover _ _ (by simp [hacquired])
  · rw [hback.releases, hover', hacquired']
    rfl
  · exact hback.concluded 2 hover' _ _ (by simp [hacquired'])

end StreamClient.Client
