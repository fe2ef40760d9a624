import StreamClient.Proofs.Client.Closed
import StreamClient.Proofs.Client.Closing
import StreamClient.Proofs.Client.Release

/-! What a close comes to when no call is under way: it closes what no session holds, and from then
on the client lives on for its sessions only. -/

namespace StreamClient.Client

open Session (Deed)

/-- What reaches a session: a turn of its own, or that it is unsubscribed. -/
inductive Prompt where
  | turn (stimulus : Session.Stimulus)
  | quit

def Event.prompt? (id : CallId) (e : Event) : Option Prompt :=
  match e.turn?, e with
  | some (k, stimulus), _ => if k = id then some (.turn stimulus) else none
  | none, .unsubscribe k => if k = id then some .quit else none
  | none, _ => none

def prompts (history : History) (id : CallId) : List Prompt :=
  history.filterMap fun r => r.event.prompt? id

def react : Option Session → Prompt → Option Session × List Deed
  | some s, .turn stimulus =>
    ((s.turn false stimulus).next?, (s.deeds false stimulus).filter Deed.isShown)
  | some s, .quit => (some { s with cancelled := true }, [])
  | none, _ => (none, [])

def replay (s : Option Session) : List Prompt → Option Session × List Deed
  | [] => (s, [])
  | p :: earlier =>
    ((react (replay s earlier).1 p).1, (replay s earlier).2 ++ (react (replay s earlier).1 p).2)

section Alone

variable {settings : Settings} {now : Nat} {history : History} {draw : Nat} {c : Client} {e : Event}
  {id : CallId}

theorem isHeard_of_none (h : c.calls.get? id = none) : c.isHeard id = false := by
  rw [isHeard, h]

/-- Once its call is over, a session depends on nothing but its prompts. -/
structure Alone (draw : Nat) (c : Client) (e : Event) (id : CallId) : Prop where
  call : (step draw c e).1.calls.get? id = none
  reacts : ((step draw c e).1.sessions.get? id, shown (step draw c e).2 id) =
    match e.prompt? id with
    | some p => react (c.sessions.get? id) p
    | none => (c.sessions.get? id, [])

theorem alone_turn (hcall : c.calls.get? id = none) {k : CallId} {stimulus : Session.Stimulus}
    (hturn : e.turn? = some (k, stimulus)) : Alone draw c e id := by
  have hprompt : e.prompt? id = if k = id then some (.turn stimulus) else none := by
    simp only [Event.prompt?, hturn]
  cases hs : c.sessions.get? k with
  | none =>
    have hstay : step draw c e = c.stay := by rw [step_of_turn draw hturn, stimulate, hs]
    refine ⟨hstay ▸ hcall, ?_⟩
    rw [hstay, hprompt]
    by_cases hk : k = id
    · subst hk
      simp [hs, react, stay]
    · simp [hk, stay]
  | some s =>
    have hturned := turned_step draw hturn hs
    by_cases hk : k = id
    · subst hk
      refine ⟨?_, ?_⟩
      · rcases hturned.stage with hsame | ⟨s', verdict, due, hstage, -, -⟩
        · exact hsame.trans hcall
        · cases hcall.symm.trans hstage
      · rw [hprompt, if_pos rfl, hs, hturned.sessions, if_pos rfl, hturned.shown, if_pos rfl,
          isHeard_of_none hcall]
        rfl
    · refine ⟨(hturned.calls id (Ne.symm hk)).trans hcall, ?_⟩
      rw [hprompt, if_neg hk, hturned.sessions, if_neg (Ne.symm hk), hturned.shown,
        if_neg (Ne.symm hk)]

theorem alone_unsubscribe (draw : Nat) (hcall : c.calls.get? id = none) (k : CallId) :
    Alone draw c (.unsubscribe k) id := by
  obtain ⟨⟨sessions, hframe⟩, -⟩ := unsubscribe_frame c k
  have hshown : shown (c.unsubscribe k).2 id = [] := (plain_unsubscribe c k).1 id
  refine ⟨?_, ?_⟩
  · rw [step, hframe]
    exact hcall
  · rw [step, hshown]
    by_cases hk : k = id
    · subst hk
      have hprompt : Event.prompt? k (.unsubscribe k) = some .quit := by
        simp [Event.prompt?, Event.turn?]
      rw [hprompt]
      cases hs : c.sessions.get? k with
      | none => simp [unsubscribe, hs, stay, react]
      | some s =>
        -- a session that was cancelled before stays so
        cases hcancelled : s.cancelled <;>
          simp [unsubscribe, hs, hcancelled, stay, react, Table.get?_put]
        rw [← hcancelled]
    · have hprompt : Event.prompt? id (.unsubscribe k) = none := by
        simp [Event.prompt?, Event.turn?, hk]
      rw [hprompt, (passes_unsubscribe_other c (Ne.symm hk)).2]

theorem Run.alone (h : Run settings now history c) (hp : Possible history c e)
    (hid : id ∈ started history) (hcall : c.calls.get? id = none) : Alone draw c e id := by
  cases hturn : e.turn? with
  | some turn =>
    obtain ⟨k, stimulus⟩ := turn
    exact alone_turn hcall hturn
  | none =>
    by_cases hquit : ∃ k, e = .unsubscribe k
    · obtain ⟨k, rfl⟩ := hquit
      exact alone_unsubscribe draw hcall k
    · have haside := aside_step draw h.keeps.coherent h.pooled hturn
      have hprompt : e.prompt? id = none := by
        cases e with
        | unsubscribe k => exact absurd ⟨k, rfl⟩ hquit
        | _ => simp only [Event.prompt?, hturn]
      have hsame (hcalls : (step draw c e).1.calls.get? id = none)
          (hsessions : (step draw c e).1.sessions.get? id = c.sessions.get? id) :
          Alone draw c e id := ⟨hcalls, by rw [hprompt, hsessions, haside.silent]⟩
      cases haside.passes id with
      | still hcalls hsessions _ => exact hsame (hcalls.trans hcall) hsessions
      | comes a haims _ =>
        rcases haims with ⟨stage, hstage, -, -⟩ | ⟨op, rfl, -⟩
        · cases hcall.symm.trans hstage
        · exact absurd hid hp.1
      | told _ _ _ hstage _ => cases hcall.symm.trans hstage
      | expelled _ _ _ _ hstage _ _ _ => cases hcall.symm.trans hstage
      | quits he _ => exact absurd ⟨id, he⟩ hquit
      | abandoned _ hm =>
        exact hsame (by rw [hm, calls_abandon]) (by rw [hm, sessions_abandon])

theorem Run.replayed (h : Run settings now history c) (hid : id ∈ started history)
    (hcall : c.calls.get? id = none) {later : History} {c' : Client}
    (h' : Run settings now (later ++ history) c') : c'.calls.get? id = none ∧
      c'.sessions.get? id = (replay (c.sessions.get? id) (prompts later id)).1 ∧
      shown (trail (later ++ history)) id =
        shown (trail history) id ++ (replay (c.sessions.get? id) (prompts later id)).2 := by
  induction later generalizing c' with
  | nil =>
    obtain rfl := h.unique h'
    exact ⟨hcall, rfl, (List.append_nil _).symm⟩
  | cons r later ih =>
    cases h' with
    | @next _ before e draw hrun hp =>
      obtain ⟨hcall', hsession, hshown⟩ := ih hrun
      have hid' : id ∈ started (later ++ history) := by
        rw [started, List.filterMap_append]
        exact List.mem_append_right _ hid
      have halone : Alone draw before e id := hrun.alone hp hid' hcall'
      have hreacts := halone.reacts
      have htrail : shown (trail (⟨before, draw, e⟩ :: later ++ history)) id =
          shown (trail (later ++ history)) id ++ shown (step draw before e).2 id :=
        shown_append _ _ _
      rw [htrail, hshown]
      refine ⟨halone.call, ?_⟩
      cases hprompt : e.prompt? id with
      | none =>
        have hskip : prompts (⟨before, draw, e⟩ :: later) id = prompts later id :=
          List.filterMap_cons_none hprompt
        rw [hprompt, hsession] at hreacts
        obtain ⟨hnext, hsilent⟩ := Prod.mk.inj hreacts
        rw [hskip, hnext, hsilent, List.append_nil]
        exact ⟨rfl, rfl⟩
      | some p =>
        have hnew : prompts (⟨before, draw, e⟩ :: later) id = p :: prompts later id :=
          List.filterMap_cons_some hprompt
        rw [hprompt, hsession] at hreacts
        obtain ⟨hnext, hshows⟩ := Prod.mk.inj (hreacts.trans (Prod.eta _).symm)
        rw [hnew, hnext, hshows, List.append_assoc]
        exact ⟨rfl, rfl⟩

theorem possible_of_prompt {p : Prompt} (h : e.prompt? id = some p) : Possible history c e := by
  cases e with
  | start _ _ | dialed _ _ => cases h
  | _ => trivial

theorem Run.exists_prompts (h : Run settings now history c) (later : History) :
    ∃ later' c', Run settings now (later' ++ history) c' ∧
      (∀ x ∈ later', ∃ k, (x.event.prompt? k).isSome) ∧ ∀ k, prompts later' k = prompts later k := by
  induction later with
  | nil => exact ⟨[], c, h, by simp, fun _ => rfl⟩
  | cons r later ih =>
    obtain ⟨later', c', hrun, hprompts, hsame⟩ := ih
    by_cases hr : ∃ k, (r.event.prompt? k).isSome
    · obtain ⟨k, hk⟩ := hr
      obtain ⟨p, hp⟩ := Option.isSome_iff_exists.1 hk
      refine ⟨⟨c', r.draw, r.event⟩ :: later', _, hrun.next r.draw (possible_of_prompt hp), ?_, ?_⟩
      · exact List.forall_mem_cons.2 ⟨⟨k, hk⟩, hprompts⟩
      · intro k'
        rw [prompts, List.filterMap_cons, prompts, List.filterMap_cons, ← prompts, ← prompts,
          hsame k']
    · refine ⟨later', c', hrun, hprompts, fun k => ?_⟩
      have hnone : r.event.prompt? k = none :=
        Option.not_isSome_iff_eq_none.1 fun hk => hr ⟨k, hk⟩
      have hskip : prompts (r :: later) k = prompts later k := List.filterMap_cons_none hnone
      rw [hsame k, hskip]

end Alone

section Close

variable {settings : Settings} {now : Nat} {history : History} {c : Client} {id : CallId}

theorem close_frame (c : Client) (id : CallId) : ∃ link pools calls,
    (c.close id).1 = { c with link, pools, calls, closed := true } := by
  cases hclosed : c.closed with
  | true =>
    refine ⟨c.link, c.pools, c.calls.erase id, ?_⟩
    rw [close_of_closed hclosed, ← hclosed]
    rfl
  | false =>
    obtain ⟨link, calls, hframe⟩ := (apart_close 0 id hclosed).frame
    exact ⟨link, _, calls, hframe⟩

theorem retired_close (hrest : ∀ k, c.calls.get? k = none) (hlock : c.link.lock = {}) :
    Retired (c.close id).1 ∧ .finish id (.ok .done) ∈ (c.close id).2 := by
  have hclosed : (c.close id).1.closed = true := by
    obtain ⟨link, pools, calls, hframe⟩ := close_frame c id
    rw [hframe]
  cases hbefore : c.closed with
  | true =>
    refine ⟨⟨hclosed, fun k => ?_⟩, ?_⟩ <;> rw [close_of_closed hbefore]
    · simp [hrest k]
    · exact List.mem_singleton_self _
  | false =>
    obtain ⟨link, hclose⟩ := close_at_rest hbefore hlock id
    refine ⟨⟨hclosed, fun k => ?_⟩, ?_⟩ <;> rw [hclose, Move.after]
    · rw [stage_finish]
      split
      · rfl
      · exact hrest k
    · exact List.mem_append_right _ (List.mem_singleton_self _)

theorem shown_close (c : Client) (id k : CallId) : shown (c.close id).2 k = [] :=
  (conducts_close c id .expire).silent k

theorem Retired.not_dialed (h : Retired c) {e : Event} (hp : Possible history c e) (id : CallId)
    (r : Except Fault Conn) : e ≠ .dialed id r := by
  rintro rfl
  have hdialing := isSome_of_isDialing hp.1
  rw [h.calls id] at hdialing
  cases hdialing

theorem Run.fades (h : Run settings now history c) (hr : Retired c) {e : Event} (draw : Nat)
    (hp : Possible history c e) : Fades c e (step draw c e) :=
  hr.fades (h.drained hr.closed) draw (hr.not_dialed hp)

theorem Run.stays_retired (h : Run settings now history c) (hr : Retired c) {later : History}
    {c' : Client} (h' : Run settings now (later ++ history) c') :
    Retired c' ∧ c'.snapshot = c.snapshot := by
  induction later generalizing c' with
  | nil =>
    obtain rfl := h.unique h'
    exact ⟨hr, rfl⟩
  | cons r later ih =>
    cases h' with
    | next draw hrun hp =>
      obtain ⟨hretired, hsnapshot⟩ := ih hrun
      have hfades := hrun.fades hretired draw hp
      exact ⟨hfades.retired, hfades.snapshot.trans hsnapshot⟩

theorem Run.held_or_closed (h : Run settings now history c) (hr : Retired c) {s : Session}
    (hs : c.sessions.get? id = some s) {later : History} {c' : Client}
    (h' : Run settings now (later ++ history) c') :
    (∃ s', c'.sessions.get? id = some s' ∧ s'.conn = s.conn) ∨
      c'.sessions.get? id = none ∧ s.conn ∈ closes (trail (later ++ history)) := by
  induction later generalizing c' with
  | nil =>
    obtain rfl := h.unique h'
    exact .inl ⟨s, hs, rfl⟩
  | cons r later ih =>
    cases h' with
    | @next _ before e draw hrun hp =>
      have hfades := hrun.fades (h.stays_retired hr hrun).1 draw hp
      have horigins := hfades.origins id
      have htrail : closes (trail (⟨before, draw, e⟩ :: later ++ history)) =
          closes (trail (later ++ history)) ++ closes (step draw before e).2 := closes_append _ _
      rw [htrail, List.mem_append]
      rcases ih hrun with ⟨s', hs', hconn⟩ | ⟨hnone, hclosed⟩
      · rw [hs'] at horigins
        split at horigins
        · next hany =>
          -- the session that ends is this one, and what is closed is what it holds
          obtain ⟨⟨k, s''⟩, hleaving, hk⟩ := (Option.any_eq_true _ _).1 hany
          obtain rfl : k = id := of_decide_eq_true hk
          obtain rfl := Option.some.inj ((leaving?_eq_some hleaving).symm.trans hs')
          refine .inr ⟨Option.map_eq_none_iff.1 horigins, .inr ?_⟩
          rw [hfades.closes, hleaving, ← hconn]
          exact List.mem_singleton_self _
        · obtain ⟨s'', hs'', horigin⟩ := Option.map_eq_some_iff.1 horigins
          simp only [Session.origin, Prod.mk.injEq] at horigin
          exact .inl ⟨s'', hs'', horigin.2.1.trans hconn⟩
      · rw [hnone] at horigins
        refine .inr ⟨Option.map_eq_none_iff.1 (horigins.trans ?_), .inl hclosed⟩
        split <;> rfl

theorem Run.closed_once (h : Run settings now history c) (hr : Retired c) {s : Session}
    (hs : c.sessions.get? id = some s) {later : History} {c' : Client}
    (h' : Run settings now (later ++ history) c') :
    (closes (trail (later ++ history))).count s.conn = if c'.isRunning id then 0 else 1 := by
  -- a connection is accounted for once: its session has it, or it was closed
  have hle := h'.keeps.count_le s.conn
  rcases h.held_or_closed hr hs h' with ⟨s', hheld, hconn⟩ | ⟨hnone, hclosed⟩
  · have hpos := total_of_session hheld
    rw [hconn] at hpos
    rw [isRunning_eq_true.2 ⟨s', hheld⟩, if_pos rfl]
    omega
  · have hpos := List.count_pos_iff.2 hclosed
    rw [isRunning_eq_false.2 hnone, if_neg Bool.false_ne_true]
    omega

/-- What holds when a run goes on with `later` after `r` closed the client, up to the client `c'`. -/
structure Aftermath (settings : Settings) (now : Nat) (history : History) (r : Record)
    (later : History) (c' : Client) : Prop where
  refused : ∀ x ∈ later, ∀ k op, x.event = .start k op → op ≠ .close →
    x.move.2 = [.finish k (.error .closed)]
  again : ∀ x ∈ later, ∀ k, x.event = .start k .close → x.move.2 = [.finish k (.ok .done)]
  light : ∀ x ∈ later, Light x.move.2
  snapshot : c'.snapshot = r.before.snapshot
  /-- Nothing is closed but the connections of sessions that end, and none is kept. -/
  leaves : ∀ x ∈ later, closes x.move.2 = (x.before.leaving? x.event).toList.map (·.2.conn)
  unpooled : c'.idle = []
  once : ∀ k s, r.before.sessions.get? k = some s →
    (closes (trail (later ++ r :: history))).count s.conn = if c'.isRunning k then 0 else 1
  /-- A session becomes and shows the same as in every other run from before the close in which the
  same reaches it. -/
  goesOn : ∀ k s, r.before.sessions.get? k = some s → ∀ later' c'',
    Run settings now (later' ++ history) c'' → prompts later' k = prompts later k →
      c''.sessions.get? k = c'.sessions.get? k ∧
        shown (trail (later' ++ history)) k = shown (trail (later ++ r :: history)) k
  /-- In one of these nothing happens but what reaches sessions. -/
  unclosed : ∃ later' c'', Run settings now (later' ++ history) c'' ∧
    (∀ x ∈ later', ∃ k, (x.event.prompt? k).isSome) ∧ ∀ k, prompts later' k = prompts later k

/-- What a close `r` comes to after `history`. -/
structure ClosingLaw (settings : Settings) (now : Nat) (history : History) (r : Record) : Prop where
  /-- It closes what is idle and what is cached, if that was not done before. -/
  shuts : closes r.move.2 =
    if r.before.closed then [] else r.before.idle ++ r.before.link.cached.toList
  once : (closes r.move.2).Nodup
  spares : ∀ k s, r.before.sessions.get? k = some s → s.conn ∉ closes r.move.2
  returns : ∃ id, r.event = .start id .close ∧ .finish id (.ok .done) ∈ r.move.2
  after : ∀ later c', Run settings now (later ++ r :: history) c' →
    Aftermath settings now history r later c'

theorem Run.aftermath (h : Run settings now history c) (hrest : ∀ k, c.calls.get? k = none)
    (hp : Possible history c (.start id .close)) {draw : Nat} {later : History} {c' : Client}
    (h' : Run settings now (later ++ ⟨c, draw, .start id .close⟩ :: history) c') :
    Aftermath settings now history ⟨c, draw, .start id .close⟩ later c' := by
  have hstep : step draw c (.start id .close) = c.close id := by
    rw [step, start, if_neg (by simp)]
    rfl
  have hnext := h.next draw hp
  rw [hstep] at hnext
  obtain ⟨hretired, -⟩ : Retired (c.close id).1 ∧ _ := retired_close hrest (h.unlocked hrest)
  obtain ⟨link, pools, calls, hframe⟩ := close_frame c id
  have hsessions : (c.close id).1.sessions = c.sessions := by rw [hframe]
  have hend := hnext.stays_retired hretired h'
  -- whatever happens later happens to a client that retired
  have hmoment : ∀ x ∈ later, Retired x.before ∧ Fades x.before x.event x.move := by
    intro x hx
    obtain ⟨after, before, rfl⟩ := List.append_of_mem hx
    have hsuffix : x :: (before ++ ⟨c, draw, .start id .close⟩ :: history) <:+
        (after ++ x :: before) ++ ⟨c, draw, .start id .close⟩ :: history := ⟨after, by simp⟩
    obtain ⟨hrun, hpx⟩ := h'.of_suffix hsuffix
    have hbefore := (hnext.stays_retired hretired hrun).1
    exact ⟨hbefore, hrun.fades hbefore x.draw hpx⟩
  have hstart {x : Record} (hx : x ∈ later) {k : CallId} {op : Op} (he : x.event = .start k op) :
      x.move.2 = [.finish k (if op = .close then .ok .done else .error .closed)] := by
    rw [Record.move, he, step, (hmoment x hx).1.start_eq]
    rfl
  exact {
    refused := fun x hx k op he hop => by rw [hstart hx he, if_neg hop]
    again := fun x hx k he => by rw [hstart hx he, if_pos rfl]
    light := fun x hx => (hmoment x hx).2.light
    snapshot := by rw [hend.2, hframe]
    leaves := fun x hx => (hmoment x hx).2.closes
    unpooled := (h'.drained hend.1.closed).idle_eq
    once := fun k s hs => hnext.closed_once hretired (hsessions ▸ hs) h'
    goesOn := fun k s hs later' c'' h'' hsame => by
      have hid : k ∈ started history := h.keeps.known k (.inr (by simp [show _ = some s from hs]))
      have hid' : k ∈ started (⟨c, draw, .start id .close⟩ :: history) := mem_started_cons hid
      obtain ⟨-, hsession, hshown⟩ := h.replayed hid (hrest k) h''
      obtain ⟨-, hsession', hshown'⟩ := hnext.replayed hid' (hretired.calls k) h'
      -- both runs go on from the same session, as the close itself shows nothing of it
      have htrail : shown (trail (⟨c, draw, .start id .close⟩ :: history)) k =
          shown (trail history) k := by
        rw [trail, Record.move, hstep, shown_append, shown_close, List.append_nil]
      rw [hsession, hsession', hshown, hshown', hsessions, htrail, hsame]
      exact ⟨rfl, rfl⟩
    unclosed := h.exists_prompts later }

/-- In every state without a call under way, with any number of sessions: a close closes, once each,
exactly what is idle and what is cached, unless the client is closed. From then on calls are refused
and the sessions go on as before, and each of their connections is closed when its session ends. The
dialer keeps to `Fresh`, and `keepAlive` is within the range of the timer queue. -/
theorem Run.closing_law (h : Run settings now history c) (hrest : ∀ k, c.calls.get? k = none)
    (hp : Possible history c (.start id .close)) (draw : Nat) :
    ClosingLaw settings now history ⟨c, draw, .start id .close⟩ := by
  have hmove : Record.move ⟨c, draw, .start id .close⟩ = c.close id := by
    rw [Record.move, step, start, if_neg (by simp)]
    rfl
  have hlock := h.unlocked hrest
  have hkeeps := (h.next draw hp).keeps
  have hmem {x : Conn} (hx : x ∈ closes (c.close id).2) :
      x ∈ closes (trail (⟨c, draw, .start id .close⟩ :: history)) := by
    rw [trail, hmove, closes_append]
    exact List.mem_append_right _ hx
  refine ⟨?_, ?_, fun k s hs hx => ?_, ⟨id, rfl, ?_⟩, fun later c' h' => h.aftermath hrest hp h'⟩
  · rw [hmove]
    exact closes_close hlock
  · rw [hmove, List.nodup_iff_count_le_one]
    intro x
    have hle := hkeeps.count_le x
    rw [trail, hmove, closes_append, List.count_append] at hle
    omega
  · rw [hmove] at hx
    obtain ⟨link, pools, calls, hframe⟩ := close_frame c id
    have hs' : (c.close id).1.sessions.get? k = some s := by
      rw [hframe]
      exact hs
    -- what a session holds afterwards was not closed
    have hpos := total_of_session hs'
    have hgone := hkeeps.gone (hmem hx)
    rw [show step draw c (.start id .close) = c.close id from hmove] at hgone
    omega
  · rw [hmove]
    exact (retired_close hrest hlock).2

end Close

/-- Of two subscriptions one has ended, so that its connection is idle, and the other one runs. -/
def parting : List (Nat × Event) :=
  [(0, .start 0 .connect), (0, .dialed 0 (.ok 1)),
    (0, .answered (.caller 0) (.ok { topology := lone })),
    (0, .start 1 (.subscribe "s" {})), (0, .dialed 1 (.ok 2)), (0, .run (.session 1)),
    (0, .answered (.session 1) (.ok {})), (0, .item 1 (.ok {})), (0, .run (.caller 1)),
    (0, .start 2 (.subscribe "s" {})), (0, .dialed 2 (.ok 3)), (0, .run (.session 2)),
    (0, .answered (.session 2) (.ok {})), (0, .ended 2), (0, .run (.caller 2))]

theorem closing_law_parting :
    ∃ s, play ([], .fresh { bootstrap := ["a:1"] } 0) parting = some s ∧
      (s.2.sessions.get? 1).map Session.conn = some 2 ∧
      ClosingLaw { bootstrap := ["a:1"] } 0 s.1 ⟨s.2, 0, .start 3 .close⟩ ∧
      closes (step 0 s.2 (.start 3 .close)).2 = [3, 1] := by
  have hends : (play ([], .fresh { bootstrap := ["a:1"] } 0) parting).map (fun s => decide
      (s.2.calls.keys = [] ∧ Possible s.1 s.2 (.start 3 .close) ∧
        (s.2.sessions.get? 1).map Session.conn = some 2 ∧
        closes (step 0 s.2 (.start 3 .close)).2 = [3, 1])) = some true := by
    decide +kernel
  obtain ⟨s, hs, hrun, hkeys, hp, hheld, hcloses⟩ := exists_run hends
  exact ⟨s, hs, hheld, hrun.closing_law (returned_of_keys hkeys) hp 0, hcloses⟩

/-- After `overtaken` a connection is cached and no call is under way, and still a close closes
nothing. -/
theorem overtaken_reclosed :
    ∃ s, play ([], .fresh { bootstrap := ["a:1"] } 0)
        (overtaken ++ [(0, .answered (.caller 1) (.ok {}))]) = some s ∧
      Run { bootstrap := ["a:1"] } 0 s.1 s.2 ∧ (∀ k, s.2.calls.get? k = none) ∧
      Possible s.1 s.2 (.start 3 .close) ∧ s.2.link.cached = some 2 ∧
      closes (step 0 s.2 (.start 3 .close)).2 = [] := by
  have hends : (play ([], .fresh { bootstrap := ["a:1"] } 0)
      (overtaken ++ [(0, .answered (.caller 1) (.ok {}))])).map (fun s => decide
        (s.2.calls.keys = [] ∧ Possible s.1 s.2 (.start 3 .close) ∧ s.2.link.cached = some 2 ∧
          closes (step 0 s.2 (.start 3 .close)).2 = [])) = some true := by
    decide +kernel
  obtain ⟨s, hs, hrun, hkeys, hp, hcached, hcloses⟩ := exists_run hends
  exact ⟨s, hs, hrun, returned_of_keys hkeys, hp, hcached, hcloses⟩

end StreamClient.Client
