import StreamClient.Proofs.Client.Run

/-! What a session does, as one list of deeds in the order in which it does them, and that the
effects of a client show these deeds and no others. -/

namespace StreamClient

namespace Session

inductive Deed where
  | act (a : Action)
  | opened
  | release (address : Address) (conn : Conn)
  | report (e : CallError)
  | terminated

def farewell (s : Session) (report : Option CallError) : List Deed :=
  .release s.pool s.conn :: (report.toList.map .report ++ [.terminated])

def deeds (heard : Bool) (s : Session) (e : Stimulus) : List Deed :=
  match s.turn heard e with
  | .goOn s' actions =>
    (if s.phase = .opening ∧ s'.phase = .greeting then [.opened] else []) ++ actions.map .act
  | .over actions report => actions.map .act ++ s.farewell report

def Turn.next? : Turn → Option Session
  | .goOn s _ => some s
  | .over .. => none

def Deed.isShown : Deed → Bool
  | .act (.greet _) | .opened | .release .. => false
  | _ => true

def Deed.isRelease : Deed → Bool
  | .release .. => true
  | _ => false

theorem any_release_deeds (heard : Bool) (s : Session) (e : Stimulus) :
    (s.deeds heard e).any Deed.isRelease = (s.turn heard e).next?.isNone := by
  have hacts : ∀ actions : List Action, (actions.map Deed.act).any Deed.isRelease = false := by
    simp [Deed.isRelease]
  simp only [deeds]
  cases s.turn heard e with
  | goOn s' actions =>
    simp only [List.any_append, hacts, Turn.next?, Bool.or_false, Option.isNone_some]
    split <;> rfl
  | «over» actions report => simp [farewell, hacts, Turn.next?, Deed.isRelease]

end Session

open Session (Deed)

namespace Client

def perform (c : Client) (id : CallId) (conn : Conn) : Deed → Move
  | .act a => c.act id conn a
  | .opened => c.stay
  | .release address conn => { c with sessions := c.sessions.erase id }.giveBack address conn
  | .report e => (c, [.report id e])
  | .terminated => (c.greet id (.error endedUnheard)).after [.terminated id]

def performAll (c : Client) (id : CallId) (conn : Conn) : List Deed → Move
  | [] => c.stay
  | d :: rest =>
    let (c, effects) := c.perform id conn d
    (c.performAll id conn rest).after effects

theorem performAll_append (id : CallId) (conn : Conn) (a b : List Deed) (c : Client) :
    c.performAll id conn (a ++ b) =
      ((c.performAll id conn a).1.performAll id conn b).after (c.performAll id conn a).2 := by
  induction a generalizing c with
  | nil => simp [performAll, stay, Move.after]
  | cons d rest ih =>
    simp only [List.cons_append, performAll, ih, Move.after, List.append_assoc]

theorem performAll_acts (id : CallId) (conn : Conn) (actions : List Session.Action) (c : Client) :
    c.performAll id conn (actions.map .act) = c.actAll id conn actions := by
  induction actions generalizing c with
  | nil => rfl
  | cons a rest ih => simp only [List.map_cons, performAll, actAll, perform, ih]

theorem performAll_farewell (id : CallId) (conn : Conn) (s : Session) (report : Option CallError)
    (c : Client) : c.performAll id conn (s.farewell report) = c.terminate id s report := by
  cases report <;>
    simp [Session.farewell, performAll, perform, terminate, Move.after, stay]

theorem performAll_frame (id : CallId) (conn : Conn) (deeds : List Deed) (c : Client) :
    ∃ calls sessions pools,
      (c.performAll id conn deeds).1 = { c with calls, sessions, pools } := by
  have hgreet (c : Client) (verdict : Except Fault Unit) :
      ∃ calls, (c.greet id verdict).1 = { c with calls } := by
    unfold greet
    split
    · exact ⟨_, rfl⟩
    · exact ⟨c.calls, rfl⟩
  induction deeds generalizing c with
  | nil => exact ⟨c.calls, c.sessions, c.pools, rfl⟩
  | cons d rest ih =>
    have hperform : ∃ calls sessions pools,
        (c.perform id conn d).1 = { c with calls, sessions, pools } := by
      cases d with
      | act a =>
        cases a with
        | greet r =>
          obtain ⟨calls, hcalls⟩ := hgreet c r
          exact ⟨calls, c.sessions, c.pools, hcalls⟩
        | _ => exact ⟨c.calls, c.sessions, c.pools, rfl⟩
      | release address x =>
        obtain ⟨⟨pools, hframe⟩, -⟩ :=
          giveBack_frame { c with sessions := c.sessions.erase id } address x
        exact ⟨c.calls, c.sessions.erase id, pools, hframe⟩
      | terminated =>
        obtain ⟨calls, hcalls⟩ := hgreet c (.error endedUnheard)
        exact ⟨calls, c.sessions, c.pools, hcalls⟩
      | _ => exact ⟨c.calls, c.sessions, c.pools, rfl⟩
    obtain ⟨calls, sessions, pools, hfirst⟩ := hperform
    obtain ⟨calls', sessions', pools', hrest⟩ := ih (c.perform id conn d).1
    refine ⟨calls', sessions', pools', hrest.trans ?_⟩
    rw [hfirst]

def afterTurn (c : Client) (id : CallId) : Session.Turn → Client
  | .goOn s _ => { c with sessions := c.sessions.put id s }
  | .over .. => c

theorem stimulate_eq_performAll {c : Client} {id : CallId} {s : Session}
    (h : c.sessions.get? id = some s) (e : Session.Stimulus) :
    c.stimulate id e = (c.afterTurn id (s.turn (c.isHeard id) e)).performAll id s.conn
      (s.deeds (c.isHeard id) e) := by
  simp only [stimulate, h, Session.deeds]
  cases ht : s.turn (c.isHeard id) e with
  | goOn s' actions =>
    have hopened : ∀ c' : Client, c'.performAll id s.conn
        (if s.phase = .opening ∧ s'.phase = .greeting then [.opened] else []) = c'.stay := by
      intro c'
      split <;> rfl
    simp only [afterTurn, performAll_append, hopened, performAll_acts, stay, Move.after,
      List.nil_append, Session.conn_of_goOn ht]
  | «over» actions report =>
    simp only [afterTurn, performAll_append, performAll_acts, performAll_farewell]

theorem stimulate_frame (c : Client) (id : CallId) (e : Session.Stimulus) :
    ∃ calls sessions pools, (c.stimulate id e).1 = { c with calls, sessions, pools } := by
  cases hs : c.sessions.get? id with
  | none =>
    refine ⟨c.calls, c.sessions, c.pools, ?_⟩
    simp only [stimulate, hs, stay]
  | some s =>
    rw [stimulate_eq_performAll hs]
    obtain ⟨calls, sessions, pools, hframe⟩ := performAll_frame id s.conn
      (s.deeds (c.isHeard id) e) (c.afterTurn id (s.turn (c.isHeard id) e))
    refine ⟨calls, sessions, pools, hframe.trans ?_⟩
    cases s.turn (c.isHeard id) e <;> rfl

end Client

def Client.Effect.deed? (id : CallId) : Client.Effect → Option Deed
  | .call (.session k) _ (.subscribe s) => if k = id then some (.act (.ask s)) else none
  | .withdraw (.session k) => if k = id then some (.act .withdraw) else none
  | .dropStream k => if k = id then some (.act .dropStream) else none
  | .deliver k m => if k = id then some (.act (.deliver m)) else none
  | .report k e => if k = id then some (.report e) else none
  | .terminated k => if k = id then some .terminated else none
  | _ => none

namespace Client

/-- The deeds of the session of `id` that `effects` show. -/
def shown (effects : List Effect) (id : CallId) : List Deed := effects.filterMap (Effect.deed? id)

@[simp] theorem shown_nil (id : CallId) : shown [] id = [] := rfl

@[simp] theorem shown_append (a b : List Effect) (id : CallId) :
    shown (a ++ b) id = shown a id ++ shown b id := List.filterMap_append ..

@[simp] theorem shown_map_close (conns : List Conn) (id : CallId) :
    shown (conns.map .close) id = [] := by
  simp [shown, Effect.deed?]

theorem shown_greet (c : Client) (id k : CallId) (verdict : Except Fault Unit) :
    shown (c.greet id verdict).2 k = [] := by
  unfold greet
  split <;> rfl

theorem shown_giveBack (c : Client) (address : Address) (conn : Conn) (k : CallId) :
    shown (c.giveBack address conn).2 k = [] := by
  unfold giveBack
  split
  · exact shown_map_close _ k
  · rfl

theorem shown_perform (c : Client) (id : CallId) (conn : Conn) (d : Deed) (k : CallId) :
    shown (c.perform id conn d).2 k = if k = id then [d].filter Deed.isShown else [] := by
  have hsilent {d' : Deed} (hd : d'.isShown = false) :
      (if k = id then [d'].filter Deed.isShown else []) = [] := by
    simp [hd]
  cases d with
  | opened => exact (hsilent rfl).symm
  | release address conn => exact (shown_giveBack _ address conn k).trans (hsilent rfl).symm
  | report e =>
    by_cases hk : id = k <;>
      simp [shown, perform, Effect.deed?, List.filter_cons, Deed.isShown, hk, Ne.symm]
  | terminated =>
    rw [perform, Move.after, shown_append, shown_greet, List.append_nil]
    by_cases hk : id = k <;>
      simp [shown, Effect.deed?, List.filter_cons, Deed.isShown, hk, Ne.symm]
  | act a =>
    cases a with
    | greet r => exact (shown_greet c id k r).trans (hsilent rfl).symm
    | _ =>
      by_cases hk : id = k <;>
        simp [shown, perform, act, Effect.deed?, List.filter_cons, Deed.isShown, hk, Ne.symm]

theorem shown_performAll (id : CallId) (conn : Conn) (k : CallId) (deeds : List Deed) (c : Client) :
    shown (c.performAll id conn deeds).2 k = if k = id then deeds.filter Deed.isShown else [] := by
  induction deeds generalizing c with
  | nil => simp [performAll, stay]
  | cons d rest ih =>
    simp only [performAll, Move.after, shown_append, shown_perform, ih]
    split
    · rw [← List.filter_append, List.singleton_append]
    · rfl

structure Performs (id : CallId) (deeds : List Deed) (c : Client) (m : Move) : Prop where
  calls : ∀ k, k ≠ id → m.1.calls.get? k = c.calls.get? k
  stage : m.1.calls.get? id = c.calls.get? id ∨ ∃ s verdict due,
    c.calls.get? id = some (.greeting s none due) ∧
      m.1.calls.get? id = some (.greeting s (some verdict) due) ∧
        (.act (.greet verdict) ∈ deeds ∨ verdict = .error endedUnheard)
  sessions : ∀ k, m.1.sessions.get? k =
    if k = id ∧ deeds.any Deed.isRelease = true then none else c.sessions.get? k
  pools : ∀ a, (c.pools.get? a).isSome → (m.1.pools.get? a).isSome
  finish : ∀ k r, .finish k r ∉ m.2

theorem performs_stay (id : CallId) (deeds : List Deed) (c : Client)
    (h : deeds.any Deed.isRelease = false) : Performs id deeds c c.stay where
  calls _ _ := rfl
  stage := .inl rfl
  sessions k := by simp [stay, h]
  pools _ ha := ha
  finish k r hr := by cases hr

theorem performs_greet (c : Client) (id : CallId) (verdict : Except Fault Unit) (deeds : List Deed)
    (hd : .act (.greet verdict) ∈ deeds ∨ verdict = .error endedUnheard)
    (h : deeds.any Deed.isRelease = false) : Performs id deeds c (c.greet id verdict) := by
  unfold greet
  split
  · next s due hs => exact {
      calls := fun k hk => by simp [hk]
      stage := .inr ⟨s, verdict, due, hs, by simp, hd⟩
      sessions := fun k => by simp [Client.put, h]
      pools := fun _ ha => ha
      finish := by simp }
  · exact performs_stay id deeds c h

theorem pools_giveBack (c : Client) (address : Address) (conn : Conn) (a : Address)
    (h : (c.pools.get? a).isSome) : ((c.giveBack address conn).1.pools.get? a).isSome := by
  unfold giveBack
  split
  · simp only [Table.get?_put]
    split
    · rfl
    · exact h
  · exact h

theorem performs_perform (c : Client) (id : CallId) (conn : Conn) (d : Deed) :
    Performs id [d] c (c.perform id conn d) := by
  cases d with
  | act a =>
    cases a with
    | greet r => exact performs_greet c id r _ (.inl (List.mem_singleton_self _)) rfl
    | _ => exact { performs_stay id _ c rfl with finish := by simp [perform, act] }
  | opened => exact performs_stay id _ c rfl
  | report e => exact { performs_stay id _ c rfl with finish := by simp [perform] }
  | terminated =>
    have hgreet := performs_greet c id (.error endedUnheard) [.terminated] (.inr rfl) rfl
    refine { hgreet with finish := fun k r hr => ?_ }
    simp only [perform, Move.after, List.mem_append, List.mem_singleton, reduceCtorEq,
      false_or] at hr
    exact hgreet.finish k r hr
  | release address conn' =>
    let c' : Client := { c with sessions := c.sessions.erase id }
    obtain ⟨⟨pools, hframe⟩, honly⟩ := giveBack_frame c' address conn'
    have hcalls : (c'.giveBack address conn').1.calls = c.calls := by rw [hframe]
    exact {
      calls := fun k _ => congrArg (fun t => t.get? k) hcalls
      stage := .inl (congrArg (fun t => t.get? id) hcalls)
      sessions := fun k => by
        show (c'.giveBack address conn').1.sessions.get? k = _
        rw [hframe]
        simp [c', Table.get?_erase, Deed.isRelease]
      pools := fun a ha => pools_giveBack c' address conn' a ha
      finish := fun k r hr => by
        obtain ⟨x, hx⟩ := honly _ hr
        cases hx }

theorem Performs.trans {id : CallId} {a b : List Deed} {c : Client} {m m' : Move}
    (h : Performs id a c m) (h' : Performs id b m.1 m') :
    Performs id (a ++ b) c (m'.after m.2) where
  calls k hk := (h'.calls k hk).trans (h.calls k hk)
  stage := by
    rcases h.stage with hsame | ⟨s, verdict, due, hbefore, hafter, hd⟩
    · rcases h'.stage with hsame' | ⟨s, verdict, due, hbefore, hafter, hd⟩
      · exact .inl (hsame'.trans hsame)
      · refine .inr ⟨s, verdict, due, hsame.symm.trans hbefore, hafter, ?_⟩
        exact hd.imp_left (List.mem_append_right a)
    · refine .inr ⟨s, verdict, due, hbefore, ?_, hd.imp_left (List.mem_append_left b)⟩
      -- a call that was told is not told again
      rcases h'.stage with hsame' | ⟨s', verdict', due', hbefore', -, -⟩
      · exact hsame'.trans hafter
      · rw [hafter] at hbefore'
        cases hbefore'
  sessions k := by
    show m'.1.sessions.get? k = _
    rw [h'.sessions, h.sessions, List.any_append]
    cases a.any Deed.isRelease <;> cases b.any Deed.isRelease <;> by_cases hk : k = id <;> simp [hk]
  pools a ha := h'.pools a (h.pools a ha)
  finish k r hr := (List.mem_append.1 hr).elim (h.finish k r) (h'.finish k r)

theorem performs_performAll (id : CallId) (conn : Conn) (deeds : List Deed) (c : Client) :
    Performs id deeds c (c.performAll id conn deeds) := by
  induction deeds generalizing c with
  | nil => exact performs_stay id [] c rfl
  | cons d rest ih => exact (performs_perform c id conn d).trans (ih _)

/-- The session that an event is a turn of, and what the turn brings. -/
def Event.turn? : Event → Option (CallId × Session.Stimulus)
  | .answered (.session id) r => some (id, .replied (r.map fun _ => ()))
  | .run (.session id) => some (id, .wake)
  | .item id i => some (id, .item i)
  | .ended id => some (id, .ended)
  | _ => none

theorem step_of_turn (draw : Nat) {c : Client} {e : Event} {id : CallId}
    {stimulus : Session.Stimulus} (h : e.turn? = some (id, stimulus)) :
    step draw c e = c.stimulate id stimulus := by
  unfold Event.turn? at h
  split at h <;> cases h <;> rfl

structure Turned (id : CallId) (next : Option Session) (deeds : List Deed) (c : Client) (m : Move) :
    Prop where
  calls : ∀ k, k ≠ id → m.1.calls.get? k = c.calls.get? k
  stage : m.1.calls.get? id = c.calls.get? id ∨ ∃ s verdict due,
    c.calls.get? id = some (.greeting s none due) ∧
      m.1.calls.get? id = some (.greeting s (some verdict) due) ∧
        (.act (.greet verdict) ∈ deeds ∨ verdict = .error endedUnheard)
  sessions : ∀ k, m.1.sessions.get? k = if k = id then next else c.sessions.get? k
  pools : ∀ a, (c.pools.get? a).isSome → (m.1.pools.get? a).isSome
  finish : ∀ k r, .finish k r ∉ m.2
  shown : ∀ k, shown m.2 k = if k = id then deeds.filter Deed.isShown else []

theorem turned_stimulate {c : Client} {id : CallId} {s : Session}
    (h : c.sessions.get? id = some s) (e : Session.Stimulus) :
    Turned id (s.turn (c.isHeard id) e).next? (s.deeds (c.isHeard id) e) c (c.stimulate id e) := by
  rw [stimulate_eq_performAll h e]
  have hperforms := performs_performAll id s.conn (s.deeds (c.isHeard id) e)
    (c.afterTurn id (s.turn (c.isHeard id) e))
  have hafter : ∃ sessions, c.afterTurn id (s.turn (c.isHeard id) e) = { c with sessions } := by
    unfold afterTurn
    split
    · exact ⟨_, rfl⟩
    · exact ⟨c.sessions, rfl⟩
  obtain ⟨sessions, heq⟩ := hafter
  have hsessions : ∀ k, sessions.get? k =
      if k = id then (s.turn (c.isHeard id) e).next?.or (some s) else c.sessions.get? k := by
    intro k
    have hk := congrArg (fun c' : Client => c'.sessions.get? k) heq
    rw [← show _ = sessions.get? k from hk]
    cases s.turn (c.isHeard id) e with
    | goOn s' actions => simp [afterTurn, Session.Turn.next?, Table.get?_put]
    | «over» actions report =>
      by_cases hid : k = id
      · simp [afterTurn, Session.Turn.next?, hid, h]
      · simp [afterTurn, hid]
  have hshown := shown_performAll id s.conn
  rw [heq] at hperforms ⊢
  exact {
    calls := hperforms.calls
    stage := hperforms.stage
    sessions := fun k => by
      rw [hperforms.sessions, Session.any_release_deeds]
      show (if _ then none else sessions.get? k) = _
      rw [hsessions]
      by_cases hid : k = id
      · cases (s.turn (c.isHeard id) e).next? <;> simp [hid]
      · simp [hid]
    pools := hperforms.pools
    finish := hperforms.finish
    shown := fun k => hshown k _ _ }

theorem turned_step (draw : Nat) {c : Client} {e : Event} {id : CallId} {s : Session}
    {stimulus : Session.Stimulus} (h : e.turn? = some (id, stimulus))
    (hs : c.sessions.get? id = some s) :
    Turned id (s.turn (c.isHeard id) stimulus).next? (s.deeds (c.isHeard id) stimulus) c
      (step draw c e) := by
  rw [step_of_turn draw h]
  exact turned_stimulate hs stimulus

def deeds (c : Client) (id : CallId) (e : Event) : List Deed :=
  match e.turn?, c.sessions.get? id with
  | some (k, stimulus), some s => if k = id then s.deeds (c.isHeard id) stimulus else []
  | _, _ => []

/-- All that the session of `id` did, the earliest in front. -/
def log : History → CallId → List Deed
  | [], _ => []
  | r :: earlier, id => log earlier id ++ r.before.deeds id r.event

end Client
end StreamClient
