import StreamClient.Proofs.Client.Deeds

/-! The story of a session: what it did and what it took from its stream, from its start to its
end. -/

namespace StreamClient

inductive Signal where
  | item (i : Except Fault Message)
  | ended
  deriving DecidableEq

/-- Whether a signal is the last that a subscriber hears of. -/
def Signal.isStop : Signal → Bool
  | .item (.ok _) => false
  | .item (.error _) | .ended => true

inductive Callback where
  | message (m : Message)
  | error (e : CallError)
  deriving DecidableEq

/-- What a subscriber is to be told of the signals that follow on the handshake. -/
def Subscription.feedback (s : Subscription) : List Signal → List Callback
  | [] | .ended :: _ => []
  | .item (.ok m) :: rest => .message m :: s.feedback rest
  | .item (.error f) :: _ =>
    match f.status with
    | .cancelled => []
    | .notFound => [.error (.streamDeleted s.stream s.partition f)]
    | .failedPrecondition => [.error (.partitionPaused s.stream s.partition f)]
    | _ => [.error (.rpc f)]

theorem Subscription.feedback_messages (s : Subscription) (messages : List Message)
    (rest : List Signal) : s.feedback (messages.map (fun m => .item (.ok m)) ++ rest) =
      messages.map .message ++ s.feedback rest := by
  induction messages with
  | nil => rfl
  | cons m messages ih => simp [feedback, ih]

theorem Subscription.feedback_append (s : Subscription) {signals : List Signal}
    (h : ∃ x ∈ signals, x.isStop = true) (rest : List Signal) :
    s.feedback (signals ++ rest) = s.feedback signals := by
  induction signals with
  | nil => simp at h
  | cons x signals ih =>
    cases x with
    | ended => rfl
    | item i =>
      cases i with
      | error f => rfl
      | ok m =>
        have hrest : ∃ x ∈ signals, x.isStop = true := by simpa [Signal.isStop] using h
        simp only [List.cons_append, feedback, ih hrest]

namespace Session

def hasStream (s : Session) : Bool :=
  match s.phase with
  | .fresh | .opening => false
  | .greeting | .streaming => true

/-- What a turn takes from the stream: a session that was cancelled takes nothing more. -/
def takes (s : Session) : Stimulus → List Signal
  | .item i => if s.hasStream && !s.cancelled then [.item i] else []
  | .ended => if s.hasStream && !s.cancelled then [.ended] else []
  | .wake | .replied _ => []

inductive Goes (heard : Bool) (s : Session) : Stimulus → Session → List Deed → List Signal → Prop
  | asks : s.phase = .fresh →
    Goes heard s .wake { s with phase := .opening } [.act (.ask s.subscription)] []
  | opens (u : Unit) : s.phase = .opening →
    Goes heard s (.replied (.ok u)) { s with phase := .greeting } [.opened] []
  | greets (m : Message) : s.phase = .greeting → heard = true →
    Goes heard s (.item (.ok m)) { s with phase := .streaming } [.act (.greet (.ok ()))]
      [.item (.ok m)]
  | delivers (m : Message) : s.phase = .streaming →
    Goes heard s (.item (.ok m)) s [.act (.deliver m)] [.item (.ok m)]
  | ignores (e : Stimulus) : Goes heard s e s [] []

/-- The ways in which a session ends, with its last acts, what it reports and what it took. -/
inductive Ends (s : Session) :
    Stimulus → List Action → Option CallError → List Signal → Prop
  | cancelled (e : Stimulus) : s.cancelled = true → Ends s e s.leftovers none []
  | refused (f : Fault) : s.phase = .opening →
    Ends s (.replied (.error f)) [.greet (.error f)] none []
  | unheard (m : Message) : s.phase = .greeting →
    Ends s (.item (.ok m)) [.dropStream] none [.item (.ok m)]
  | rejected (f : Fault) : s.phase = .greeting →
    Ends s (.item (.error f)) [.greet (.error f), .dropStream] none [.item (.error f)]
  | endedEarly : s.phase = .greeting →
    Ends s .ended [.greet (.error Session.endedEarly), .dropStream] none [.ended]
  | fails (f : Fault) : s.phase = .streaming →
    Ends s (.item (.error f)) [.dropStream] (s.failure f) [.item (.error f)]
  | completes : s.phase = .streaming → Ends s .ended [.dropStream] none [.ended]

section Turns

variable {s : Session} {heard : Bool} {e : Stimulus} {actions : List Action}

theorem goes_of_turn {s' : Session} (h : s.turn heard e = .goOn s' actions) :
    s.cancelled = false ∧ Goes heard s e s' (s.deeds heard e) (s.takes e) := by
  simp only [deeds, h]
  cases hc : s.cancelled with
  | true => simp [turn, hc] at h
  | false =>
    refine ⟨rfl, ?_⟩
    simp only [turn, hc, Bool.false_eq_true, if_false] at h
    split at h
    · next hp =>
      cases h
      simpa [takes, hp, hc] using Goes.asks hp
    · next u hp =>
      cases h
      simpa [takes, hp, hc] using Goes.opens u hp
    · cases h
    · next m hp =>
      split at h
      · next hheard =>
        cases h
        simpa [takes, hasStream, hp, hc] using Goes.greets m hp hheard
      · cases h
    · cases h
    · cases h
    · next m hp =>
      cases h
      simpa [takes, hasStream, hp, hc] using Goes.delivers m hp
    · cases h
    · cases h
    -- what does not fit the phase is ignored
    · next e phase e' h₁ h₂ h₃ h₄ h₅ h₆ h₇ h₈ h₉ =>
      cases h
      have htakes : s.takes e = [] := by
        rcases e with _ | _ | (f | m) | _ <;> cases hp : s.phase <;> simp_all [takes, hasStream]
      have hphase : ¬ (s.phase = .opening ∧ s.phase = .greeting) := by
        rintro ⟨hp, hp'⟩
        rw [hp] at hp'
        cases hp'
      simpa [htakes, hphase] using Goes.ignores e

theorem ends_of_turn {report : Option CallError} (h : s.turn heard e = .over actions report) :
    s.deeds heard e = actions.map .act ++ s.farewell report ∧
      Ends s e actions report (s.takes e) := by
  refine ⟨by simp only [deeds, h], ?_⟩
  cases hc : s.cancelled with
  | true =>
    simp only [turn, hc, if_true] at h
    cases h
    have htakes : s.takes e = [] := by
      cases e <;> simp [takes, hc]
    rw [htakes]
    exact .cancelled e hc
  | false =>
    simp only [turn, hc, Bool.false_eq_true, if_false] at h
    split at h
    · cases h
    · cases h
    · next f hp =>
      cases h
      exact .refused f hp
    · next m hp =>
      split at h
      · cases h
      · cases h
        simpa [takes, hasStream, hp, hc] using Ends.unheard m hp
    · next f hp =>
      cases h
      simpa [takes, hasStream, hp, hc] using Ends.rejected f hp
    · next hp =>
      cases h
      simpa [takes, hasStream, hp, hc] using Ends.endedEarly hp
    · cases h
    · next f hp =>
      cases h
      simpa [takes, hasStream, hp, hc] using Ends.fails f hp
    · next hp =>
      cases h
      simpa [takes, hasStream, hp, hc] using Ends.completes hp
    · cases h

theorem waits_of_goOn {s' : Session} (h : s.turn heard e = .goOn s' actions)
    (hs : s'.phase = .fresh ∨ s'.cancelled = true) : s.phase = .fresh ∧ e ≠ .wake := by
  obtain ⟨hc, hgoes⟩ := goes_of_turn h
  generalize s.deeds heard e = deeds at hgoes
  generalize s.takes e = signals at hgoes
  cases hgoes with
  | asks hp => simp [hc] at hs
  | opens u hp => simp [hc] at hs
  | greets m hp hh => simp [hc] at hs
  | delivers m hp => simp [hc, hp] at hs
  | ignores =>
    have hp : s.phase = .fresh := by simpa [hc] using hs
    refine ⟨hp, ?_⟩
    rintro rfl
    simp only [turn, hc, hp, Bool.false_eq_true, if_false] at h
    have hphase := congrArg Session.phase (Turn.goOn.inj h).1
    rw [hp] at hphase
    cases hphase

end Turns

/-- What a session that runs did and took. -/
inductive Story (s : Session) : List Deed → List Signal → Prop
  | fresh : s.phase = .fresh → Story s [] []
  | opening : s.phase = .opening → Story s [.act (.ask s.subscription)] []
  | greeting : s.phase = .greeting → Story s [.act (.ask s.subscription), .opened] []
  | streaming (first : Message) (messages : List Message) : s.phase = .streaming →
    Story s ([.act (.ask s.subscription), .opened, .act (.greet (.ok ()))] ++
        messages.map fun m => .act (.deliver m))
      (.item (.ok first) :: messages.map fun m => .item (.ok m))

def Deed.keepsOpen (isOpen : Bool) : Deed → Bool
  | .opened => true
  | .act .dropStream => false
  | _ => isOpen

def streamOpen (log : List Deed) : Bool := log.foldl Deed.keepsOpen false

def Deed.callback? : Deed → Option Callback
  | .act (.deliver m) => some (.message m)
  | .report e => some (.error e)
  | _ => none

def callbacks (log : List Deed) : List Callback := log.filterMap Deed.callback?

def Deed.release? : Deed → Option (Address × Conn)
  | .release address conn => some (address, conn)
  | _ => none

def releases (log : List Deed) : List (Address × Conn) := log.filterMap Deed.release?

def Deed.isLast : Deed → Bool
  | .release .. | .report _ | .terminated => true
  | .act _ | .opened => false

section Story

variable {s : Session} {log : List Deed} {taken : List Signal} {heard : Bool} {e : Stimulus}

theorem Story.goes {s' : Session} {deeds : List Deed} {signals : List Signal}
    (h : s.Story log taken) (hg : Goes heard s e s' deeds signals) :
    s'.Story (log ++ deeds) (taken ++ signals) := by
  cases hg with
  | asks hp =>
    cases h with
    | fresh => exact .opening rfl
    | opening hp' | greeting hp' | streaming _ _ hp' => cases hp.symm.trans hp'
  | opens u hp =>
    cases h with
    | opening => exact .greeting rfl
    | fresh hp' | greeting hp' | streaming _ _ hp' => cases hp.symm.trans hp'
  | greets m hp =>
    cases h with
    | greeting => exact .streaming m [] rfl
    | fresh hp' | opening hp' | streaming _ _ hp' => cases hp.symm.trans hp'
  | delivers m hp =>
    cases h with
    | streaming first messages =>
      have hnext := Story.streaming first (messages ++ [m]) hp
      simpa using hnext
    | fresh hp' | opening hp' | greeting hp' => cases hp.symm.trans hp'
  | ignores =>
    rw [List.append_nil, List.append_nil]
    exact h

theorem Goes.keeps {s' : Session} {deeds : List Deed} {signals : List Signal}
    (h : Goes heard s e s' deeds signals) : s'.subscription = s.subscription ∧ s'.pool = s.pool ∧
      s'.conn = s.conn ∧ s'.cancelled = s.cancelled := by
  cases h <;> exact ⟨rfl, rfl, rfl, rfl⟩

theorem Story.streamOpen (h : s.Story log taken) : Session.streamOpen log = s.hasStream := by
  cases h with
  | streaming first messages hp =>
    rw [Session.streamOpen, List.foldl_append, List.foldl_map, hasStream, hp]
    -- a delivery leaves the stream as it is
    induction messages with
    | nil => rfl
    | cons m rest ih => exact ih
  | _ hp => rw [hasStream, hp]; rfl

theorem Story.notLast (h : s.Story log taken) : ∀ d ∈ log, d.isLast = false := by
  cases h <;> simp [Deed.isLast]

theorem Story.notLast_acts (h : s.Story log taken) (actions : List Action) :
    ∀ d ∈ log ++ actions.map .act, d.isLast = false := by
  intro d hd
  rcases List.mem_append.1 hd with hd | hd
  · exact h.notLast d hd
  · obtain ⟨a, -, rfl⟩ := List.mem_map.1 hd
    rfl

theorem Story.notStop (h : s.Story log taken) : ∀ x ∈ taken, x.isStop = false := by
  cases h <;> simp [Signal.isStop]

theorem Story.callbacks (h : s.Story log taken) :
    Session.callbacks log = s.subscription.feedback taken.tail := by
  cases h with
  | streaming first messages hp =>
    have hfeedback := s.subscription.feedback_messages messages []
    rw [List.append_nil] at hfeedback
    rw [List.tail_cons, hfeedback, Session.callbacks, List.filterMap_append, List.filterMap_map]
    simp [Deed.callback?, Subscription.feedback, Function.comp_def]
  | _ => rfl

theorem Story.closed {actions : List Action} {report : Option CallError} {signals : List Signal}
    (h : s.Story log taken) (he : Ends s e actions report signals) :
    Session.streamOpen (log ++ actions.map .act) = false := by
  rw [Session.streamOpen, List.foldl_append, ← Session.streamOpen, h.streamOpen, hasStream]
  cases he with
  | cancelled =>
    rw [leftovers]
    cases s.phase <;> rfl
  | refused f hp => rw [hp]; rfl
  | _ => rfl

theorem feedback_error (s : Session) (f : Fault) :
    s.subscription.feedback [.item (.error f)] = (s.failure f).toList.map .error := by
  rw [failure, CallError.ofDelivery, Subscription.feedback]
  cases f.status <;> rfl

theorem Story.callbacks_end {actions : List Action} {report : Option CallError}
    {signals : List Signal} (h : s.Story log taken) (he : Ends s e actions report signals) :
    Session.callbacks (log ++ (actions.map .act ++ s.farewell report)) =
      s.subscription.feedback (taken ++ signals).tail := by
  have hfarewell : Session.callbacks (s.farewell report) = report.toList.map .error := by
    cases report <;> rfl
  have hsplit : Session.callbacks (log ++ (actions.map .act ++ s.farewell report)) =
      s.subscription.feedback taken.tail ++
        (Session.callbacks (actions.map .act) ++ report.toList.map .error) := by
    rw [← hfarewell, ← h.callbacks, Session.callbacks, Session.callbacks, Session.callbacks,
      Session.callbacks, List.filterMap_append, List.filterMap_append]
  rw [hsplit]
  cases he with
  | cancelled =>
    have hsilent : Session.callbacks (s.leftovers.map .act) = [] := by
      rw [leftovers]
      cases s.phase <;> rfl
    simp [hsilent]
  | refused f hp | unheard m hp | rejected f hp | endedEarly hp =>
    -- the handshake is not told
    cases h with
    | streaming _ _ hp' => cases hp.symm.trans hp'
    | _ => rfl
  | completes hp =>
    cases h with
    | streaming first messages =>
      have hdone := s.subscription.feedback_messages messages [.ended]
      have hrest := s.subscription.feedback_messages messages []
      simp_all [Session.callbacks, Deed.callback?, Subscription.feedback]
    | fresh hp' | opening hp' | greeting hp' => cases hp.symm.trans hp'
  | fails f hp =>
    cases h with
    | streaming first messages =>
      have hfailed := s.subscription.feedback_messages messages [.item (.error f)]
      have hrest := s.subscription.feedback_messages messages []
      rw [feedback_error] at hfailed
      simp_all [Session.callbacks, Deed.callback?, Subscription.feedback]
    | fresh hp' | opening hp' | greeting hp' => cases hp.symm.trans hp'

theorem Story.stop_of_end {actions : List Action} {report : Option CallError}
    {signals : List Signal} (h : s.Story log taken) (he : Ends s e actions report signals)
    (hc : s.cancelled = false)
    (ha : .act (.greet (.ok ())) ∈ log ++ (actions.map .act ++ s.farewell report)) :
    ∃ x ∈ (taken ++ signals).tail, x.isStop = true := by
  have hlast : ∀ report, Deed.act (.greet (.ok ())) ∉ s.farewell report := by
    intro report
    simp [farewell]
  have hlog : .act (.greet (.ok ())) ∈ log := by
    refine (List.mem_append.1 ha).resolve_right fun hmem => ?_
    rcases List.mem_append.1 hmem with hmem | hmem
    · cases he <;> simp_all
    · exact hlast report hmem
  -- it was greeted before its last turn, so it streams
  cases h with
  | streaming first messages hp =>
    cases he with
    | cancelled _ hc' => simp [hc] at hc'
    | fails f => exact ⟨.item (.error f), by simp, rfl⟩
    | completes => exact ⟨.ended, by simp, rfl⟩
    | refused _ hp' | unheard _ hp' | rejected _ hp' | endedEarly hp' => cases hp.symm.trans hp'
  | _ => simp at hlog

end Story

/-- Where a session stands: on which connection it was started, if it was, and what came of it.
`quit` is known of one that was cancelled. -/
inductive Stands (sub : Subscription) (quit : Prop) :
    List (Address × Conn) → List Deed → List Signal → Option Session → Prop
  | unborn : Stands sub quit [] [] [] none
  | running {s : Session} {log : List Deed} {taken : List Signal} : s.subscription = sub →
    (s.cancelled = true → quit) → s.Story log taken →
      Stands sub quit [(s.pool, s.conn)] log taken (some s)
  | ended {s : Session} {log : List Deed} {taken : List Signal} {e : Stimulus}
    {actions : List Action} {report : Option CallError} {signals : List Signal} :
    s.subscription = sub → (s.cancelled = true → quit) → s.Story log taken →
      Ends s e actions report signals → Stands sub quit [(s.pool, s.conn)]
        (log ++ (actions.map .act ++ s.farewell report)) (taken ++ signals) none

section Stands

variable {sub : Subscription} {quit : Prop} {acquired : List (Address × Conn)} {log : List Deed}
  {taken : List Signal} {s : Session}

theorem Stands.mono {quit' : Prop} {s? : Option Session} (h : Stands sub quit acquired log taken s?)
    (hq : quit → quit') : Stands sub quit' acquired log taken s? := by
  cases h with
  | unborn => exact .unborn
  | running hsub hc hstory => exact .running hsub (fun hs => hq (hc hs)) hstory
  | ended hsub hc hstory he => exact .ended hsub (fun hs => hq (hc hs)) hstory he

theorem Stands.turn (h : Stands sub quit acquired log taken (some s)) (heard : Bool)
    (e : Stimulus) :
    Stands sub quit acquired (log ++ s.deeds heard e) (taken ++ s.takes e)
      (s.turn heard e).next? := by
  cases h with
  | running hsub hquit hstory =>
    cases ht : s.turn heard e with
    | goOn s' actions =>
      obtain ⟨hc, hgoes⟩ := goes_of_turn ht
      obtain ⟨hsub', hpool, hconn, hc'⟩ := hgoes.keeps
      rw [← hpool, ← hconn]
      exact .running (hsub'.trans hsub) (fun h' => hquit (hc'.symm.trans h')) (hstory.goes hgoes)
    | «over» actions report =>
      obtain ⟨hdeeds, hends⟩ := ends_of_turn ht
      rw [hdeeds]
      exact .ended hsub hquit hstory hends

theorem Stands.cancel (h : Stands sub quit acquired log taken (some s)) {quit' : Prop}
    (hq : quit') :
    Stands sub quit' acquired log taken (some { s with cancelled := true }) := by
  cases h with
  | running hsub hquit hstory =>
    have hstory' : Story { s with cancelled := true } log taken := by
      cases hstory with
      | fresh hp => exact .fresh hp
      | opening hp => exact .opening hp
      | greeting hp => exact .greeting hp
      | streaming first messages hp => exact .streaming first messages hp
    exact .running (s := { s with cancelled := true }) hsub (fun _ => hq) hstory'

theorem Stands.acquired_eq (h : Stands sub quit acquired log taken (some s)) :
    acquired = [(s.pool, s.conn)] := by
  cases h
  rfl

theorem Stands.length_le {s? : Option Session} (h : Stands sub quit acquired log taken s?) :
    acquired.length ≤ 1 := by
  cases h with
  | unborn => exact Nat.zero_le 1
  | _ => exact Nat.le_refl 1

theorem Stands.eq_unborn {s? : Option Session} (h : Stands sub quit [] log taken s?) :
    log = [] ∧ taken = [] ∧ s? = none := by
  cases h
  exact ⟨rfl, rfl, rfl⟩

theorem Stands.notLast (h : Stands sub quit acquired log taken (some s)) :
    ∀ d ∈ log, d.isLast = false := by
  cases h with
  | running _ _ hstory => exact hstory.notLast

theorem Stands.terminated_iff {s? : Option Session} (h : Stands sub quit acquired log taken s?) :
    .terminated ∈ log ↔ acquired ≠ [] ∧ s? = none := by
  cases h with
  | unborn => simp
  | running _ _ hstory => simpa using fun hd => by simpa [Deed.isLast] using hstory.notLast _ hd
  | ended => simp [Session.farewell]

theorem Stands.farewell (h : Stands sub quit acquired log taken none) {address : Address}
    {conn : Conn} (ha : (address, conn) ∈ acquired) :
    ∃ before report, log = before ++ .release address conn ::
        (Option.toList report).map .report ++ [.terminated] ∧
      streamOpen before = false ∧ ∀ d ∈ before, d.isLast = false := by
  cases h with
  | unborn => simp at ha
  | @ended s log taken e actions report signals hsub hquit hstory hends =>
    obtain ⟨rfl, rfl⟩ : address = s.pool ∧ conn = s.conn := by simpa using ha
    exact ⟨log ++ actions.map .act, report, by simp [Session.farewell], hstory.closed hends,
      hstory.notLast_acts actions⟩

theorem releases_eq_nil {log : List Deed} (h : ∀ d ∈ log, d.isLast = false) :
    releases log = [] := by
  refine List.filterMap_eq_nil_iff.2 fun d hd => ?_
  have hlast := h d hd
  cases d with
  | release => cases hlast
  | _ => rfl

theorem Stands.of_opened (h : Stands sub quit acquired log taken (some s)) (ho : .opened ∈ log) :
    s.hasStream = true ∧ ∀ x ∈ taken, x.isStop = false := by
  cases h with
  | running _ _ hstory =>
    refine ⟨?_, hstory.notStop⟩
    cases hstory with
    | fresh | opening => simp at ho
    | greeting hp | streaming _ _ hp => rw [hasStream, hp]

theorem Stands.releases {s? : Option Session} (h : Stands sub quit acquired log taken s?) :
    Session.releases log = if s?.isSome then [] else acquired := by
  cases h with
  | unborn => rfl
  | running _ _ hstory => exact releases_eq_nil hstory.notLast
  | @ended s log taken e actions report signals hsub hquit hstory hends =>
    have hbefore : Session.releases (log ++ actions.map .act) = [] :=
      releases_eq_nil (hstory.notLast_acts actions)
    rw [← List.append_assoc, Session.releases, List.filterMap_append, ← Session.releases, hbefore]
    cases report <;> rfl

theorem Stands.streamOpen {s? : Option Session} (h : Stands sub quit acquired log taken s?)
    (ho : Session.streamOpen log = true) :
    ∃ s, s? = some s ∧ s.hasStream = true ∧ acquired = [(s.pool, s.conn)] := by
  cases h with
  | unborn => cases ho
  | running _ _ hstory => exact ⟨_, rfl, hstory.streamOpen.symm.trans ho, rfl⟩
  | @ended s log taken e actions report signals hsub hquit hstory hends =>
    have hclosed := hstory.closed hends
    have hfarewell : Session.streamOpen (log ++ (actions.map .act ++ s.farewell report)) =
        Session.streamOpen (log ++ actions.map .act) := by
      rw [← List.append_assoc, Session.streamOpen, List.foldl_append]
      cases report <;> rfl
    rw [hfarewell, hclosed] at ho
    cases ho

theorem Stands.callbacks {s? : Option Session} (h : Stands sub quit acquired log taken s?) :
    Session.callbacks log = sub.feedback taken.tail := by
  cases h with
  | unborn => rfl
  | running hsub _ hstory => exact hsub ▸ hstory.callbacks
  | ended hsub _ hstory hends => exact hsub ▸ hstory.callbacks_end hends

theorem Stands.handshake {s? : Option Session} (h : Stands sub quit acquired log taken s?)
    (ha : .act (.greet (.ok ())) ∈ log) : ∃ first heard, taken = .item (.ok first) :: heard := by
  cases h with
  | unborn => simp at ha
  | running _ _ hstory =>
    cases hstory with
    | streaming first messages => exact ⟨first, _, rfl⟩
    | _ => simp at ha
  | ended hsub hquit hstory hends =>
    cases hstory with
    | streaming first messages => exact ⟨first, _, rfl⟩
    | _ => cases hends <;> simp_all [Session.farewell, leftovers]

theorem Stands.hasStream_of_greeted (h : Stands sub quit acquired log taken (some s))
    (ha : .act (.greet (.ok ())) ∈ log) : s.hasStream = true := by
  cases h with
  | running _ _ hstory =>
    cases hstory with
    | streaming _ _ hp => rw [hasStream, hp]
    | _ => simp at ha

theorem Stands.stopped (h : Stands sub quit acquired log taken none) (hq : ¬ quit)
    (ha : .act (.greet (.ok ())) ∈ log) : ∃ x ∈ taken.tail, x.isStop = true := by
  cases h with
  | unborn => simp at ha
  | @ended s log taken e actions report signals hsub hquit hstory hends =>
    have hc : s.cancelled = false := by
      cases hc : s.cancelled with
      | false => rfl
      | true => exact absurd (hquit hc) hq
    exact hstory.stop_of_end hends hc ha

end Stands

end Session
end StreamClient
