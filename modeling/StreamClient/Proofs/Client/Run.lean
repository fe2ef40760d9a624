import StreamClient.Proofs.Client.Events

/-! The runs of a client, and what all of them keep. -/

namespace StreamClient.Client

/-- An event, the number that was drawn for it, and the client that it came to. -/
structure Record where
  before : Client
  draw : Nat
  event : Event

def Record.move (r : Record) : Move := step r.draw r.before r.event

abbrev History := List Record

def started (history : History) : List CallId :=
  history.filterMap fun r =>
    match r.event with
    | .start id _ => some id
    | _ => none

theorem mem_started {history : History} {id : CallId} :
    id ∈ started history ↔ ∃ r ∈ history, ∃ op, r.event = .start id op := by
  rw [started, List.mem_filterMap]
  refine exists_congr fun r => and_congr_right fun _ => ?_
  cases r.event <;> simp [eq_comm]

theorem mem_started_cons {history : History} {r : Record} {id : CallId} (h : id ∈ started history) :
    id ∈ started (r :: history) := by
  obtain ⟨r', hr', hop⟩ := mem_started.1 h
  exact mem_started.2 ⟨r', List.mem_cons_of_mem _ hr', hop⟩

theorem started_eq_nil_of_cons {history : History} {r : Record} (h : started (r :: history) = []) :
    started history = [] := by
  refine List.eq_nil_iff_forall_not_mem.2 fun id hid => ?_
  have hid' : id ∈ started (r :: history) := mem_started_cons hid
  rw [h] at hid'
  cases hid'

def opened (history : History) : List Conn := history.flatMap fun r => news r.event

/-- All that the client asked for, the earliest in front. -/
def trail : History → List Effect
  | [] => []
  | r :: earlier => trail earlier ++ r.move.2

theorem mem_trail {history : History} {x : Effect} :
    x ∈ trail history ↔ ∃ r ∈ history, x ∈ r.move.2 := by
  induction history with
  | nil => simp [trail]
  | cons r earlier ih => simp [trail, ih, or_comm]

def Stage.isBuilding : Stage → Bool
  | .probing _ | .linking .connect _ => true
  | _ => false

/-- The condition on the dialer: it never gives a connection twice. The client only receives
connections and tells them apart, so this is for the dialer to keep; every result about the runs of
a client rests on it. -/
def Fresh (history : History) (e : Event) : Prop := ∀ conn ∈ news e, conn ∉ opened history

/-- What the surroundings of a client can bring about. A call has a number of its own; the first one
builds the client, and no other starts before that is over. A dial ends only if it is open, and gives
a fresh connection. -/
def Possible (history : History) (c : Client) : Event → Prop
  | .start id op =>
    id ∉ started history ∧ (op = .connect ↔ started history = []) ∧
      (op ≠ .connect → ∀ e ∈ c.calls.entries, e.2.isBuilding = false)
  | .dialed id r => c.isDialing id = true ∧ Fresh history (.dialed id r)
  | _ => True

theorem Possible.not_start {history : History} {c : Client} {e : Event} {id : CallId}
    (h : Possible history c e) (hid : id ∈ started history) : ∀ op, e ≠ .start id op := by
  rintro op rfl
  exact h.1 hid

theorem Possible.dialing {history : History} {c : Client} {e : Event} {id : CallId}
    (h : Possible history c e) : ∀ r, e = .dialed id r → c.isDialing id = true := by
  rintro r rfl
  exact h.1

/-- The runs of a client that is built with `settings`, whose `keepAlive` is within the range of the
timer queue. Calls may run at the same time and may be given up. -/
inductive Run (settings : Settings) (now : Nat) : History → Client → Prop
  | fresh : Run settings now [] (.fresh settings now)
  | next {history : History} {c : Client} {e : Event} (draw : Nat) :
    Run settings now history c → Possible history c e →
      Run settings now (⟨c, draw, e⟩ :: history) (step draw c e).1

instance (history : History) (c : Client) : (e : Event) → Decidable (Possible history c e)
  | .start id op => inferInstanceAs (Decidable (id ∉ started history ∧
      (op = .connect ↔ started history = []) ∧
        (op ≠ .connect → ∀ e ∈ c.calls.entries, e.2.isBuilding = false)))
  | .dialed id r => inferInstanceAs (Decidable (c.isDialing id = true ∧
      ∀ conn ∈ news (.dialed id r), conn ∉ opened history))
  | .answered .. | .chosen .. | .run _ | .item .. | .ended _ | .unsubscribe _ | .abandon _
  | .lapse _ | .tick _ | .expire => .isTrue trivial

def play : History × Client → List (Nat × Event) → Option (History × Client)
  | s, [] => some s
  | (history, c), (draw, e) :: rest =>
    if Possible history c e then play (⟨c, draw, e⟩ :: history, (step draw c e).1) rest else none

theorem Run.play {settings : Settings} {now : Nat} {events : List (Nat × Event)}
    {s s' : History × Client} (h : Run settings now s.1 s.2) (hp : Client.play s events = some s') :
    Run settings now s'.1 s'.2 := by
  induction events generalizing s with
  | nil =>
    cases hp
    exact h
  | cons e rest ih =>
    rw [Client.play] at hp
    split at hp
    · next hpossible => exact ih (h.next e.1 hpossible) hp
    · cases hp

theorem exists_run {settings : Settings} {now : Nat} {events : List (Nat × Event)}
    {P : History × Client → Prop} [DecidablePred P]
    (h : (Client.play ([], .fresh settings now) events).map (fun s => decide (P s)) = some true) :
    ∃ s, Client.play ([], .fresh settings now) events = some s ∧ Run settings now s.1 s.2 ∧ P s := by
  obtain ⟨s, hs, hp⟩ := Option.map_eq_some_iff.1 h
  exact ⟨s, hs, Run.fresh.play hs, of_decide_eq_true hp⟩

def lone : Topology where
  brokers := [⟨"b1", "a", 1⟩]
  streams := [⟨"s", "s", [{ id := 0, leader := some "b1" }]⟩]

structure Keeps (history : History) (c : Client) : Prop where
  coherent : c.Coherent
  known : ∀ k, (c.calls.get? k).isSome ∨ (c.sessions.get? k).isSome → k ∈ started history
  ledger : ∀ x, c.total x + (closes (trail history)).count x = (opened history).count x
  distinct : (opened history).Nodup
  begun : started history = [] → opened history = []

theorem keeps_fresh (settings : Settings) (now : Nat) : Keeps [] (.fresh settings now) where
  coherent := {
    sound := fun k e hk => by simp [Client.fresh, Link.start] at hk
    fits := fun _ => rfl
    rests := fun k hk => by simp [Client.fresh] at hk
    building := fun k rest hk => by simp [Client.fresh] at hk }
  known k hk := by simp [Client.fresh] at hk
  ledger x := by simp [total, Client.fresh, Link.start, trail, opened]
  distinct := .nil
  begun _ := rfl

section Keeps

variable {history : History} {c : Client}

theorem Keeps.unknown (h : Keeps history c) {id : CallId} (hnew : id ∉ started history) :
    c.calls.get? id = none ∧ c.sessions.get? id = none := by
  have hnot := mt (h.known id) hnew
  simpa [not_or] using hnot

theorem Keeps.call_of_new (h : Keeps history c) {id : CallId} (hnew : id ∉ started history) :
    c.calls.get? id = none := (h.unknown hnew).1

theorem Keeps.untouched (h : Keeps history c) (hs : started history = []) :
    c.link.cached = none ∧ (∀ k, c.calls.get? k = none) ∧ ∀ k, c.sessions.get? k = none := by
  have hunknown (k : CallId) := h.unknown (show k ∉ started history by simp [hs])
  refine ⟨?_, fun k => (hunknown k).1, fun k => (hunknown k).2⟩
  cases hcached : c.link.cached with
  | none => rfl
  | some x =>
    have hx := h.ledger x
    have hpos := total_of_cached hcached
    rw [h.begun hs, List.count_nil] at hx
    omega

theorem Keeps.admits (h : Keeps history c) {e : Event} (hp : Possible history c e) :
    c.Admits e := by
  cases e with
  | start id op =>
    obtain ⟨hnew, hfirst, hbuilt⟩ := hp
    obtain ⟨hcall, hsession⟩ := h.unknown hnew
    refine ⟨hcall, hsession, ?_⟩
    split
    · next hop => exact h.untouched (hfirst.1 hop)
    · next hop =>
      intro k rest hk
      -- the condition on a start is decided on the entries of the table
      have hmem : (k, Stage.probing rest) ∈ c.calls.entries := by
        obtain ⟨l, r, hlr, -⟩ := List.lookup_eq_some_iff.1 hk
        rw [hlr]
        simp
      exact absurd (hbuilt hop _ hmem) (by simp [Stage.isBuilding])
  | dialed id r => exact hp.1
  | _ => trivial

theorem isSome_of_isDialing {id : CallId} (h : c.isDialing id = true) :
    (c.calls.get? id).isSome := by
  cases hs : c.calls.get? id with
  | none => simp [isDialing, hs] at h
  | some stage => rfl

theorem Keeps.next (h : Keeps history c) (draw : Nat) {e : Event} (hp : Possible history c e) :
    Keeps (⟨c, draw, e⟩ :: history) (step draw c e).1 := by
  have hsteps := step_steps draw h.coherent (h.admits hp)
  have hopened : opened (⟨c, draw, e⟩ :: history) = news e ++ opened history := rfl
  have htrail : trail (⟨c, draw, e⟩ :: history) = trail history ++ (step draw c e).2 := rfl
  exact {
    coherent := hsteps.coherent
    known := fun k hk => by
      rcases hsteps.known k hk with hcall | hsession | ⟨op, rfl⟩
      · exact mem_started_cons (h.known k (.inl hcall))
      · exact mem_started_cons (h.known k (.inr hsession))
      · simp [started]
    ledger := fun x => by
      have hx := h.ledger x
      have hx' := hsteps.ledger x
      rw [htrail, closes_append, List.count_append, hopened, List.count_append]
      omega
    distinct := by
      rw [hopened, List.nodup_append]
      refine ⟨?_, h.distinct, fun x hx y hy => ?_⟩
      · unfold news
        split <;> simp
      · cases e with
        | dialed id r =>
          rintro rfl
          exact hp.2 x hx hy
        | _ => simp [news] at hx
    begun := fun hs => by
      have hbefore : started history = [] := started_eq_nil_of_cons hs
      rw [hopened, h.begun hbefore, List.append_nil]
      cases e with
      | dialed id r =>
        -- a dial is open only for a call that was started
        have hid := h.known id (.inl (isSome_of_isDialing hp.1))
        rw [hbefore] at hid
        cases hid
      | _ => rfl }

end Keeps

theorem Run.keeps {settings : Settings} {now : Nat} {history : History} {c : Client}
    (h : Run settings now history c) : Keeps history c := by
  induction h with
  | fresh => exact keeps_fresh settings now
  | next draw _ hp ih => exact ih.next draw hp

theorem not_start_of_new {history : History} {r : Record} {id : CallId}
    (h : id ∉ started (r :: history)) (op : Op) : r.event ≠ .start id op := fun hevent =>
  h (mem_started.2 ⟨r, List.mem_cons_self .., op, hevent⟩)

/-- What holds at first, and every event before the start of a call keeps, holds until then. -/
theorem Run.until_start {settings : Settings} {now : Nat} {history : History} {c : Client}
    {id : CallId} {P : History → Prop} (h : Run settings now history c)
    (hnew : id ∉ started history) (hfresh : P [])
    (hnext : ∀ {earlier : History} {before : Client} {e : Event} (draw : Nat),
      Run settings now earlier before → Possible earlier before e →
        id ∉ started (⟨before, draw, e⟩ :: earlier) → P earlier →
          P (⟨before, draw, e⟩ :: earlier)) : P history := by
  induction h with
  | fresh => exact hfresh
  | next draw hrun hp ih => exact hnext draw hrun hp hnew (ih (mt mem_started_cons hnew))

/-- What a call brings about when it starts, and every event after that keeps, holds from then on. -/
theorem Run.since_start {settings : Settings} {now : Nat} {history : History} {c : Client}
    {id : CallId} {op : Op} {P : History → Client → Prop} (h : Run settings now history c)
    {r : Record} (hr : r ∈ history) (hevent : r.event = .start id op)
    (hstart : ∀ earlier, Run settings now earlier r.before →
      Possible earlier r.before (.start id op) →
        P (⟨r.before, r.draw, .start id op⟩ :: earlier) (step r.draw r.before (.start id op)).1)
    (hnext : ∀ {earlier : History} {before : Client} {e : Event} (draw : Nat),
      Run settings now earlier before → Possible earlier before e → r ∈ earlier →
        id ∈ started earlier → P earlier before →
          P (⟨before, draw, e⟩ :: earlier) (step draw before e).1) : P history c := by
  induction h with
  | fresh => cases hr
  | next draw hrun hp ih =>
    rcases List.mem_cons.1 hr with rfl | hr
    · dsimp only at hevent
      subst hevent
      exact hstart _ hrun hp
    · exact hnext draw hrun hp hr (mem_started.2 ⟨r, hr, op, hevent⟩) (ih hr)

section Suffix

variable {settings : Settings} {now : Nat} {history : History} {c : Client}

theorem Run.unique {c' : Client} (h : Run settings now history c) (h' : Run settings now history c') :
    c = c' := by
  cases h <;> cases h' <;> rfl

theorem Run.of_append {later earlier : History} (h : Run settings now (later ++ earlier) c) :
    ∃ c', Run settings now earlier c' := by
  induction later generalizing c with
  | nil => exact ⟨c, h⟩
  | cons r later ih =>
    cases h with
    | next draw hrun _ => exact ih hrun

theorem Run.of_suffix {r : Record} {earlier : History} (h : Run settings now history c)
    (hsuffix : r :: earlier <:+ history) :
    Run settings now earlier r.before ∧ Possible earlier r.before r.event := by
  obtain ⟨later, rfl⟩ := hsuffix
  obtain ⟨c', hrun⟩ := h.of_append
  cases hrun with
  | next draw hrun' hp => exact ⟨hrun', hp⟩

theorem Run.of_mem {r : Record} (h : Run settings now history c) (hr : r ∈ history) :
    ∃ earlier, Run settings now earlier r.before ∧ Possible earlier r.before r.event := by
  obtain ⟨later, earlier, rfl⟩ := List.append_of_mem hr
  exact ⟨earlier, h.of_suffix ⟨later, rfl⟩⟩

theorem Run.mem_of_started {id : CallId} {op : Op} {r : Record} {later earlier : History}
    (h : Run settings now (later ++ earlier) c) (hr : r ∈ later ++ earlier)
    (hevent : r.event = .start id op) (hid : id ∈ started earlier) : r ∈ earlier := by
  refine (List.mem_append.1 hr).resolve_left fun hlater => ?_
  obtain ⟨after, between, rfl⟩ := List.append_of_mem hlater
  have hsuffix : r :: (between ++ earlier) <:+ (after ++ r :: between) ++ earlier :=
    ⟨after, by simp⟩
  obtain ⟨-, hp⟩ := h.of_suffix hsuffix
  obtain ⟨first, hfirst, hop⟩ := mem_started.1 hid
  rw [hevent] at hp
  exact hp.1 (mem_started.2 ⟨first, List.mem_append_right _ hfirst, hop⟩)

end Suffix

end StreamClient.Client
