import Mathlib.Data.List.Nodup
import StreamClient.Proofs.Link.Events

/-! The runs of a link on which calls are made, given up and closed at the same time, and what all
of them keep. -/

namespace StreamClient.Link

variable {Q A : Type}

structure Record (Q A : Type) where
  before : Link Q
  pick : Option Address
  event : Event Q A

def Record.turn (r : Record Q A) : Turn Q A := step r.pick r.before r.event

abbrev History (Q A : Type) := List (Record Q A)

def trail : History Q A → List (Order Q)
  | [] => []
  | r :: earlier => trail earlier ++ r.turn.orders

def started (history : History Q A) : List CallId := history.filterMap fun r => r.event.starts?

def opened (initial : Option Conn) : History Q A → List Conn
  | [] => initial.toList
  | r :: earlier => r.event.gain?.toList ++ opened initial earlier

def inFlight : History Q A → List CallId
  | [] => []
  | r :: earlier =>
    (inFlight earlier).filter (fun id => r.event.lands? ≠ some id) ++ dialers r.turn.orders

/-- The connection that the event reports as failed, or that its call waited to report. -/
def Record.reported? (r : Record Q A) : Option Conn :=
  match r.event, r.before.jobs.get? r.event.id with
  | .answered _ result, some (.calling _ c) => if unreached result then some c else none
  | .resume _, some (.retiring _ c) => some c
  | _, _ => none

/-- The condition on the dialer: it never gives a connection twice. Every result about the runs of a
link rests on it. -/
def Fresh (initial : Option Conn) (history : History Q A) (e : Event Q A) : Prop :=
  ∀ c ∈ e.gain?, c ∉ opened initial history

instance (initial : Option Conn) (history : History Q A) (e : Event Q A) :
    Decidable (Fresh initial history e) :=
  inferInstanceAs (Decidable (∀ c ∈ e.gain?, c ∉ opened initial history))

/-- What the surroundings of the link can bring about: calls have numbers of their own, a dial ends
only in flight, and gives a fresh connection. -/
def Possible (initial : Option Conn) (history : History Q A) (e : Event Q A) : Prop :=
  (∀ id ∈ e.starts?, id ∉ started history) ∧ Fresh initial history e ∧
    match e with
    | .dialed id _ => id ∈ inFlight history
    | _ => True

/-- The runs of a link that makes so many attempts and begins with `initial` cached. -/
inductive Run (attempts : Nat) (initial : Option Conn) : History Q A → Link Q → Prop
  | start : Run attempts initial [] { start attempts with cached := initial }
  | next {history : History Q A} {l : Link Q} {e : Event Q A} (pick : Option Address) :
    Run attempts initial history l → Possible initial history e →
      Run attempts initial (⟨l, pick, e⟩ :: history) (step pick l e : Turn Q A).link

instance (initial : Option Conn) (history : History Q A) :
    (e : Event Q A) → Decidable (Possible initial history e)
  | .submit .. | .shut _ | .resume _ | .dialed .. | .answered .. | .abandon _ =>
    inferInstanceAs (Decidable (_ ∧ _ ∧ _))

def play (initial : Option Conn) :
    History Q A × Link Q → List (Option Address × Event Q A) → Option (History Q A × Link Q)
  | s, [] => some s
  | (history, l), (pick, e) :: rest =>
    if Possible initial history e then
      play initial (⟨l, pick, e⟩ :: history, (step pick l e).link) rest
    else none

theorem Run.play {n : Nat} {initial : Option Conn} {events : List (Option Address × Event Q A)}
    {s s' : History Q A × Link Q} (h : Run n initial s.1 s.2)
    (hp : Link.play initial s events = some s') : Run n initial s'.1 s'.2 := by
  induction events generalizing s with
  | nil =>
    cases hp
    exact h
  | cons e rest ih =>
    rw [Link.play] at hp
    split at hp
    · next hpossible => exact ih (h.next e.1 hpossible) hp
    · cases hp

structure Keeps (n : Nat) (initial : Option Conn) (history : History Q A) (l : Link Q) :
    Prop where
  sound : l.Sound
  attempts : l.attempts = max n 1
  failing : ∀ k j e, l.jobs.get? k = some j → j.errand? = some e →
    ∀ f ∈ e.last, f.isUnavailable = true
  fresh : ∀ k, k ∉ started history → l.jobs.get? k = none
  ledger : ∀ x, l.cached.toList.count x + (closed (trail history)).count x =
    (opened initial history).count x
  distinct : (opened initial history).Nodup
  known : ∀ k e x, l.jobs.get? k = some (.calling e x) ∨ l.jobs.get? k = some (.retiring e x) →
    x ∈ opened initial history
  flying : ∀ k, (inFlight history).count k = l.worth Job.dials k
  dials : ∀ k, (dialers (trail history)).count k + l.worth Job.dialsLeft k ≤
    if k ∈ started history then max n 1 else 0
  calls : ∀ k, (callers (trail history)).count k + l.worth Job.callsLeft k ≤
    if k ∈ started history then max n 1 else 0
  stale : ∀ r ∈ history, ∀ x, r.reported? = some x → r.before.cached ≠ some x →
    x ∈ opened initial history ∧ l.cached ≠ some x

theorem keeps_start (n : Nat) (initial : Option Conn) :
    Keeps n initial ([] : History Q A) { start n with cached := initial } where
  sound k e hk := by simp [start] at hk
  attempts := rfl
  failing k j e hk := by simp [start] at hk
  fresh k _ := rfl
  ledger x := by simp [trail, opened]
  distinct := by cases initial <;> simp [opened]
  known k e x hk := by simp [start] at hk
  flying k := rfl
  dials k := by simp [trail, dialers, worth, start]
  calls k := by simp [trail, callers, worth, start]
  stale r hr := by cases hr

section Keeps

variable {n : Nat} {initial : Option Conn} {history : History Q A} {l : Link Q}
  {e : Event Q A} {pick : Option Address}

theorem Keeps.dialing (h : Keeps n initial history l) {k : CallId} (hk : k ∈ inFlight history) :
    ∃ e', l.jobs.get? k = some (.dialing e') := by
  have hpos : 0 < l.worth Job.dials k := by
    rw [← h.flying k]
    exact List.count_pos_iff.2 hk
  cases hj : l.jobs.get? k with
  | none => simp [worth_of_none hj] at hpos
  | some j =>
    cases j with
    | dialing e' => exact ⟨e', rfl⟩
    | _ => simp [worth_of_some hj, Job.dials] at hpos

theorem Keeps.admits (h : Keeps n initial history l) (hp : Possible initial history e) :
    Admits l e where
  sound := h.sound
  failing := h.failing
  starts id hid := h.fresh id (hp.1 id hid)
  dialed id r he := by
    subst he
    exact h.dialing hp.2.2

theorem opened_mono {x : Conn} (hx : x ∈ opened initial history) :
    x ∈ opened initial (⟨l, pick, e⟩ :: history) := List.mem_append_right _ hx

theorem mem_started {k : CallId} : k ∈ started (⟨l, pick, e⟩ :: history) ↔
    e.starts? = some k ∨ k ∈ started history := by
  simp [started, List.mem_filterMap]

theorem Keeps.granted (h : Keeps n initial history l) (hp : Possible initial history e)
    (pick : Option Address) (k : CallId) :
    (if k ∈ started history then max n 1 else 0) + l.grant e k ≤
      if k ∈ started (⟨l, pick, e⟩ :: history) then max n 1 else 0 := by
  have hnone (hg : l.grant e k = 0) :
      (if k ∈ started history then max n 1 else 0) + l.grant e k ≤
        if k ∈ started (⟨l, pick, e⟩ :: history) then max n 1 else 0 := by
    rw [hg]
    by_cases hk : k ∈ started history
    · simp [hk, mem_started]
    · simp [hk]
  cases e with
  | submit id q =>
    by_cases hk : k = id
    · subst hk
      have hnew : k ∉ started history := hp.1 k rfl
      simp [hnew, mem_started, Event.starts?, grant, h.attempts]
    · exact hnone (by simp [grant, hk])
  | _ => exact hnone rfl

theorem Keeps.known_of_reported (h : Keeps n initial history l) {x : Conn}
    (hr : (⟨l, pick, e⟩ : Record Q A).reported? = some x) : x ∈ opened initial history := by
  simp only [Record.reported?] at hr
  split at hr
  · next e' c hj =>
    split at hr
    · obtain rfl := Option.some.inj hr
      exact h.known _ e' c (.inl hj)
    · cases hr
  · next e' c hj =>
    obtain rfl := Option.some.inj hr
    exact h.known _ e' c (.inr hj)
  · cases hr

theorem Keeps.opened_of_cached (h : Keeps n initial history l) {x : Conn}
    (hx : l.cached = some x) : x ∈ opened initial history := by
  have hledger := h.ledger x
  rw [hx, Option.toList_some, List.count_singleton_self] at hledger
  exact List.count_pos_iff.1 (by omega)

/-- A connection that was there and is not cached is not cached by the next event either: it
cannot be dialed again. -/
theorem Keeps.not_cached_again (h : Keeps n initial history l) (hp : Possible initial history e)
    {x : Conn} (hx : x ∈ opened initial history) (hc : l.cached ≠ some x) :
    (step pick l e : Turn Q A).link.cached ≠ some x := by
  obtain ⟨cause, hlink, hdialed, -⟩ := (step_steps pick (h.admits hp)).evolves
  intro hx'
  rcases hlink.gained x hx' with hold | hnew
  · exact hc hold
  · exact hp.2.1 x (hdialed x hnew) hx

theorem Keeps.fresh_next (h : Keeps n initial history l) (hp : Possible initial history e)
    {k : CallId} (hk : k ∉ started (⟨l, pick, e⟩ :: history)) :
    (step pick l e : Turn Q A).link.jobs.get? k = none := by
  obtain ⟨cause, hlink, -, -⟩ := (step_steps pick (h.admits hp)).evolves
  obtain ⟨hstarts, hbefore⟩ := not_or.1 (mt mem_started.2 hk)
  by_cases hid : k = e.id
  · subst hid
    refine job_of_unknown pick (h.fresh _ hbefore) ?_
    cases he : e.starts? with
    | none => rfl
    | some k => exact absurd (Event.starts?_eq he ▸ he) hstarts
  · rw [hlink.others k hid]
    exact h.fresh k hbefore

theorem Keeps.known_next (h : Keeps n initial history l) (hp : Possible initial history e)
    {k : CallId} {e' : Errand Q} {x : Conn}
    (hj : (step pick l e : Turn Q A).link.jobs.get? k = some (.calling e' x) ∨
      (step pick l e : Turn Q A).link.jobs.get? k = some (.retiring e' x)) :
    x ∈ opened initial (⟨l, pick, e⟩ :: history) := by
  obtain ⟨cause, hlink, hdialed, hfailed⟩ := (step_steps pick (h.admits hp)).evolves
  by_cases hk : k = e.id
  · subst hk
    rcases hj with hj | hj
    · rcases hlink.calling e' x hj with hcached | hnew | ⟨e'', hbefore⟩
      · exact opened_mono (h.opened_of_cached hcached)
      · simp [opened, hdialed x hnew]
      · exact opened_mono (h.known _ e'' x (.inl hbefore))
    · rcases hlink.retiring e' x hj with hf | ⟨e'', hbefore⟩
      · obtain ⟨e'', hbefore⟩ := hfailed x hf
        exact opened_mono (h.known _ e'' x (.inl hbefore))
      · exact opened_mono (h.known _ e'' x (.inr hbefore))
  · rw [hlink.others k hk] at hj
    exact opened_mono (h.known k e' x hj)

theorem Keeps.next (h : Keeps n initial history l) (hp : Possible initial history e) :
    Keeps n initial (⟨l, pick, e⟩ :: history) (step pick l e : Turn Q A).link := by
  have hsteps := step_steps pick (h.admits hp)
  obtain ⟨cause, hlink, -, -⟩ := hsteps.evolves
  have htrail : trail (⟨l, pick, e⟩ :: history) = trail history ++ (step pick l e).orders := rfl
  have hopened : opened initial (⟨l, pick, e⟩ :: history) =
      e.gain?.toList ++ opened initial history := rfl
  exact {
    sound := hsteps.sound
    attempts := hsteps.attempts.trans h.attempts
    failing := fun k j e' hj => by
      by_cases hk : k = e.id
      · exact hsteps.failing j e' (hk ▸ hj)
      · rw [hlink.others k hk] at hj
        exact h.failing k j e' hj
    fresh := fun k hk => h.fresh_next hp hk
    ledger := fun x => by
      have hx := h.ledger x
      have hx' := hsteps.ledger x
      rw [htrail, closed_append, List.count_append, hopened, List.count_append]
      omega
    distinct := by
      rw [hopened, List.nodup_append]
      refine ⟨by cases e.gain? <;> simp, h.distinct, fun x hx y hy hxy => ?_⟩
      exact hp.2.1 x (Option.mem_toList.1 hx) (hxy ▸ hy)
    known := fun k e' x hj => h.known_next hp hj
    flying := fun k => by
      have hk := hsteps.flying k
      have hk' := h.flying k
      rw [inFlight, List.count_append, ← hk]
      congr 1
      split
      · next hl => simp [List.count_eq_zero, hl]
      · next hl => rw [← hk', List.count_filter (by simpa using hl)]
    dials := fun k => by
      have hk := hsteps.dials k
      have hk' := h.dials k
      have hg := h.granted hp pick k
      rw [htrail, dialers, List.filterMap_append, List.count_append, ← dialers, ← dialers]
      omega
    calls := fun k => by
      have hk := hsteps.calls k
      have hk' := h.calls k
      have hg := h.granted hp pick k
      rw [htrail, callers, List.filterMap_append, List.count_append, ← callers, ← callers]
      omega
    stale := fun r hr x hx hc => by
      rcases List.mem_cons.1 hr with rfl | hr
      · have hknown := h.known_of_reported hx
        exact ⟨opened_mono hknown, h.not_cached_again hp hknown hc⟩
      · obtain ⟨hknown, hc'⟩ := h.stale r hr x hx hc
        exact ⟨opened_mono hknown, h.not_cached_again hp hknown hc'⟩ }

end Keeps

section Run

variable {n : Nat} {initial : Option Conn} {history : History Q A} {l : Link Q}

theorem Run.keeps (h : Run n initial history l) : Keeps n initial history l := by
  induction h with
  | start => exact keeps_start n initial
  | next pick _ hp ih => exact ih.next hp

theorem Run.before (h : Run n initial history l) {r : Record Q A} (hr : r ∈ history) :
    ∃ earlier : History Q A, Run n initial earlier r.before := by
  induction h with
  | start => cases hr
  | @next history l e pick hrun hp ih =>
    rcases List.mem_cons.1 hr with rfl | hr
    · exact ⟨history, hrun⟩
    · exact ih hr

theorem Keeps.inFlight_le (h : Keeps n initial history l) : (inFlight history).length ≤ 1 := by
  match hf : inFlight history with
  | [] => exact Nat.zero_le 1
  | [_] => exact Nat.le_refl 1
  | a :: b :: rest =>
    obtain ⟨e, ha⟩ := h.dialing (k := a) (by simp [hf])
    obtain ⟨e', hb⟩ := h.dialing (k := b) (by simp [hf])
    -- who dials has the lock, so it is one call that would dial twice
    obtain rfl : a = b := Option.some.inj ((h.sound a e ha).1.symm.trans (h.sound b e' hb).1)
    have hcount := h.flying a
    rw [worth_of_some ha, hf] at hcount
    simp [Job.dials] at hcount

end Run

section Stale

variable {l : Link Q} {x : Conn}

theorem retire_stale (pick : Option Address) (id : CallId) (e : Errand Q) (hs : l.Sound)
    (hc : l.cached ≠ some x) :
    closed (l.retire pick id e x : Turn Q A).orders = [] ∧
      (l.retire pick id e x : Turn Q A).link.cached = l.cached := by
  cases hg : (l.lock.request id).2 with
  | false =>
    simp only [retire, hg, Bool.false_eq_true, if_false]
    exact ⟨rfl, rfl⟩
  | true =>
    let m : Link Q := { l with lock := (l.lock.request id).1 }
    have hbut : m.unlock.SoundBut id := soundBut_of_granted (hs.but id) hg rfl
    have hpursued : Pursued (A := A) id m.unlock (m.unlock.proceed pick id e) :=
      pursue_pursued pick id e.request e.left e.last hbut
    have hretire : l.retire (A := A) pick id e x =
        (m.unlock.proceed pick id e).after m.handover := by simp [retire, hg, hc, m]
    rw [hretire, Turn.after, closed_append, closed_handover, hpursued.closed]
    exact ⟨rfl, hpursued.cached⟩

theorem stale_of_reported {r : Record Q A} (hs : r.before.Sound) (hr : r.reported? = some x)
    (hc : r.before.cached ≠ some x) :
    closed r.turn.orders = [] ∧ r.turn.link.cached = r.before.cached := by
  obtain ⟨l, pick, e⟩ := r
  simp only [Record.reported?] at hr
  split at hr
  · next id result e c hj =>
    split at hr
    · next hu =>
      obtain rfl := Option.some.inj hr
      cases result with
      | ok a => cases hu
      | error f =>
        have hturn : l.answered pick id (.error f : Except Fault A) =
            l.retire pick id { e with last := some f } c := by
          simp [answered, show l.jobs.get? id = some (.calling e c) from hj,
            show f.isUnavailable = true from hu]
        simp only [Record.turn, step, hturn]
        exact retire_stale pick id _ hs hc
    · cases hr
  · next id e c hj =>
    obtain rfl := Option.some.inj hr
    have hj : l.jobs.get? id = some (.retiring e c) := hj
    by_cases ho : l.lock.owner = some id
    · simp only [Record.turn, step, resume, ho, if_true, hj]
      exact retire_stale pick id e hs hc
    · simp [Record.turn, step, resume, ho]
  · cases hr

end Stale

/-- However calls and closes interleave, at most one dial is in flight, the cached connection was
never closed and no connection is closed twice. A report on a connection that is not cached any more
closes nothing, leaves the cached one in place and does not bring the other one back. No call dials
or calls more often than it may attempt. The dialer keeps to `Fresh`. -/
theorem Run.failover_safe {n : Nat} {initial : Option Conn} {history : History Q A} {l : Link Q}
    (h : Run n initial history l) :
    (inFlight history).length ≤ 1 ∧
      (∀ x, l.cached = some x → x ∉ closed (trail history)) ∧
      (∀ x, (closed (trail history)).count x ≤ 1) ∧
      (∀ r ∈ history, ∀ x, r.reported? = some x → r.before.cached ≠ some x →
        closed r.turn.orders = [] ∧ r.turn.link.cached = r.before.cached ∧ l.cached ≠ some x) ∧
      ∀ id, (callers (trail history)).count id ≤ max n 1 ∧
        (dialers (trail history)).count id ≤ max n 1 := by
  have hkeeps := h.keeps
  -- a connection comes once, and from then on it is cached or closed at most once
  have hone (x : Conn) : l.cached.toList.count x + (closed (trail history)).count x ≤ 1 := by
    rw [hkeeps.ledger]
    exact List.nodup_iff_count_le_one.1 hkeeps.distinct x
  refine ⟨hkeeps.inFlight_le, fun x hx hclosed => ?_, fun x => ?_, fun r hr x hx hc => ?_,
    fun id => ?_⟩
  · have hx' := hone x
    have hpos := List.count_pos_iff.2 hclosed
    rw [hx, Option.toList_some, List.count_singleton_self] at hx'
    omega
  · have hx := hone x
    omega
  · obtain ⟨earlier, hrun⟩ := h.before hr
    obtain ⟨hclosed, hcached⟩ := stale_of_reported hrun.keeps.sound hx hc
    exact ⟨hclosed, hcached, (hkeeps.stale r hr x hx hc).2⟩
  · have hdials := hkeeps.dials id
    have hcalls := hkeeps.calls id
    split at hdials <;> split at hcalls <;> omega

/-- Two calls find the same connection broken, and a close waits for the lock meanwhile: the first
call dials another connection, which the close takes, and the second call is told too late to close
anything. -/
def crossing : List (Option Address × Event Unit Unit) :=
  [(some "a:1", .submit 0 ()), (some "a:1", .submit 1 ()),
    (some "a:1", .answered 0 (.error (.unavailable "gone"))), (none, .shut 2),
    (none, .dialed 0 (.ok 2)), (some "a:1", .answered 1 (.error (.unavailable "gone"))),
    (none, .resume 2), (some "a:1", .resume 1)]

theorem failover_safe_crossing :
    ∃ s, play (some 1) ([], { (start 2 : Link Unit) with cached := some 1 }) crossing = some s ∧
      (inFlight s.1).length ≤ 1 ∧ (∀ x, s.2.cached = some x → x ∉ closed (trail s.1)) ∧
      (∀ x, (closed (trail s.1)).count x ≤ 1) ∧
      (∀ r ∈ s.1, ∀ x, r.reported? = some x → r.before.cached ≠ some x →
        closed r.turn.orders = [] ∧ r.turn.link.cached = r.before.cached ∧ s.2.cached ≠ some x) ∧
      ∀ id, (callers (trail s.1)).count id ≤ max 2 1 ∧
        (dialers (trail s.1)).count id ≤ max 2 1 := by
  have hplay : (play (some 1) ([], { (start 2 : Link Unit) with cached := some 1 })
      crossing).isSome = true := by decide +kernel
  obtain ⟨s, hs⟩ := Option.isSome_iff_exists.1 hplay
  exact ⟨s, hs, Run.failover_safe (Run.start.play hs)⟩

end StreamClient.Link
