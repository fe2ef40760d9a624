import StreamClient.Proofs.Client.Feeds
import StreamClient.Proofs.Client.Setbacks.Events

/-! That a client never comes to its fallbacks: it always knows an address to dial, and whatever its
calls and its build fail with was brought to them. -/

namespace StreamClient.Client

theorem mem_setbacks {history : History} {id : CallId} {f : Fault} (h : f ∈ setbacks history id) :
    ∃ r ∈ history, r.before.mishap? id r.event = some f := by
  induction history with
  | nil => cases h
  | cons r earlier ih =>
    rw [setbacks] at h
    split at h
    · rcases List.mem_append.1 h with h | h
      · exact ⟨r, List.mem_cons_self .., Option.mem_toList.1 h⟩
      · obtain ⟨r', hr', hf⟩ := ih h
        exact ⟨r', List.mem_cons_of_mem _ hr', hf⟩
    · cases h

section Run

variable {settings : Settings} {now : Nat} {history : History} {c : Client} {id : CallId}

theorem Run.exists_start (h : Run settings now history c) {stage : Stage}
    (hs : c.calls.get? id = some stage) : ∃ r ∈ history, ∃ op, r.event = .start id op := by
  obtain ⟨r, hr, op, hevent, -⟩ := (h.life id).aim stage hs
  exact ⟨r, hr, op, hevent⟩

/-- What keeps a client from its fallbacks. -/
structure FallbackLaw (settings : Settings) (history : History) (c : Client) : Prop where
  candidates : ∀ draw, ∃ a ∈ c.snapshot.addresses, c.pick draw = some a
  /-- A call makes one attempt at least. Each attempt that is over has left a fault, and the call
  has the latest at hand. -/
  attempts : c.link.attempts = max settings.attempts 1
  recorded : ∀ id j e, c.link.jobs.get? id = some j → j.errand? = some e →
    j.turns + (setbacks history id).length = max settings.attempts 1 ∧
      e.last = (setbacks history id).head?
  brought : ∀ id, ∀ f ∈ setbacks history id, ∃ r ∈ history, r.before.mishap? id r.event = some f
  /-- A call that fails on its way to a broker returns with that fault, and not before its last attempt
  if no broker could be reached. -/
  returned : ∀ r earlier, r :: earlier <:+ history → ∀ id e f, .finish id (.error e) ∈ r.move.2 →
    r.before.isHeard id = false → e.fault? = some f →
      ((r.before.mishap? id r.event).toList ++ setbacks earlier id).head? = some f ∧
        (f.isUnavailable = true → ∀ goal due, r.before.calls.get? id = some (.linking goal due) →
          ((r.before.mishap? id r.event).toList ++ setbacks earlier id).length =
            max settings.attempts 1)
  built : ∀ r earlier, r :: earlier <:+ history → ∀ id rest e f,
    r.before.calls.get? id = some (.probing rest) → .finish id (.error e) ∈ r.move.2 →
      e.fault? = some f → r.event = .dialed id (.error f) ∧ e = .rpc f ∧
        (setbacks earlier id).length + 1 = settings.bootstrap.length

theorem Run.started_of_finish (h : Run settings now history c) (draw : Nat) {e : Event}
    (hp : Possible history c e) {r : Except CallError Outcome}
    (hr : .finish id r ∈ (step draw c e).2) :
    ∃ r ∈ (⟨c, draw, e⟩ :: history : History), ∃ op, r.event = .start id op := by
  have hlife := (h.next draw hp).life id
  have hfinish : .finish id r ∈ trail (⟨c, draw, e⟩ :: history) := List.mem_append_right _ hr
  obtain ⟨-, hstarted, -⟩ := hlife.finish r hfinish
  obtain ⟨r', hr', hevent⟩ := List.mem_filterMap.1 hstarted
  cases hop : r'.event with
  | start k op =>
    rw [hop] at hevent
    obtain rfl := Option.some.inj hevent
    exact ⟨r', hr', op, hop⟩
  | _ =>
    rw [hop] at hevent
    cases hevent

theorem Run.dialed_of_probing (h : Run settings now history c) (draw : Nat) {e : Event}
    (hp : Possible history c e) {rest : List Address}
    (hs : c.calls.get? id = some (.probing rest)) {r : Except CallError Outcome}
    (hr : .finish id r ∈ (step draw c e).2) : ∃ r', e = .dialed id r' := by
  have hstay {m : Move} (hm : m = c.stay) : .finish id r ∉ m.2 := (plain_of_stay hm).2 id r
  cases meets draw h.keeps.coherent h.pooled e id with
  | elsewhere _ _ hnone => exact absurd hr (hnone r)
  | turn stimulus s hturn hsession => exact absurd hr ((turned_step draw hturn hsession).finish id r)
  | aside hturn haside =>
    have he : e.caller? = some id := by
      by_contra he
      exact (haside.away id he).2.2 r hr
    cases Event.ofCall he with
    | dialed r' => exact ⟨r', rfl⟩
    | start op => cases hs.symm.trans (h.keeps.admits hp).1
    | answered r' => exact absurd hr (hstay (by simp only [step, answered, hs]))
    | chosen partition => exact absurd hr (hstay (by simp only [step, chosen, hs]))
    | run => exact absurd hr (hstay (by simp only [step, run, hs]))
    | abandon => exact absurd hr ((plain_abandon c id).2 id r)
    | lapse => exact absurd hr (hstay (by simp only [step, lapse, hs]))

theorem Run.build_failure (h : Run settings now history c) (hb : settings.bootstrap ≠ [])
    (draw : Nat) {e : Event} (hp : Possible history c e) {rest : List Address}
    (hs : c.calls.get? id = some (.probing rest)) {error : CallError} {f : Fault}
    (he : .finish id (.error error) ∈ (step draw c e).2) (hf : error.fault? = some f) :
    e = .dialed id (.error f) ∧ error = .rpc f ∧
      (setbacks history id).length + 1 = settings.bootstrap.length := by
  obtain ⟨a, hpick⟩ := h.exists_pick hb draw
  obtain ⟨r, hr, op, hevent⟩ := h.exists_start hs
  have hbears := h.bears hb ⟨r, hr, hevent⟩
  have hlength := hbears.probes rest hs
  obtain ⟨r', rfl⟩ := h.dialed_of_probing draw hp hs he
  cases r' with
  | ok conn =>
    have hfares : Fares settings .connect [] c id (step draw c (.dialed id (.ok conn))) := by
      simp only [step, dialed, hs]
      exact fares_submit .connect { c with link := { c.link with cached := some conn } } rfl
        (by simp [goal?, hs, Stage.goal?]) hpick h.attempts_eq _
    obtain ⟨hnone, -⟩ := hfares.fails error he (by simp [isHeard, hs]) f hf
    cases hnone
  | error f' =>
    simp only [step, dialed, hs] at he
    cases rest with
    | cons b rest => simp [probe] at he
    | nil =>
      obtain ⟨-, heq⟩ := Effect.finish.inj (List.mem_singleton.1 he)
      obtain rfl := Except.error.inj heq
      obtain rfl : f' = f := Option.some.inj hf
      exact ⟨rfl, rfl, hlength⟩

/-- Over every run of a client with a bootstrap list that the build accepts, whatever attempts are
granted and whatever brokers the metadata have: no call and no build falls back on an error of its
own, since an address is known and every attempt leaves a fault. The dialer keeps to `Fresh`. -/
theorem Run.fallback_law (h : Run settings now history c) (hb : settings.bootstrap ≠ []) :
    FallbackLaw settings history c where
  candidates draw := by
    obtain ⟨a, hpick⟩ := h.exists_pick hb draw
    exact ⟨a, mem_of_choose hpick, hpick⟩
  attempts := h.attempts_eq
  recorded id j e hj he := by
    have hne : j ≠ .shutting := by
      rintro rfl
      cases he
    obtain ⟨goal, due, hs⟩ := h.keeps.coherent.linking_of_job hj hne
    obtain ⟨r, hr, op, hevent⟩ := h.exists_start hs
    obtain ⟨j', hj', hbears⟩ := (h.bears hb ⟨r, hr, hevent⟩).linked goal due hs
    obtain rfl := Option.some.inj (hj.symm.trans hj')
    obtain ⟨e', he', hlast⟩ := hbears.last
    obtain rfl := Option.some.inj (he.symm.trans he')
    exact ⟨hbears.balance, hlast⟩
  brought id f hf := mem_setbacks hf
  returned r earlier hsuffix id e f he hunheard hf := by
    obtain ⟨hrun, hp⟩ := h.of_suffix hsuffix
    obtain ⟨r', hr', op, hevent⟩ := hrun.started_of_finish r.draw hp he
    obtain ⟨hhead, -, hall⟩ := (hrun.fares hb r.draw hp ⟨r', hr', hevent⟩).fails e he hunheard f hf
    exact ⟨hhead, hall⟩
  built r earlier hsuffix id rest e f hs he hf := by
    obtain ⟨hrun, hp⟩ := h.of_suffix hsuffix
    exact hrun.build_failure hb r.draw hp hs he hf

end Run

/-- No broker is known but by its bootstrap address, and one attempt is granted. A connection fails,
and the next dials do. -/
def stranded : List (Nat × Event) :=
  [(0, .start 0 .connect), (0, .dialed 0 (.error (.unavailable "down"))), (0, .dialed 0 (.ok 1)),
    (0, .answered (.caller 0) (.ok {})), (0, .start 1 (.deleteStream "s")),
    (0, .answered (.caller 1) (.error (.unavailable "gone"))), (0, .start 2 .fetchMetadata),
    (1, .dialed 2 (.error (.unavailable "still down")))]

theorem fallback_law_stranded :
    ∃ s, play ([], .fresh { bootstrap := ["a:1", "b:2"], attempts := 0 } 0) stranded = some s ∧
      FallbackLaw { bootstrap := ["a:1", "b:2"], attempts := 0 } s.1 s.2 ∧
      .finish 1 (.error (.rpc (.unavailable "gone"))) ∈ trail s.1 ∧
      .finish 2 (.error (.rpc (.unavailable "still down"))) ∈ trail s.1 := by
  have hends : (play ([], .fresh { bootstrap := ["a:1", "b:2"], attempts := 0 } 0) stranded).map
      (fun s => decide (.finish 1 (.error (.rpc (.unavailable "gone"))) ∈ trail s.1 ∧
        .finish 2 (.error (.rpc (.unavailable "still down"))) ∈ trail s.1)) = some true := by
    decide +kernel
  obtain ⟨s, hs, hrun, hfinish⟩ := exists_run hends
  exact ⟨s, hs, hrun.fallback_law (by simp), hfinish⟩

end StreamClient.Client
