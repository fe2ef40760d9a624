import StreamClient.Proofs.Client.Stories

/-! What the caller of a subscription that waits for the handshake is told by a turn of its
session. -/

namespace StreamClient

namespace Session

/-- What a stimulus tells of whether the broker accepts the subscription. -/
def verdict? (s : Session) (e : Stimulus) : Option (Except Fault Unit) :=
  match s.phase, e with
  | .opening, .replied (.error f) => some (.error f)
  | .greeting, .item (.ok _) => some (.ok ())
  | .greeting, .item (.error f) => some (.error f)
  | .greeting, .ended => some (.error endedEarly)
  | _, _ => none

def Deed.tells? : Deed → Option (Except Fault Unit)
  | .act (.greet verdict) => some verdict
  | .terminated => some (.error Client.endedUnheard)
  | _ => none

/-- A turn of a session that was not accepted yet while its caller waits. -/
inductive Answers (s : Session) (e : Stimulus) : Option Session → List Deed → Prop
  | pending {s' : Session} {deeds : List Deed} : s.cancelled = false → s.verdict? e = none →
    s'.cancelled = false → s'.phase ≠ .streaming → deeds.findSome? Deed.tells? = none →
      .act (.greet (.ok ())) ∉ deeds → Answers s e (some s') deeds
  | accepted {deeds : List Deed} : s.cancelled = false → s.verdict? e = some (.ok ()) →
    deeds.findSome? Deed.tells? = some (.ok ()) →
      Answers s e (some { s with phase := .streaming }) deeds
  | rejected {f : Fault} {deeds : List Deed} : s.cancelled = false →
    s.verdict? e = some (.error f) → deeds.findSome? Deed.tells? = some (.error f) →
      .act (.greet (.ok ())) ∉ deeds → Answers s e none deeds
  | cancelled {deeds : List Deed} : s.cancelled = true →
    deeds.findSome? Deed.tells? = some (.error Client.endedUnheard) →
      .act (.greet (.ok ())) ∉ deeds → Answers s e none deeds

section Turns

variable {s s' : Session} {heard : Bool} {e : Stimulus}

theorem turn_of_cancelled (heard : Bool) (e : Stimulus) (h : s.cancelled = true) :
    (s.turn heard e).next? = none ∧
      s.deeds heard e = s.leftovers.map .act ++ s.farewell none := by
  simp [deeds, turn, h, Turn.next?]

theorem greet_notMem_of_cancelled (heard : Bool) (e : Stimulus) (h : s.cancelled = true)
    (v : Except Fault Unit) : .act (.greet v) ∉ s.deeds heard e := by
  rw [(turn_of_cancelled heard e h).2, leftovers, farewell]
  cases s.phase <;> simp

theorem answers_pending {actions : List Action} (ht : s.turn true e = .goOn s' actions)
    (hc : s.cancelled = false) (hc' : s'.cancelled = false) (hp : s'.phase ≠ .streaming)
    (hv : s.verdict? e = none) (hgreet : ∀ v, .greet v ∉ actions) :
    Answers s e (s.turn true e).next? (s.deeds true e) := by
  have hdeeds : s.deeds true e =
      (if s.phase = .opening ∧ s'.phase = .greeting then [.opened] else []) ++
        actions.map .act := by simp only [deeds, ht]
  have htells : ∀ d ∈ s.deeds true e, d.tells? = none := by
    intro d hd
    rw [hdeeds] at hd
    rcases List.mem_append.1 hd with hd | hd
    · split at hd
      · obtain rfl := List.mem_singleton.1 hd
        rfl
      · cases hd
    · obtain ⟨a, ha, rfl⟩ := List.mem_map.1 hd
      cases a with
      | greet v => exact absurd ha (hgreet v)
      | _ => rfl
  rw [ht]
  refine .pending hc hv hc' hp (List.findSome?_eq_none_iff.2 htells) fun hd => ?_
  cases htells _ hd

theorem answers_rejected {f : Fault} {rest : List Action} {report : Option CallError}
    (ht : s.turn true e = .over (.greet (.error f) :: rest) report) (hc : s.cancelled = false)
    (hv : s.verdict? e = some (.error f)) (hrest : .greet (.ok ()) ∉ rest) :
    Answers s e (s.turn true e).next? (s.deeds true e) := by
  have hdeeds : s.deeds true e =
      .act (.greet (.error f)) :: (rest.map .act ++ s.farewell report) := by simp [deeds, ht]
  rw [hdeeds, ht]
  refine .rejected hc hv rfl ?_
  cases report <;> simpa [farewell] using hrest

theorem answers (h : s.phase ≠ .streaming) (e : Stimulus) :
    Answers s e (s.turn true e).next? (s.deeds true e) := by
  cases hc : s.cancelled with
  | true =>
    obtain ⟨hnext, hdeeds⟩ := turn_of_cancelled true e hc
    have hgreet := greet_notMem_of_cancelled true e hc (.ok ())
    rw [hnext]
    refine .cancelled hc ?_ hgreet
    rw [hdeeds, leftovers, farewell]
    cases s.phase <;> rfl
  | false =>
    obtain ⟨t, ht⟩ : ∃ t, s.turn true e = t := ⟨_, rfl⟩
    have hturn := ht
    rw [turn.eq_def, if_neg (by simp [hc])] at hturn
    split at hturn
    · next hp =>
      exact answers_pending (ht.trans hturn.symm) hc hc (by simp) (by simp [verdict?, hp]) (by simp)
    · next hp =>
      exact answers_pending (ht.trans hturn.symm) hc hc (by simp) (by simp [verdict?, hp]) (by simp)
    · next f hp =>
      exact answers_rejected (ht.trans hturn.symm) hc (by simp [verdict?, hp]) (by simp)
    · next m hp =>
      have hdeeds : s.deeds true (.item (.ok m)) = [.act (.greet (.ok ()))] := by
        simp [deeds, ht, ← hturn, hp]
      have hverdict : s.verdict? (.item (.ok m)) = some (.ok ()) := by simp [verdict?, hp]
      rw [ht, ← hturn, hdeeds]
      exact .accepted hc hverdict rfl
    · next f hp =>
      exact answers_rejected (ht.trans hturn.symm) hc (by simp [verdict?, hp]) (by simp)
    · next hp =>
      exact answers_rejected (ht.trans hturn.symm) hc (by simp [verdict?, hp]) (by simp)
    · next hp => exact absurd hp h
    · next hp => exact absurd hp h
    · next hp => exact absurd hp h
    -- what does not fit the phase changes nothing
    · next hask hopen hrefuse hgreet hreject hend _ _ _ =>
      refine answers_pending (ht.trans hturn.symm) hc hc h ?_ (by simp)
      unfold verdict?
      split
      · exact absurd rfl (hrefuse _ ‹_›)
      · exact absurd rfl (hgreet _ ‹_›)
      · exact absurd rfl (hreject _ ‹_›)
      · exact absurd rfl (hend ‹_›)
      · rfl

theorem deeds_ne_nil (heard : Bool) {v : Except Fault Unit} (h : s.verdict? e = some v) :
    s.deeds heard e ≠ [] := by
  cases hc : s.cancelled with
  | true =>
    rw [(turn_of_cancelled heard e hc).2]
    simp [farewell]
  | false =>
    unfold verdict? at h
    split at h
    · next f hp => simp [deeds, turn, hc, hp]
    · next m hp => cases heard <;> simp [deeds, turn, hc, hp]
    · next f hp => simp [deeds, turn, hc, hp]
    · next hp => simp [deeds, turn, hc, hp]
    · cases h

theorem verdict?_of_streaming (h : s.phase = .streaming) (e : Stimulus) : s.verdict? e = none := by
  simp [verdict?, h]

theorem streaming_of_next (h : s.phase = .streaming) (hs : (s.turn heard e).next? = some s') :
    s'.phase = .streaming := by
  cases ht : s.turn heard e with
  | «over» actions report => simp [ht, Turn.next?] at hs
  | goOn s'' actions =>
    obtain rfl : s'' = s' := by simpa [ht, Turn.next?] using hs
    obtain ⟨-, hgoes⟩ := goes_of_turn ht
    generalize s.deeds heard e = deeds at hgoes
    generalize s.takes e = signals at hgoes
    cases hgoes with
    | asks hp | opens _ hp | greets _ hp _ => simp [h] at hp
    | delivers | ignores => exact h

end Turns
end Session

namespace Client

open Session (Deed)

def Stage.told : Stage → Option (Except Fault Unit) → Stage
  | .greeting s none due, some verdict => .greeting s (some verdict) due
  | stage, _ => stage

theorem Stage.told_none (stage : Stage) : stage.told none = stage := by
  cases stage with
  | greeting s verdict due => cases verdict <;> rfl
  | _ => rfl

theorem Stage.told_told (stage : Stage) (v v' : Option (Except Fault Unit)) :
    (stage.told v).told v' = stage.told (v.or v') := by
  cases stage with
  | greeting s verdict due => cases verdict <;> cases v <;> cases v' <;> rfl
  | _ => cases v <;> cases v' <;> rfl

section Stages

variable {c : Client} {id : CallId}

theorem stage_greet (c : Client) (id : CallId) (verdict : Except Fault Unit) :
    (c.greet id verdict).1.calls.get? id = (c.calls.get? id).map (·.told (some verdict)) := by
  unfold greet
  split
  · next s due hs => simp [hs, Stage.told]
  · next hs =>
    cases hstage : c.calls.get? id with
    | none => rw [stay, hstage, Option.map_none]
    | some stage =>
      have hsame : stage.told (some verdict) = stage := by
        unfold Stage.told
        split
        · exact absurd hstage (hs _ _)
        · rfl
      rw [stay, hstage, Option.map_some, hsame]

theorem stage_perform (c : Client) (id : CallId) (conn : Conn) (d : Deed) :
    (c.perform id conn d).1.calls.get? id = (c.calls.get? id).map (·.told d.tells?) := by
  have hsame : c.calls.get? id = (c.calls.get? id).map (·.told none) := by
    cases c.calls.get? id with
    | none => rfl
    | some stage => rw [Option.map_some, Stage.told_none]
  cases d with
  | act a =>
    cases a with
    | greet r => exact stage_greet c id r
    | _ => exact hsame
  | terminated => exact stage_greet c id _
  | release address conn' =>
    obtain ⟨⟨pools, hframe⟩, -⟩ :=
      giveBack_frame { c with sessions := c.sessions.erase id } address conn'
    rw [perform, hframe]
    exact hsame
  | _ => exact hsame

theorem stage_performAll (id : CallId) (conn : Conn) (deeds : List Deed) (c : Client) :
    (c.performAll id conn deeds).1.calls.get? id =
      (c.calls.get? id).map (·.told (deeds.findSome? Deed.tells?)) := by
  induction deeds generalizing c with
  | nil =>
    cases hstage : c.calls.get? id with
    | none => simp [performAll, stay, hstage]
    | some stage => simp [performAll, stay, hstage, Stage.told_none]
  | cons d rest ih =>
    have hrest := ih (c.perform id conn d).1
    rw [stage_perform, Option.map_map] at hrest
    refine hrest.trans (congrArg (fun f => Option.map f (c.calls.get? id)) (funext fun stage => ?_))
    rw [Function.comp_apply, Stage.told_told, List.findSome?_cons]
    cases d.tells? <;> rfl

theorem stage_step (draw : Nat) {e : Event} {stimulus : Session.Stimulus} {s : Session}
    (hturn : e.turn? = some (id, stimulus)) (hs : c.sessions.get? id = some s) :
    (step draw c e).1.calls.get? id = (c.calls.get? id).map
      (·.told ((s.deeds (c.isHeard id) stimulus).findSome? Deed.tells?)) := by
  have hcalls : (c.afterTurn id (s.turn (c.isHeard id) stimulus)).calls = c.calls := by
    cases s.turn (c.isHeard id) stimulus <;> rfl
  rw [step_of_turn draw hturn, stimulate_eq_performAll hs, stage_performAll, hcalls]

end Stages
end Client
end StreamClient
