import StreamClient.Proofs.Client.Delivery
import StreamClient.Proofs.Client.Verdicts

/-! The handshake of a subscription: a subscribe call with a connection of its own returns what the
broker decides in time, or that its time is up, and one that failed leaves nothing behind. -/

namespace StreamClient

theorem Session.Stands.silent {sub : Subscription} {quit : Prop} {acquired : List (Address × Conn)}
    {log : List Session.Deed} {taken : List Signal} {s : Option Session}
    (h : Session.Stands sub quit acquired log taken s) (hgreet : .act (.greet (.ok ())) ∉ log) :
    Session.callbacks log = [] := by
  cases h with
  | unborn => rfl
  | running _ _ hstory =>
    cases hstory with
    | streaming => simp at hgreet
    | _ => rfl
  | @ended s log taken e actions report signals _ _ hstory hends =>
    have hfarewell : report = none → Session.callbacks (s.farewell report) = [] := by
      rintro rfl
      rfl
    cases hstory with
    | streaming => simp at hgreet
    | _ hp =>
      rw [Session.callbacks, List.filterMap_append, List.filterMap_append]
      cases hends with
      | fails _ hp' | completes hp' => cases hp.symm.trans hp'
      | cancelled =>
        rw [Session.leftovers, hp]
        rfl
      | _ => rfl

namespace Client

open Session (Deed)

/-- Whether nothing is left to do at once for the call `id`: it heard what it was told, its time is
not up, and its session had its turns. -/
def isCalm (c : Client) (id : CallId) : Bool :=
  (match c.calls.get? id with
    | some (.greeting _ (some _) _) => false
    | some stage => stage.due?.all (c.now < ·)
    | none => true) &&
  match c.sessions.get? id with
    | some s => s.phase != .fresh && !s.cancelled
    | none => true

def InTime (settings : Settings) (joined t : Nat) : Prop :=
  ∀ d, settings.handshakeTimeout = some d → t < joined + d.ceilMillis

/-- What the surroundings of a subscribe call keep to: whoever unsubscribes has the subscription, the
call is not given up, the clock does not pass its time, and nothing is decided in the moment at which
that is up. -/
structure Orderly (settings : Settings) (history : History) (id : CallId) : Prop where
  held : ∀ r earlier, r :: earlier <:+ history → r.event = .unsubscribe id →
    .finish id (.ok .done) ∈ trail earlier
  kept : ∀ r ∈ history, r.event ≠ .abandon id
  punctual : Punctual history id
  apart : ∀ x ∈ verdicts history id, waitsUntil? settings history id ≠ some x.1

section Handshake

variable {settings : Settings} {now : Nat} {history : History} {c : Client} {e : Event}
  {id : CallId} {joined : Nat} {s : Subscription} {v : Except Fault Unit}

theorem Orderly.of_suffix {later earlier : History} (h : Orderly settings (later ++ earlier) id) :
    (∀ r before, r :: before <:+ earlier → r.event = .unsubscribe id →
      .finish id (.ok .done) ∈ trail before) ∧ Punctual earlier id :=
  ⟨fun r before hsuffix => h.held r before (hsuffix.trans (List.suffix_append _ _)),
    fun r hr => h.punctual r (List.mem_append_right _ hr)⟩

theorem waitsUntil?_of_joined (h : joinedAt? history id = some joined) {d : Span}
    (hd : settings.handshakeTimeout = some d) :
    waitsUntil? settings history id = some (joined + d.ceilMillis) := by
  rw [waitsUntil?, h, hd]
  rfl

theorem acquired_of_joinedAt? (h : joinedAt? history id = some joined) :
    acquired history id ≠ [] := by
  induction history with
  | nil => cases h
  | cons r earlier ih =>
    rw [acquired]
    rw [joinedAt?] at h
    split at h
    · exact fun hnone => ih h (List.append_eq_nil_iff.1 hnone).1
    · next hne => exact fun hnone => hne (List.append_eq_nil_iff.1 hnone).2

theorem Run.joinedAt?_append {later earlier : History} (h : Run settings now (later ++ earlier) c)
    (hj : joinedAt? earlier id = some joined) : joinedAt? (later ++ earlier) id = some joined := by
  induction later generalizing c with
  | nil => exact hj
  | cons r later ih =>
    cases h with
    | @next _ c' e draw hrun hp =>
      have hbefore := ih hrun
      have hle : (acquired (later ++ earlier) id ++ acquires c' (step draw c' e).1 id).length ≤ 1 :=
        ((hrun.next draw hp).life id).toLodges.length_le
      have hpos := List.length_pos_iff.2 (acquired_of_joinedAt? hbefore)
      rw [List.length_append] at hle
      have hnone : acquires c' (step draw c' e).1 id = [] := List.length_eq_zero_iff.1 (by omega)
      rw [List.cons_append, joinedAt?_same hnone, hbefore]

theorem finish_of_unsubscribed
    (hheld : ∀ r earlier, r :: earlier <:+ history → r.event = .unsubscribe id →
      .finish id (.ok .done) ∈ trail earlier) (h : Unsubscribed history id) :
    .finish id (.ok .done) ∈ trail history := by
  obtain ⟨later, earlier, before, draw, rfl, -⟩ := h
  have hfinish := hheld ⟨before, draw, .unsubscribe id⟩ earlier ⟨later, rfl⟩ rfl
  obtain ⟨r, hr, hx⟩ := mem_trail.1 hfinish
  exact mem_trail.2 ⟨r, List.mem_append_right _ (List.mem_cons_of_mem _ hr), hx⟩

theorem Settles.in_time (h : Settles settings history id v) (ho : Orderly settings history id)
    (hj : joinedAt? history id = some joined)
    (hnot : .finish id (.ok .done) ∈ trail history → v = .ok ()) :
    ∃ t, verdicts history id = [(t, v)] ∧ InTime settings joined t := by
  rcases h with ⟨t, hverdicts, hle⟩ | ⟨rfl, hunsubscribed⟩
  · refine ⟨t, hverdicts, fun d hd => ?_⟩
    have hwaits := waitsUntil?_of_joined hj hd
    have hne : joined + d.ceilMillis ≠ t := fun heq =>
      ho.apart (t, v) (by simp [hverdicts]) (heq ▸ hwaits)
    exact lt_of_le_of_ne (hle ho.punctual _ hwaits) (Ne.symm hne)
  · cases hnot (finish_of_unsubscribed ho.held hunsubscribed)

theorem Run.returned (h : Run settings now history c) {stream : String} {o : SubscribeOptions}
    (hstart : ∃ r ∈ history, r.event = .start id (.subscribe stream o))
    (hj : joinedAt? history id = some joined) {r : Except CallError Outcome}
    (hr : .finish id r ∈ trail history) :
    (∃ v, r = (o.subscription stream).reply v ∧ Settles settings history id v ∧
      Remains history c id v) ∨
    ∃ d, settings.handshakeTimeout = some d ∧ joined + d.ceilMillis ≤ c.now ∧
      r = (o.subscription stream).reply (.error (noHandshake d)) ∧
      (∀ x ∈ verdicts history id, joined + d.ceilMillis ≤ x.1) ∧
      (∀ session, c.sessions.get? id = some session → session.cancelled = true) ∧
      .act (.greet (.ok ())) ∉ log history id := by
  obtain ⟨r', hr', hevent⟩ := hstart
  have hlife := h.life id
  have haimed : Aimed history id (.subscribing (o.subscription stream)) := ⟨r', hr', _, hevent, rfl⟩
  obtain ⟨hnone, -, hall⟩ := hlife.finish r hr
  cases h.shakes id with
  | apart ha _ => exact absurd ha (acquired_of_joinedAt? hj)
  | waits _ _ hcall => simp [hnone] at hcall
  | told _ _ hcall => simp [hnone] at hcall
  | abandoned _ _ hunfinished => exact absurd hr (hunfinished r)
  | returned s v _ haimed' hfinish hsettles hafter =>
    obtain rfl := Aim.subscribing.inj (hlife.aims _ _ haimed' haimed)
    exact .inl ⟨v, (hall _ hfinish).symm, hsettles, hafter⟩
  | expired s d t _ haimed' hd hj' hdue hfinish hcancelled hverdicts hgreet =>
    obtain rfl := Aim.subscribing.inj (hlife.aims _ _ haimed' haimed)
    obtain rfl := Option.some.inj (hj.symm.trans hj')
    exact .inr ⟨d, hd, hdue, (hall _ hfinish).symm, hverdicts, hcancelled, hgreet⟩

theorem now_lt_of_calm (h : c.isCalm id = true) {due : Nat}
    (hs : c.calls.get? id = some (.greeting s none (some due))) : c.now < due := by
  rw [isCalm, hs, Bool.and_eq_true] at h
  simpa [Stage.due?] using h.1

theorem Run.calm_cases (h : Run settings now history c) (hj : joinedAt? history id = some joined)
    (hkept : ∀ r ∈ history, r.event ≠ .abandon id) (hcalm : c.isCalm id = true) :
    (∃ r, .finish id r ∈ trail history) ∨ verdicts history id = [] ∧
      ∀ d, settings.handshakeTimeout = some d → c.now < joined + d.ceilMillis := by
  cases h.shakes id with
  | apart ha _ => exact absurd ha (acquired_of_joinedAt? hj)
  | waits s session hcall _ _ _ hverdicts =>
    refine .inr ⟨hverdicts, fun d hd => ?_⟩
    have hwaits := waitsUntil?_of_joined hj hd
    exact now_lt_of_calm hcalm (hwaits ▸ hcall)
  | told s v hcall => simp [isCalm, hcall] at hcalm
  | returned s v _ _ hfinish => exact .inl ⟨_, hfinish⟩
  | expired s d t _ _ _ _ _ hfinish => exact .inl ⟨_, hfinish⟩
  | abandoned _ hr =>
    obtain ⟨r, hr, hevent⟩ := hr
    exact absurd hevent (hkept r hr)

theorem Run.expires_at (h : Run settings now history c) (draw : Nat) (hp : Possible history c e)
    (hheld : ∀ r earlier, r :: earlier <:+ history → r.event = .unsubscribe id →
      .finish id (.ok .done) ∈ trail earlier) (hpunctual : Punctual history id)
    (hheard : c.isHeard id = true) {r : Except CallError Outcome}
    (hr : .finish id r ∈ (step draw c e).2) (hverdicts : verdicts history id = []) :
    ∃ d t, settings.handshakeTimeout = some d ∧ joinedAt? history id = some t ∧
      c.now = t + d.ceilMillis ∧ ∃ f, r = .error (.deadlineExceeded f) ∧ f = noHandshake d := by
  rcases h.replies draw hp hheard hr with ⟨s, v, due, hs, -⟩ | ⟨s, due, d, -, hs, hd, hdue, hreply⟩
  · rcases ((h.shakes id).of_told hs).1 with ⟨t, hone, -⟩ | ⟨-, hunsubscribed⟩
    · cases hverdicts.symm.trans hone
    · exact absurd (finish_of_unsubscribed hheld hunsubscribed) ((h.life id).unfinished hs _)
  · obtain ⟨hwaits, -, hle, -⟩ := (h.shakes id).of_waiting hs
    obtain ⟨t, hj, rfl⟩ := exists_joined hwaits.symm hd
    exact ⟨d, t, hd, hj, le_antisymm (hle hpunctual _ rfl) hdue, _, hreply, rfl⟩

/-- A call that failed has no session, or one that is told to end. -/
theorem Run.quiet_of_error (h : Run settings now history c) {stream : String} {o : SubscribeOptions}
    (hstart : ∃ r ∈ history, r.event = .start id (.subscribe stream o))
    (hj : joinedAt? history id = some joined) {error : CallError}
    (he : .finish id (.error error) ∈ trail history) :
    (∀ session, c.sessions.get? id = some session → session.cancelled = true) ∧
      .act (.greet (.ok ())) ∉ log history id := by
  rcases h.returned hstart hj he with ⟨v, hv, -, hafter⟩ | ⟨d, -, -, -, -, hcancelled, hgreet⟩
  · cases v with
    | ok u => cases hv
    | error f => exact ⟨by simp [hafter.1], hafter.2⟩
  · exact ⟨hcancelled, hgreet⟩

/-- What becomes of a subscribe call for `s` that has had a connection since `joined`. -/
structure HandshakeLaw (settings : Settings) (history : History) (c : Client) (id : CallId)
    (s : Subscription) (joined : Nat) : Prop where
  accepted : Orderly settings history id → .finish id (.ok .done) ∈ trail history →
    ∃ t, verdicts history id = [(t, .ok ())] ∧ InTime settings joined t
  /-- A call fails only if the broker does not accept, or decides nothing in time. -/
  refused : Orderly settings history id → ∀ error, .finish id (.error error) ∈ trail history →
    (∃ t f, verdicts history id = [(t, .error f)] ∧ InTime settings joined t ∧
      error = .ofHandshake s.stream s.partition f) ∨
    ∃ d, settings.handshakeTimeout = some d ∧ joined + d.ceilMillis ≤ c.now ∧
      (∀ x ∈ verdicts history id, joined + d.ceilMillis < x.1) ∧
      error = .deadlineExceeded (noHandshake d)
  /-- That nobody heard of the handshake is at most what the broker says. -/
  unheard : Orderly settings history id → ∀ error, .finish id (.error error) ∈ trail history →
    error.fault? = some endedUnheard → ∃ t, (t, .error endedUnheard) ∈ verdicts history id
  returns : Orderly settings history id → c.isCalm id = true → ∀ x ∈ verdicts history id,
    InTime settings joined x.1 → .finish id (s.reply x.2) ∈ trail history
  expires : Orderly settings history id → c.isCalm id = true → ∀ d,
    settings.handshakeTimeout = some d → joined + d.ceilMillis ≤ c.now →
      (∀ x ∈ verdicts history id, ¬ InTime settings joined x.1) →
        .finish id (.error (.deadlineExceeded (noHandshake d))) ∈ trail history
  /-- Who heard nothing returns in the moment at which the time is up. -/
  expired : Orderly settings history id → ∀ r earlier, r :: earlier <:+ history → ∀ result,
    r.before.isHeard id = true → .finish id result ∈ r.move.2 → verdicts earlier id = [] →
      ∃ d, settings.handshakeTimeout = some d ∧ r.before.now = joined + d.ceilMillis ∧
        result = .error (.deadlineExceeded (noHandshake d))
  early : ∀ r ∈ history, r.event = .ended id → ∀ session,
    r.before.sessions.get? id = some session → session.phase = .greeting →
      (r.before.now, .error Session.endedEarly) ∈ verdicts history id ∧
        s.reply (.error Session.endedEarly) = .error (.rpc Session.endedEarly) ∧
        Session.endedEarly.status = .unavailable
  /-- After a failure the subscriber is told nothing, whatever the broker still sends. Its session
  ends without a stream, and gives the connection back. -/
  silent : ∀ error, .finish id (.error error) ∈ trail history → told (trail history) id = []
  ending : ∀ error, .finish id (.error error) ∈ trail history → ∀ session,
    c.sessions.get? id = some session → session.cancelled = true ∧ woken history id = true
  released : ∀ error, .finish id (.error error) ∈ trail history → c.isCalm id = true →
    .terminated id ∈ trail history ∧ ∃ address x, acquired history id = [(address, x)] ∧
      Concluded (log history id) address x ∧ Session.releases (log history id) = [(address, x)]

theorem mem_verdicts {r : Record} (hr : r ∈ history) (hv : r.before.verdict? id r.event = some v) :
    (r.before.now, v) ∈ verdicts history id := by
  induction history with
  | nil => cases hr
  | cons r' earlier ih =>
    rw [verdicts]
    rcases List.mem_cons.1 hr with rfl | hr
    · refine List.mem_append_left _ ?_
      rw [hv]
      exact List.mem_singleton_self _
    · exact List.mem_append_right _ (ih hr)

theorem Lodges.released (h : Lodges history c id) (ha : acquired history id ≠ [])
    (hover : c.isRunning id = false) : .terminated id ∈ trail history ∧ ∃ address x,
      acquired history id = [(address, x)] ∧ Concluded (log history id) address x ∧
        Session.releases (log history id) = [(address, x)] := by
  obtain ⟨sub, -, hstands⟩ := h.stands
  obtain ⟨⟨address, x⟩, hone⟩ : ∃ a, acquired history id = [a] :=
    List.length_eq_one_iff.1 (le_antisymm h.length_le (List.length_pos_iff.2 ha))
  refine ⟨h.terminated_iff.2 ⟨ha, hover⟩, address, x, hone, ?_, ?_⟩
  · exact h.concluded hover (hone ▸ List.mem_singleton_self _)
  · rw [hstands.releases, isRunning_eq_false.1 hover, hone]
    rfl

theorem not_running_of_calm (h : c.isCalm id = true)
    (hcancelled : ∀ session, c.sessions.get? id = some session → session.cancelled = true) :
    c.isRunning id = false := by
  refine isRunning_eq_false.2 (Option.eq_none_iff_forall_ne_some.2 fun session hs => ?_)
  rw [isCalm, hs, Bool.and_eq_true] at h
  simp [hcancelled session hs] at h

theorem Run.refusal (h : Run settings now history c) {stream : String} {o : SubscribeOptions}
    (hstart : ∃ r ∈ history, r.event = .start id (.subscribe stream o))
    (hj : joinedAt? history id = some joined) (ho : Orderly settings history id) {error : CallError}
    (he : .finish id (.error error) ∈ trail history) :
    (∃ t f, verdicts history id = [(t, .error f)] ∧ InTime settings joined t ∧
      error = .ofHandshake stream o.partition f) ∨
    ∃ d, settings.handshakeTimeout = some d ∧ joined + d.ceilMillis ≤ c.now ∧
      (∀ x ∈ verdicts history id, joined + d.ceilMillis < x.1) ∧
      error = .deadlineExceeded (noHandshake d) := by
  rcases h.returned hstart hj he with ⟨v, hv, hsettles, -⟩ | ⟨d, hd, hdue, hv, hlate, -⟩
  · cases v with
    | ok u => cases hv
    | error f =>
      obtain ⟨t, hverdicts, hin⟩ := hsettles.in_time ho hj fun hok => by
        cases ((h.life id).finish _ hok).2.2 _ he
      exact .inl ⟨t, f, hverdicts, hin, Except.error.inj hv⟩
  · refine .inr ⟨d, hd, hdue, fun x hx => ?_, Except.error.inj hv⟩
    have hwaits := waitsUntil?_of_joined hj hd
    exact lt_of_le_of_ne (hlate x hx) fun heq => ho.apart x hx (heq ▸ hwaits)

/-- Over every run, whatever the time-out, the broker and the clock do: how the handshake of a
subscribe call comes out, and that nothing of a failed one is left. The dialer keeps to `Fresh`, and
time-outs run to their end (`Span.longestPause`). -/
theorem Run.handshake_law (h : Run settings now history c) {stream : String} {o : SubscribeOptions}
    (hstart : ∃ r ∈ history, r.event = .start id (.subscribe stream o))
    (hj : joinedAt? history id = some joined) :
    HandshakeLaw settings history c id (o.subscription stream) joined where
  accepted ho hok := by
    rcases h.returned hstart hj hok with ⟨v, hv, hsettles, -⟩ | ⟨d, -, -, hv, -⟩
    · cases v with
      | error f => cases hv
      | ok u => exact hsettles.in_time ho hj fun _ => rfl
    · cases hv
  refused ho error he := h.refusal hstart hj ho he
  unheard ho error he hf := by
    rcases h.refusal hstart hj ho he with ⟨t, f, hverdicts, -, rfl⟩ | ⟨d, -, -, -, rfl⟩
    · obtain rfl := Option.some.inj ((fault?_ofHandshake ..).symm.trans hf)
      exact ⟨t, by simp [hverdicts]⟩
    · cases congrArg Fault.status (Option.some.inj hf)
  returns ho hcalm x hx hin := by
    rcases h.calm_cases hj ho.kept hcalm with ⟨r, hr⟩ | ⟨hnone, -⟩
    · rcases h.returned hstart hj hr with ⟨v, hv, hsettles, -⟩ | ⟨d, hd, -, -, hlate, -⟩
      · obtain ⟨t, hverdicts, -⟩ := hsettles.in_time ho hj fun hok => by
          cases v with
          | ok u => rfl
          | error f => cases (((h.life id).finish _ hr).2.2 _ hok).trans hv
        rw [hverdicts] at hx
        obtain rfl := List.mem_singleton.1 hx
        exact hv ▸ hr
      · exact absurd (hin d hd) (Nat.not_lt.2 (hlate x hx))
    · rw [hnone] at hx
      cases hx
  expires ho hcalm d hd hdue hlate := by
    rcases h.calm_cases hj ho.kept hcalm with ⟨r, hr⟩ | ⟨-, hopen⟩
    · rcases h.returned hstart hj hr with ⟨v, hv, hsettles, -⟩ | ⟨d', hd', -, hv, -⟩
      · obtain ⟨t, hverdicts, hin⟩ := hsettles.in_time ho hj fun hok => by
          cases v with
          | ok u => rfl
          | error f => cases (((h.life id).finish _ hr).2.2 _ hok).trans hv
        exact absurd hin (hlate (t, v) (by simp [hverdicts]))
      · obtain rfl := Option.some.inj (hd.symm.trans hd')
        rw [hv] at hr
        exact hr
    · exact absurd (hopen d hd) (Nat.not_lt.2 hdue)
  expired ho r earlier hsuffix result hheard hr hverdicts := by
    obtain ⟨hrun, hp⟩ := h.of_suffix hsuffix
    obtain ⟨later, rfl⟩ := (List.suffix_cons r earlier).trans hsuffix
    obtain ⟨hheld, hpunctual⟩ := ho.of_suffix
    obtain ⟨d, t, hd, hj', hnow, f, rfl, rfl⟩ :=
      hrun.expires_at r.draw hp hheld hpunctual hheard hr hverdicts
    obtain rfl := Option.some.inj ((h.joinedAt?_append hj').symm.trans hj)
    exact ⟨d, hd, hnow, rfl⟩
  early r hr hevent session hs hphase := by
    refine ⟨mem_verdicts hr ?_, rfl, rfl⟩
    have hturn : r.event.turn? = some (id, .ended) := by
      rw [hevent]
      rfl
    rw [verdict?_of_turn hturn hs]
    simp [Session.verdict?, hphase]
  silent error he := by
    obtain ⟨sub, -, hstands⟩ := (h.life id).stands
    rw [(h.life id).told_eq]
    exact hstands.silent (h.quiet_of_error hstart hj he).2
  ending error he session hs := by
    have hcancelled := (h.quiet_of_error hstart hj he).1 session hs
    exact ⟨hcancelled, (h.life id).woken session hs (.inr hcancelled)⟩
  released error he hcalm :=
    (h.life id).released (acquired_of_joinedAt? hj)
      (not_running_of_calm hcalm (h.quiet_of_error hstart hj he).1)

end Handshake

/-- The broker of one subscription is too slow by less than a millisecond, and still sends. The next
subscription gets the connection and is accepted in time. -/
def belated : List (Nat × Event) :=
  [(0, .start 0 .connect), (0, .dialed 0 (.ok 1)),
    (0, .answered (.caller 0) (.ok { topology := lone })), (0, .start 1 (.subscribe "s" {})),
    (0, .dialed 1 (.ok 2)), (0, .run (.session 1)), (0, .tick 3),
    (0, .answered (.session 1) (.ok {})), (0, .tick 5), (0, .lapse 1), (0, .run (.session 1)),
    (0, .tick 6), (0, .item 1 (.ok {})), (0, .start 2 (.subscribe "s" {})), (0, .run (.session 2)),
    (0, .answered (.session 2) (.ok {})), (0, .tick 8), (0, .item 2 (.ok {})),
    (0, .run (.caller 2))]

theorem handshake_law_belated :
    let settings : Settings := { bootstrap := ["a:1"], handshakeTimeout := some ⟨4500000⟩ }
    ∃ s, play ([], .fresh settings 0) belated = some s ∧
      Orderly settings s.1 1 ∧ HandshakeLaw settings s.1 s.2 1 ⟨"s", 0, .newOnly, false⟩ 0 ∧
      Orderly settings s.1 2 ∧ HandshakeLaw settings s.1 s.2 2 ⟨"s", 0, .newOnly, false⟩ 6 ∧
      s.2.isCalm 1 = true ∧ s.2.isCalm 2 = true ∧ verdicts s.1 2 = [(8, .ok ())] ∧
      .finish 1 (.error (.deadlineExceeded (noHandshake ⟨4500000⟩))) ∈ trail s.1 ∧
      .finish 2 (.ok .done) ∈ trail s.1 ∧ Session.releases (log s.1 1) = [("a:1", 2)] := by
  intro settings
  have hends : (play ([], .fresh settings 0) belated).map (fun s => decide (
      (∀ r ∈ s.1, r.event ≠ .unsubscribe 1 ∧ r.event ≠ .unsubscribe 2 ∧ r.event ≠ .abandon 1 ∧
        r.event ≠ .abandon 2 ∧ r.isPunctual 1 = true ∧ r.isPunctual 2 = true) ∧
      (∃ r ∈ s.1, r.event = .start 1 (.subscribe "s" {})) ∧
      (∃ r ∈ s.1, r.event = .start 2 (.subscribe "s" {})) ∧
      joinedAt? s.1 1 = some 0 ∧ joinedAt? s.1 2 = some 6 ∧ verdicts s.1 1 = [] ∧
      verdicts s.1 2 = [(8, .ok ())] ∧ waitsUntil? settings s.1 2 = some 11 ∧
      s.2.isCalm 1 = true ∧ s.2.isCalm 2 = true ∧
      .finish 1 (.error (.deadlineExceeded (noHandshake ⟨4500000⟩))) ∈ trail s.1 ∧
      .finish 2 (.ok .done) ∈ trail s.1 ∧ Session.releases (log s.1 1) = [("a:1", 2)])) =
        some true := by
    decide +kernel
  obtain ⟨s, hs, hrun, hevents, hstart₁, hstart₂, hj₁, hj₂, hnone, hone, hwaits, hcalm₁, hcalm₂,
    hfinish₁, hfinish₂, hback⟩ := exists_run hends
  have hordered₁ : Orderly settings s.1 1 := {
    held := fun r earlier hsuffix he =>
      absurd he (hevents r (hsuffix.subset (List.mem_cons_self ..))).1
    kept := fun r hr => (hevents r hr).2.2.1
    punctual := fun r hr => (hevents r hr).2.2.2.2.1
    apart := by simp [hnone] }
  have hordered₂ : Orderly settings s.1 2 := {
    held := fun r earlier hsuffix he =>
      absurd he (hevents r (hsuffix.subset (List.mem_cons_self ..))).2.1
    kept := fun r hr => (hevents r hr).2.2.2.1
    punctual := fun r hr => (hevents r hr).2.2.2.2.2
    apart := by simp [hone, hwaits] }
  exact ⟨s, hs, hordered₁, Run.handshake_law hrun hstart₁ hj₁, hordered₂,
    Run.handshake_law hrun hstart₂ hj₂, hcalm₁, hcalm₂, hone, hfinish₁, hfinish₂, hback⟩

end Client

end StreamClient
