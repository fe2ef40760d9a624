import StreamClient.Proofs.Client.Release

/-! What the subscriber of an accepted subscription is told: the messages that its stream yields
after the handshake, and why the stream failed, up to the moment at which it unsubscribes. -/

namespace StreamClient.Client

open Session (Deed Stands)

def Effect.callback? (id : CallId) : Effect → Option Callback
  | .deliver k m => if k = id then some (.message m) else none
  | .report k e => if k = id then some (.error e) else none
  | _ => none

def told (effects : List Effect) (id : CallId) : List Callback :=
  effects.filterMap (Effect.callback? id)

section Delivery

variable {settings : Settings} {now : Nat} {sent : CallId → List Signal} {history : History}
  {c : Client} {id : CallId}

theorem told_eq_callbacks (effects : List Effect) (id : CallId) :
    told effects id = Session.callbacks (shown effects id) := by
  rw [told, Session.callbacks, shown, List.filterMap_filterMap]
  refine List.filterMap_congr fun x _ => ?_
  unfold Effect.callback?
  split
  case h_3 hdeliver hreport =>
    unfold Effect.deed?
    split
    case h_4 => exact absurd rfl (hdeliver _ _)
    case h_5 => exact absurd rfl (hreport _ _)
    all_goals first | rfl | (split <;> rfl)
  all_goals
    simp only [Effect.deed?]
    split <;> rfl

theorem callbacks_shown (log : List Deed) :
    Session.callbacks (log.filter Deed.isShown) = Session.callbacks log := by
  rw [Session.callbacks, Session.callbacks, List.filterMap_filter]
  refine List.filterMap_congr fun d _ => ?_
  rcases d with (_ | _ | _ | _ | _) | _ | _ | _ | _ <;> rfl

theorem Lodges.told_eq (h : Lodges history c id) :
    told (trail history) id = Session.callbacks (log history id) := by
  rw [told_eq_callbacks, h.shown, callbacks_shown]

theorem Life.unsubscribed_of_quit (h : Life history c id)
    (hok : .finish id (.ok .done) ∈ trail history) (hquit : Quit history id) :
    Unsubscribed history id := by
  rcases hquit with hunsubscribed | ⟨e, he⟩
  · exact hunsubscribed
  · cases (h.finish _ hok).2.2 _ he

theorem Life.stands_accepted (h : Life history c id) {stream : String} {o : SubscribeOptions}
    (hstart : ∃ r ∈ history, r.event = .start id (.subscribe stream o))
    (hok : .finish id (.ok .done) ∈ trail history) :
    .act (.greet (.ok ())) ∈ log history id ∧
      Stands (o.subscription stream) (Unsubscribed history id) (acquired history id)
        (log history id) (taken history id) (c.sessions.get? id) := by
  obtain ⟨r, hr, hevent⟩ := hstart
  have haimed : Aimed history id (.subscribing (o.subscription stream)) := ⟨r, hr, _, hevent, rfl⟩
  have hgreeted := h.accepted _ hok haimed
  refine ⟨hgreeted, ?_⟩
  obtain ⟨sub, hsub, hstands⟩ := h.stands
  have hacquired : acquired history id ≠ [] := fun hnone => by
    rw [hnone] at hstands
    rw [hstands.eq_unborn.1] at hgreeted
    cases hgreeted
  obtain rfl := Aim.subscribing.inj (h.aims _ _ (hsub hacquired) haimed)
  exact hstands.mono (h.unsubscribed_of_quit hok)

/-- After any run of a client whose streams yield what they may, the subscriber of a subscription
that the client returned was told of the signals that its session took from the front of the stream,
and not of the handshake. If it did not unsubscribe, it was told all that there is to tell once the
session is over or everything was read; if it did, it was told nothing since. The dialer keeps to
`Fresh`, and `keepAlive` is within the range of the timer queue. -/
theorem Fed.told_in_order (h : Fed settings now sent history c) {stream : String}
    {o : SubscribeOptions} (hstart : ∃ r ∈ history, r.event = .start id (.subscribe stream o))
    (hok : .finish id (.ok .done) ∈ trail history) :
    ∃ first heard unread, sent id = .item (.ok first) :: (heard ++ unread) ∧
      taken history id = .item (.ok first) :: heard ∧
      told (trail history) id = (o.subscription stream).feedback heard ∧
      (¬ Unsubscribed history id → c.isRunning id = false ∨ Settled sent history c →
        told (trail history) id = (o.subscription stream).feedback (heard ++ unread)) ∧
      ∀ later earlier b d, history = later ++ ⟨b, d, .unsubscribe id⟩ :: earlier →
        acquired earlier id ≠ [] → told (trail history) id = told (trail earlier) id := by
  have hrun := h.run
  have hlife := hrun.life id
  obtain ⟨hgreeted, hstands⟩ := hlife.stands_accepted hstart hok
  obtain ⟨first, heard, htaken⟩ := hstands.handshake hgreeted
  obtain ⟨unread, hunread⟩ := h.taken_prefix id
  have htold : told (trail history) id = (o.subscription stream).feedback heard := by
    rw [hlife.toLodges.told_eq, hstands.callbacks, htaken, List.tail_cons]
  refine ⟨first, heard, unread, ?_, htaken, htold, fun hkept hdone => ?_, ?_⟩
  · rw [← hunread, htaken, List.cons_append]
  · rw [htold]
    cases hs : c.sessions.get? id with
    | none =>
      -- the session ended with its stream, so what follows there is not told
      rw [hs] at hstands
      have hstop := hstands.stopped hkept hgreeted
      rw [htaken, List.tail_cons] at hstop
      exact ((o.subscription stream).feedback_append hstop unread).symm
    | some s =>
      have hsettled : Settled sent history c := by
        refine hdone.resolve_left fun hover => ?_
        rw [isRunning, Table.contains, hs] at hover
        cases hover
      rw [hs] at hstands
      have hread := (hsettled id).2 s hs (hstands.hasStream_of_greeted hgreeted)
      have hnone : unread = [] := by simpa [hread] using hunread
      rw [hnone, List.append_nil]
  · rintro later earlier b d rfl hacquired
    obtain ⟨c', hrun'⟩ := (List.append_assoc later [⟨b, d, .unsubscribe id⟩] earlier ▸ hrun :
      Run settings now ((later ++ [⟨b, d, .unsubscribe id⟩]) ++ earlier) c).of_append
    rw [hlife.toLodges.told_eq, (hrun'.life id).toLodges.told_eq]
    exact (hrun.silent_since hacquired).2

end Delivery

/-- In `handedOn` the first subscriber was told of the message, then that the stream is gone. -/
theorem told_in_order_handedOn :
    ∃ s, feed (fun _ => []) ([], .fresh { bootstrap := ["a:1"] } 0) handedOn = some s ∧
      (∃ r ∈ s.2.1, r.event = .start 1 (.subscribe "s" {})) ∧
      .finish 1 (.ok .done) ∈ trail s.2.1 ∧
      told (trail s.2.1) 1 =
        [.message { offset := 7 }, .error (.streamDeleted "s" 0 ⟨.notFound, "gone"⟩)] := by
  have hends : (feed (fun _ => []) ([], .fresh { bootstrap := ["a:1"] } 0) handedOn).map
      (fun s => decide ((∃ r ∈ s.2.1, r.event = .start 1 (.subscribe "s" {})) ∧
        .finish 1 (.ok .done) ∈ trail s.2.1 ∧
        taken s.2.1 1 = [.item (.ok {}), .item (.ok { offset := 7 }),
          .item (.error ⟨.notFound, "gone"⟩)])) = some true := by
    decide +kernel
  obtain ⟨s, hs, hfed, hstart, hok, htaken⟩ := exists_fed hends
  obtain ⟨first, heard, unread, -, hheard, htold, -⟩ := Fed.told_in_order hfed hstart hok
  rw [htaken] at hheard
  obtain ⟨-, rfl⟩ := List.cons.inj hheard
  exact ⟨s, hs, hstart, hok, htold⟩

end StreamClient.Client
