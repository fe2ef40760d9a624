import StreamClient.Proofs.Client.Lives

/-! Runs of a client together with the streams of its sessions. -/

namespace StreamClient.Client

open Session (Deed Stands)

def Event.brings? : Event → Option (CallId × Signal)
  | .item id i => some (id, .item i)
  | .ended id => some (id, .ended)
  | _ => none

def Next (sent : CallId → List Signal) (history : History) (e : Event) : Prop :=
  ∀ id signal, e.brings? = some (id, signal) → (sent id)[(taken history id).length]? = some signal

/-- The runs of a client while streams yield signals: `sent` is what each stream yielded so far. -/
inductive Fed (settings : Settings) (now : Nat) : (CallId → List Signal) → History → Client → Prop
  | fresh : Fed settings now (fun _ => []) [] (.fresh settings now)
  | yields {sent : CallId → List Signal} {history : History} {c : Client} (id : CallId)
    (signal : Signal) : Fed settings now sent history c →
      Fed settings now (fun k => if k = id then sent k ++ [signal] else sent k) history c
  | next {sent : CallId → List Signal} {history : History} {c : Client} {e : Event} (draw : Nat) :
    Fed settings now sent history c → Possible history c e → Next sent history e →
      Fed settings now sent (⟨c, draw, e⟩ :: history) (step draw c e).1

/-- Every session that was woken had its turn, and took all that its stream yielded. -/
def Settled (sent : CallId → List Signal) (history : History) (c : Client) : Prop :=
  ∀ id, woken history id = false ∧
    ∀ s, c.sessions.get? id = some s → s.hasStream = true → taken history id = sent id

section Feeds

variable {settings : Settings} {now : Nat} {sent : CallId → List Signal} {history : History}
  {c : Client} {e : Event} {id : CallId}

theorem Fed.run (h : Fed settings now sent history c) : Run settings now history c := by
  induction h with
  | fresh => exact .fresh
  | yields _ _ _ ih => exact ih
  | next draw _ hp _ ih => exact ih.next draw hp

theorem takes_eq (c : Client) (id : CallId) (e : Event) : c.takes id e = [] ∨
    ∃ signal, c.takes id e = [signal] ∧ e.brings? = some (id, signal) := by
  unfold takes
  split
  · next k stimulus s hturn hs =>
    split
    · next hk =>
      subst hk
      unfold Event.turn? at hturn
      split at hturn <;> cases hturn
      · exact .inl rfl
      · exact .inl rfl
      · next i =>
        simp only [Session.takes]
        split
        · exact .inr ⟨.item i, rfl, rfl⟩
        · exact .inl rfl
      · simp only [Session.takes]
        split
        · exact .inr ⟨.ended, rfl, rfl⟩
        · exact .inl rfl
    · exact .inl rfl
  · exact .inl rfl

theorem prefix_snoc {l l' : List Signal} {x : Signal} (h : l <+: l') (hx : l'[l.length]? = some x) :
    l ++ [x] <+: l' := by
  obtain ⟨rest, rfl⟩ := h
  rw [List.getElem?_append_right (Nat.le_refl _), Nat.sub_self] at hx
  cases rest with
  | nil => cases hx
  | cons y rest =>
    obtain rfl : y = x := by simpa using hx
    exact ⟨rest, by simp⟩

theorem Fed.taken_prefix (h : Fed settings now sent history c) (id : CallId) :
    taken history id <+: sent id := by
  induction h with
  | fresh => exact List.nil_prefix
  | yields k signal _ ih =>
    dsimp only
    split
    · exact ih.trans (List.prefix_append _ _)
    · exact ih
  | @next sent history c e draw _ hp hbrings ih =>
    rw [taken]
    rcases takes_eq c id e with hnone | ⟨signal, hone, hevent⟩
    · rw [hnone, List.append_nil]
      exact ih
    · rw [hone]
      exact prefix_snoc ih (hbrings id signal hevent)

end Feeds

deriving instance DecidableEq for Effect, Event

theorem mem_trail_of_woken {history : History} {id : CallId} (h : woken history id = true) :
    .wake (.session id) ∈ trail history := by
  induction history with
  | nil => cases h
  | cons r earlier ih =>
    rw [woken, Bool.or_eq_true, Bool.and_eq_true] at h
    rcases h with hnow | ⟨hbefore, -⟩
    · obtain ⟨x, hx, hwakes⟩ := List.any_eq_true.1 hnow
      refine List.mem_append_right _ ?_
      unfold Effect.wakes at hwakes
      split at hwakes
      · next k =>
        obtain rfl : k = id := by simpa using hwakes
        exact hx
      · cases hwakes
    · exact List.mem_append_left _ (ih hbefore)

/-- Whether the client is settled: only a session that was woken once can wait for a turn. -/
def isSettled (sent : CallId → List Signal) (history : History) (c : Client) : Bool :=
  (trail history).all (fun
    | .wake (.session id) => !woken history id
    | _ => true) &&
  c.sessions.entries.all fun e => !e.2.hasStream || decide (taken history e.1 = sent e.1)

theorem settled_of_isSettled {sent : CallId → List Signal} {history : History} {c : Client}
    (h : isSettled sent history c = true) : Settled sent history c := by
  obtain ⟨hwoken, hread⟩ := Bool.and_eq_true_iff.1 h
  intro id
  constructor
  · cases hw : woken history id with
    | false => rfl
    | true =>
      have hid := List.all_eq_true.1 hwoken _ (mem_trail_of_woken hw)
      simp [hw] at hid
  · intro s hs hstream
    obtain ⟨l, r, hlr, -⟩ := List.lookup_eq_some_iff.1 hs
    have hmem : (id, s) ∈ c.sessions.entries := by
      rw [hlr]
      simp
    simpa [hstream] using List.all_eq_true.1 hread _ hmem

inductive Input where
  | yields (id : CallId) (signal : Signal)
  | event (draw : Nat) (e : Event)

instance (sent : CallId → List Signal) (history : History) (e : Event) :
    Decidable (Next sent history e) :=
  match h : e.brings? with
  | none => .isTrue fun id signal hb => by rw [h] at hb; cases hb
  | some (id, signal) =>
    decidable_of_iff ((sent id)[(taken history id).length]? = some signal) <| by
      refine ⟨fun hx id' signal' hb => ?_, fun hn => hn id signal h⟩
      rw [h] at hb
      cases hb
      exact hx

def feed : (CallId → List Signal) → History × Client → List Input →
    Option ((CallId → List Signal) × History × Client)
  | sent, s, [] => some (sent, s)
  | sent, s, .yields id signal :: rest =>
    feed (fun k => if k = id then sent k ++ [signal] else sent k) s rest
  | sent, (history, c), .event draw e :: rest =>
    if Possible history c e ∧ Next sent history e then
      feed sent (⟨c, draw, e⟩ :: history, (step draw c e).1) rest
    else none

theorem Fed.feed {settings : Settings} {now : Nat} {inputs : List Input}
    {sent : CallId → List Signal} {s : History × Client}
    {s' : (CallId → List Signal) × History × Client} (h : Fed settings now sent s.1 s.2)
    (hf : Client.feed sent s inputs = some s') : Fed settings now s'.1 s'.2.1 s'.2.2 := by
  induction inputs generalizing sent s with
  | nil =>
    cases hf
    exact h
  | cons input rest ih =>
    cases input with
    | yields id signal => exact ih (h.yields id signal) hf
    | event draw e =>
      rw [Client.feed] at hf
      split at hf
      · next hpossible => exact ih (h.next draw hpossible.1 hpossible.2) hf
      · cases hf

theorem exists_fed {settings : Settings} {now : Nat} {inputs : List Input}
    {P : (CallId → List Signal) × History × Client → Prop} [DecidablePred P]
    (h : (Client.feed (fun _ => []) ([], .fresh settings now) inputs).map
      (fun s => decide (P s)) = some true) :
    ∃ s, Client.feed (fun _ => []) ([], .fresh settings now) inputs = some s ∧
      Fed settings now s.1 s.2.1 s.2.2 ∧ P s := by
  obtain ⟨s, hs, hp⟩ := Option.map_eq_some_iff.1 h
  exact ⟨s, hs, Fed.fresh.feed hs, of_decide_eq_true hp⟩

section Past

variable {settings : Settings} {now : Nat} {history : History} {c : Client} {e : Event}
  {id : CallId} {draw : Nat}

theorem Lodges.length_le (h : Lodges history c id) : (acquired history id).length ≤ 1 := by
  obtain ⟨sub, -, hstands⟩ := h.stands
  exact hstands.length_le

theorem Life.over_next (h : Life (⟨c, draw, e⟩ :: history) (Client.step draw c e).1 id)
    (ha : acquired history id ≠ []) (hs : c.sessions.get? id = none) :
    (Client.step draw c e).1.sessions.get? id = none ∧
      log (⟨c, draw, e⟩ :: history) id = log history id := by
  refine ⟨?_, by rw [log, (deeds_of_none hs).1, List.append_nil]⟩
  have hle := h.toLodges.length_le
  rw [acquired, Record.move, List.length_append] at hle
  have hpos := List.length_pos_iff.2 ha
  cases hs' : (Client.step draw c e).1.sessions.get? id with
  | none => rfl
  | some s =>
    have hacquires : acquires c (Client.step draw c e).1 id = [(s.pool, s.conn)] := by
      rw [acquires, hs, hs']
    rw [hacquires, List.length_singleton] at hle
    omega

theorem acquired_mono (h : acquired history id ≠ []) :
    acquired (⟨c, draw, e⟩ :: history) id ≠ [] := by
  rw [acquired]
  simp [h]

theorem acquired_append (later earlier : History) (h : acquired earlier id ≠ []) :
    acquired (later ++ earlier) id ≠ [] := by
  induction later with
  | nil => exact h
  | cons r later ih => exact acquired_mono ih

theorem Run.over_stays {later earlier : History} (h : Run settings now (later ++ earlier) c)
    (hover : ∀ c', Run settings now earlier c' → c'.sessions.get? id = none)
    (ha : acquired earlier id ≠ []) :
    c.sessions.get? id = none ∧ log (later ++ earlier) id = log earlier id := by
  induction later generalizing c with
  | nil => exact ⟨hover c h, rfl⟩
  | cons r later ih =>
    cases h with
    | next draw hrun hp =>
      obtain ⟨hnone, hlog⟩ := ih hrun
      obtain ⟨hnone', hlog'⟩ :=
        ((hrun.next draw hp).life id).over_next (acquired_append later earlier ha) hnone
      exact ⟨hnone', hlog'.trans hlog⟩

theorem Life.cancelled_next (h : Life history c id) (draw : Nat) (hp : Possible history c e)
    (hc : c.Coherent) (hpooled : c.Pooled) {s : Session} (hs : c.sessions.get? id = some s)
    (hcancelled : s.cancelled = true) :
    ((Client.step draw c e).1.sessions.get? id = none ∨
        (Client.step draw c e).1.sessions.get? id = some s) ∧
      Session.callbacks (c.deeds id e) = [] := by
  have hunsubscribe : (c.unsubscribe id).1.sessions.get? id = some s := by
    simp [Client.unsubscribe, hs, hcancelled, stay]
  cases meets draw hc hpooled e id with
  | elsewhere hskips _ _ =>
    rw [hskips.deeds.1]
    exact ⟨.inr (hskips.sessions.trans hs), rfl⟩
  | turn stimulus s' hturn hs' =>
    obtain rfl := Option.some.inj (hs.symm.trans hs')
    have hover : s.turn (c.isHeard id) stimulus = .over s.leftovers none := by
      simp [Session.turn, hcancelled]
    refine ⟨.inl ?_, ?_⟩
    · rw [(turned_step draw hturn hs).sessions, if_pos rfl, hover]
      rfl
    · rw [(deeds_of_turn hturn hs).1, Session.deeds, hover, Session.leftovers]
      cases s.phase <;> rfl
  | aside hturn haside =>
    rw [(deeds_of_aside hturn).1]
    refine ⟨.inr ?_, rfl⟩
    cases haside.passes id with
    | still _ hsame _ => exact hsame.trans hs
    | comes a haims hcomes =>
      have hnew := (h.begins draw hp haims).1
      rw [h.toLodges.acquired_eq hs] at hnew
      cases hnew
    | told s' verdict due _ hm => rw [hm]; exact hs
    | expelled s' due d _ _ _ _ hm => rw [hm]; exact hunsubscribe
    | quits _ hm => rw [hm]; exact hunsubscribe
    | abandoned _ hm =>
      rw [hm, sessions_abandon]
      exact hs

theorem cancelled_of_unsubscribe {s : Session}
    (hs : (c.unsubscribe id).1.sessions.get? id = some s) : s.cancelled = true := by
  rw [unsubscribe] at hs
  split at hs
  · next s' hs' =>
    split at hs
    · next hc => exact Option.some.inj (hs'.symm.trans hs) ▸ hc
    · rw [Table.get?_put, if_pos rfl] at hs
      exact Option.some.inj hs ▸ rfl
  · next hnone => cases hnone.symm.trans hs

/-- From an unsubscription on, the subscriber is told nothing, and the session waits for its last
turn at most. -/
theorem Run.silent_since {later earlier : History} {b : Client} {d : Nat}
    (h : Run settings now (later ++ ⟨b, d, .unsubscribe id⟩ :: earlier) c)
    (ha : acquired earlier id ≠ []) :
    (∀ s, c.sessions.get? id = some s → s.cancelled = true) ∧
      Session.callbacks (log (later ++ ⟨b, d, .unsubscribe id⟩ :: earlier) id) =
        Session.callbacks (log earlier id) := by
  -- on the events since, of which the latest is in front
  induction later generalizing c with
  | nil =>
    cases h with
    | next draw hrun hp =>
      constructor
      · exact fun s hs => cancelled_of_unsubscribe hs
      · rw [List.nil_append, log, (deeds_of_aside rfl).1, List.append_nil]
  | cons r later ih =>
    cases h with
    | @next _ c' e draw hrun hp =>
      obtain ⟨hcancelled, hsilent⟩ := ih hrun
      rw [List.cons_append, log, Session.callbacks, List.filterMap_append, ← Session.callbacks,
        ← Session.callbacks, hsilent]
      cases hs : c'.sessions.get? id with
      | none =>
        have hnow := acquired_append (later ++ [⟨b, d, .unsubscribe id⟩]) earlier ha
        rw [List.append_assoc, List.singleton_append] at hnow
        obtain ⟨hnone, -⟩ := ((hrun.next draw hp).life id).over_next hnow hs
        refine ⟨by simp [hnone], ?_⟩
        rw [(deeds_of_none hs).1]
        exact List.append_nil _
      | some s =>
        obtain ⟨hnext, hdeeds⟩ := (hrun.life id).cancelled_next draw hp
          hrun.keeps.coherent hrun.pooled hs (hcancelled s hs)
        rw [hdeeds, List.append_nil]
        refine ⟨fun s' hs' => ?_, rfl⟩
        rcases hnext with hnone | hsame
        · cases hnone.symm.trans hs'
        · exact Option.some.inj (hsame.symm.trans hs') ▸ hcancelled s hs

end Past

end StreamClient.Client
