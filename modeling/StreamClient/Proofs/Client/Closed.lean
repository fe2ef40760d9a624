import StreamClient.Proofs.Client.Rest
import StreamClient.Proofs.Client.Stock

/-! Closing a client, and a client that was closed: its pools are empty and stay so, and once no call
is under way nothing but its sessions goes on. -/

namespace StreamClient.Client

section Close

variable {settings : Settings} {now : Nat} {history : History} {draw : Nat} {c : Client} {e : Event}
  {m : Move} {id : CallId}

theorem close_of_closed (h : c.closed = true) : c.close id = c.finish id (.ok .done) := by
  rw [close, if_pos h]

theorem closes_flatMap_close {α : Type} (l : List α) (f : α → List Conn) :
    closes (l.flatMap fun x => (f x).map .close) = l.flatMap f := by
  induction l with
  | nil => rfl
  | cons x rest ih => rw [List.flatMap_cons, List.flatMap_cons, closes_append, closes_map_close, ih]

/-- Nobody holds the lock, so a close gets it at once and returns. -/
theorem close_at_rest (hopen : c.closed = false) (hlock : c.link.lock = {}) (id : CallId) :
    ∃ link, c.close id =
      (Client.finish { (closePools { c with closed := true }).1 with link } id (.ok .done)).after
        ((closePools { c with closed := true }).2 ++ c.link.cached.toList.map .close) := by
  have hshut : ∃ link, (c.link.shut id : Link.Turn Request Reply) =
      { link, orders := c.link.cached.toList.map .close, ending := some .shut } := by
    simp [Link.shut, hlock, Lock.request, Link.handover, Lock.release]
  obtain ⟨link, hshut⟩ := hshut
  refine ⟨link, ?_⟩
  rw [close_eq hopen, hshut]
  simp [closeLink, Move.after, Function.comp_def, ofOrder]

theorem closes_close (hlock : c.link.lock = {}) :
    closes (c.close id).2 = if c.closed then [] else c.idle ++ c.link.cached.toList := by
  cases hclosed : c.closed with
  | true =>
    rw [close_of_closed hclosed]
    rfl
  | false =>
    obtain ⟨link, hclose⟩ := close_at_rest hclosed hlock id
    have hidle : closes (closePools { c with closed := true }).2 = c.idle :=
      closes_flatMap_close c.pools.values fun p => p.close.2
    rw [hclose, Move.after, closes_append, closes_append, hidle, closes_map_close]
    exact List.append_nil _

theorem Deals.closed (h : Deals draw c e m) :
    m.1.closed = c.closed ∨ ∃ id, c.closed = false ∧ m = c.close id := by
  cases h with
  | other _ _ h =>
    cases h with
    | call id _ h =>
      obtain ⟨link, calls, hframe⟩ := h.frame
      exact .inl (by rw [hframe])
    | arrives id s a conn _ _ hm => exact .inl (by rw [hm]; rfl)
    | talks _ h =>
      obtain ⟨calls, sessions, hframe⟩ := h.frame
      exact .inl (by rw [hframe])
    | leaves id s _ h =>
      obtain ⟨calls, sessions, hframe⟩ := h.frame
      exact .inl (by rw [hframe])
    | shuts id _ hopen hm => exact .inr ⟨id, hopen, hm⟩
    | ticks now _ hm => exact .inl (by rw [hm]; rfl)
    | expires _ hm => exact .inl (by rw [hm]; rfl)
  | refresh id t o _ _ _ _ hm => exact .inl (by rw [hm]; rfl)
  | lookup id s left link _ _ hm =>
    refine .inl ?_
    rw [hm, informed_frame c e]
    cases lookup_finds draw { c with link, snapshot := (c.informed e).snapshot } id s left with
    | nowhere _ _ hfinds | later n due _ _ hfinds | late a _ _ hfinds | reuses a x p _ _ _ hfinds
    | dials a _ _ _ hfinds =>
      rw [hfinds]
      rfl

def Drained (c : Client) : Prop :=
  ∀ a p, c.pools.get? a = some p → p.closed = true ∧ p.conns = []

theorem drained_close (hopen : c.closed = false) : (c.close id).1.Drained := by
  intro a p hp
  obtain ⟨link, calls, hframe⟩ := (apart_close 0 id hopen).frame
  rw [hframe, closePools, Table.get?_map] at hp
  obtain ⟨q, -, rfl⟩ := Option.map_eq_some_iff.1 hp
  exact ⟨rfl, rfl⟩

theorem Run.drained (h : Run settings now history c) (hclosed : c.closed = true) : c.Drained := by
  induction h with
  | fresh => cases hclosed
  | @next history c e draw hrun _ ih =>
    have hdeals := hrun.deals draw e
    rcases hdeals.closed with hsame | ⟨id, hopen, hm⟩
    · -- no lookup gets as far as a pool, and what comes back is closed
      have hbefore := hsame.symm.trans hclosed
      intro a p hp
      cases hdeals.restocks hp with
      | same hp => exact ih hbefore a p hp
      | empty hopen => simp [hbefore] at hopen
      | takes _ hopen => simp [hbefore] at hopen
      | shuts _ hopen => simp [hbefore] at hopen
      | back id s q _ _ hq hback =>
        obtain ⟨hshut, hempty⟩ := ih hbefore a q hq
        rw [hback, Pool.release, if_pos (by simp [hshut])]
        exact ⟨hshut, hempty⟩
      | expires q hq hexpire =>
        obtain ⟨hshut, hempty⟩ := ih hbefore a q hq
        rw [hexpire]
        refine ⟨hshut, List.eq_nil_of_subset_nil ?_⟩
        exact hempty ▸ (List.filter_sublist.map Prod.snd).subset
    · rw [hm]
      exact drained_close hopen

theorem Drained.idle_eq (h : c.Drained) : c.idle = [] := by
  refine List.eq_nil_iff_forall_not_mem.2 fun x hx => ?_
  obtain ⟨a, p, hp, hmem⟩ := mem_idle.1 hx
  rw [(h a p hp).2] at hmem
  cases hmem

theorem Drained.closes_giveBack (h : c.Drained) (a : Address) (x : Conn) :
    closes (c.giveBack a x).2 = [x] := by
  cases hp : c.pools.get? a with
  | none =>
    simp only [giveBack, hp]
    rfl
  | some p =>
    simp only [giveBack, hp, Pool.release, (h a p hp).1, Bool.true_or, if_true]
    rfl

end Close

structure Retired (c : Client) : Prop where
  closed : c.closed = true
  calls : ∀ k, c.calls.get? k = none

/-- What an event does to a client that retired: at most a session has a turn. -/
structure Fades (c : Client) (e : Event) (m : Move) : Prop where
  retired : Retired m.1
  snapshot : m.1.snapshot = c.snapshot
  light : Light m.2
  closes : closes m.2 = (c.leaving? e).toList.map (·.2.conn)
  origins : ∀ k, (m.1.sessions.get? k).map Session.origin =
    if (c.leaving? e).any (·.1 = k) then none else (c.sessions.get? k).map Session.origin

section Retired

variable {draw : Nat} {c : Client} {e : Event} {m : Move}

theorem Retired.fades_of_frame (h : Retired c) (hl : c.leaving? e = none)
    (hframe : ∃ now pools calls sessions, m.1 = { c with now, pools, calls, sessions })
    (hcalls : ∀ k, m.1.calls.get? k = none) (hlight : Light m.2)
    (hcloses : Client.closes m.2 = [])
    (horigins : ∀ k, (m.1.sessions.get? k).map Session.origin =
      (c.sessions.get? k).map Session.origin) : Fades c e m := by
  obtain ⟨now, pools, calls, sessions, hframe⟩ := hframe
  refine ⟨⟨?_, hcalls⟩, by rw [hframe], hlight, by rw [hl, hcloses]; rfl, fun k => ?_⟩
  · rw [hframe]
    exact h.closed
  · rw [hl]
    exact horigins k

theorem Retired.fades_stay (h : Retired c) (hl : c.leaving? e = none) : Fades c e c.stay :=
  h.fades_of_frame hl ⟨_, _, _, _, rfl⟩ h.calls light_nil rfl fun _ => rfl

theorem Retired.start_eq (h : Retired c) (draw : Nat) (id : CallId) (op : Op) :
    start draw c id op = c.finish id (if op = .close then .ok .done else .error .closed) := by
  by_cases hop : op = .close
  · subst hop
    rw [start, if_neg (by simp), openCall, close_of_closed h.closed, if_pos rfl]
  · rw [start, if_pos (by simp [h.closed, hop]), if_neg hop]

theorem Retired.fades_finish (h : Retired c) (hl : c.leaving? e = none) (id : CallId)
    (r : Except CallError Outcome) : Fades c e (c.finish id r) :=
  h.fades_of_frame hl ⟨_, _, _, _, rfl⟩ (fun k => by simp [h.calls k]) (light_singleton rfl) rfl
    fun _ => rfl

theorem Retired.fades_turn (h : Retired c) (hd : c.Drained) {id : CallId}
    {stimulus : Session.Stimulus} (ht : e.turn? = some (id, stimulus)) :
    Fades c e (c.stimulate id stimulus) := by
  cases hs : c.sessions.get? id with
  | none =>
    rw [stimulate, hs]
    exact h.fades_stay (by simp only [leaving?, ht, hs])
  | some s =>
    have hcalls (k : CallId) : (c.stimulate id stimulus).1.calls.get? k = none := by
      have hturned := turned_stimulate hs stimulus
      by_cases hk : k = id
      · subst hk
        rcases hturned.stage with hsame | ⟨s', verdict, due, hstage, -, -⟩
        · exact hsame.trans (h.calls k)
        · cases (h.calls k).symm.trans hstage
      · exact (hturned.calls k hk).trans (h.calls k)
    obtain ⟨calls, sessions, pools, hframe⟩ := stimulate_frame c id stimulus
    cases hturn : s.turn (c.isHeard id) stimulus with
    | goOn s' actions =>
      refine h.fades_of_frame (by simp only [leaving?, ht, hs, hturn]) ⟨_, _, _, _, hframe⟩ hcalls
        (light_stimulate c id stimulus) ?_ (talks_stimulate hs hturn).origins
      simp only [stimulate, hs, hturn]
      exact (actAll_hears id s'.conn actions _).2.1
    | «over» actions report =>
      have hleaves := leaves_stimulate hs hturn
      have hleaving : c.leaving? e = some (id, s) := by simp only [leaving?, ht, hs, hturn]
      refine ⟨⟨?_, hcalls⟩, by rw [hframe], light_stimulate c id stimulus, ?_, fun k => ?_⟩
      · rw [hframe]
        exact h.closed
      · rw [hleaving, hleaves.closes, hd.closes_giveBack]
        rfl
      · rw [hleaving, hleaves.sessions]
        by_cases hk : k = id <;> simp [hk, Ne.symm]

theorem Retired.fades (h : Retired c) (hd : c.Drained) (draw : Nat)
    (he : ∀ id r, e ≠ .dialed id r) : Fades c e (step draw c e) := by
  cases e with
  | start id op =>
    rw [step, h.start_eq]
    exact h.fades_finish rfl id _
  | dialed id r => exact absurd rfl (he id r)
  | answered who r =>
    cases who with
    | session id => exact h.fades_turn hd rfl
    | caller id =>
      simp only [step, answered, h.calls id]
      exact h.fades_stay rfl
  | chosen id partition =>
    simp only [step, chosen, h.calls id]
    exact h.fades_stay rfl
  | run who =>
    cases who with
    | session id => exact h.fades_turn hd rfl
    | caller id =>
      simp only [step, run, h.calls id]
      exact h.fades_stay rfl
  | item id i => exact h.fades_turn hd rfl
  | ended id => exact h.fades_turn hd rfl
  | unsubscribe id =>
    obtain ⟨⟨sessions, hframe⟩, hwakes⟩ := unsubscribe_frame c id
    refine h.fades_of_frame rfl ⟨c.now, c.pools, c.calls, sessions, hframe⟩ (fun k => ?_)
      (light_unsubscribe c id) (List.filterMap_eq_nil_iff.2 fun x hx => ?_)
      (talks_unsubscribe c id).origins
    · rw [step, hframe]
      exact h.calls k
    · rw [hwakes x hx]
  | abandon id =>
    simp only [step, abandon, h.calls id]
    exact h.fades_of_frame rfl ⟨_, _, _, _, rfl⟩
      (fun k => by simp [Table.get?_erase, h.calls k]) light_nil rfl fun _ => rfl
  | lapse id =>
    simp only [step, lapse, h.calls id]
    exact h.fades_stay rfl
  | tick now => exact h.fades_of_frame rfl ⟨_, _, _, _, rfl⟩ h.calls light_nil rfl fun _ => rfl
  | expire =>
    -- nothing is idle, so nothing runs out
    have hnone : ∀ p ∈ c.pools.values, (p.expire c.now).2 = [] := by
      intro p hp
      obtain ⟨a, ha⟩ := Table.mem_values_iff.1 hp
      refine List.eq_nil_of_subset_nil ?_
      exact (hd a p ha).2 ▸ (List.filter_sublist.map Prod.snd).subset
    have hempty : (c.expire).2 = [] := by
      simp only [expire, List.flatMap_eq_nil_iff]
      exact fun p hp => by rw [hnone p hp]; rfl
    refine h.fades_of_frame rfl ⟨_, _, _, _, rfl⟩ h.calls ?_ ?_ fun _ => rfl
    · exact hempty ▸ light_nil
    · exact (congrArg Client.closes hempty).trans closes_nil

end Retired

end StreamClient.Client
