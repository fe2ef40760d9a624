import StreamClient.Proofs.Client.Rest
import StreamClient.Proofs.Client.Snapshots
import StreamClient.Proofs.Link.Events

/-! What a call may count on: the attempts that a client was built with, and an address to dial. -/

namespace StreamClient.Client

section Attempts

variable {n : Nat} {c : Client} {id : CallId}

theorem attempts_follow {goal : Goal} {due : Option Nat} {t : Link.Turn Request Reply}
    {next : Client → Except Fault Reply → Move} (h : t.link.attempts = n)
    (hnext : ∀ c' r, c'.link.attempts = n → (next c' r).1.link.attempts = n) :
    (c.follow id goal due t next).1.link.attempts = n := by
  rw [follow]
  split
  · exact h
  · exact hnext { c with link := t.link } _ h
  · exact h

theorem attempts_settle (draw : Nat) (goal : Goal) (r : Except Fault Reply)
    (h : c.link.attempts = n) : (settle draw c id goal r).1.link.attempts = n := by
  cases goal <;> cases r
  case create.ok =>
    refine attempts_follow ?_ fun c' r' h' => by rwa [link_created]
    rw [← h]
    exact Link.attempts_step (A := Reply) _ c.link (.submit id .fetchMetadata)
  case resolve.ok s left reply =>
    rw [settle, link_lookup]
    exact h
  all_goals exact h

theorem attempts_engage (draw : Nat) (goal : Goal) (due : Option Nat)
    {t : Link.Turn Request Reply} (h : t.link.attempts = n) :
    (engage draw c id goal due t).1.link.attempts = n :=
  attempts_follow h fun _ r h' => attempts_settle draw goal r h'

theorem attempts_submit (draw : Nat) (goal : Goal) (q : Request) :
    (submit draw c id goal q).1.link.attempts = c.link.attempts :=
  attempts_engage draw goal none (Link.attempts_step (A := Reply) _ c.link (.submit id q))

theorem attempts_closeLink {t : Link.Turn Request Reply} (h : t.link.attempts = n) :
    (c.closeLink id t).1.link.attempts = n := by
  rw [closeLink]
  split <;> exact h

theorem attempts_start (draw : Nat) (op : Op) :
    (start draw c id op).1.link.attempts = c.link.attempts := by
  rw [start]
  split
  · rfl
  · cases op with
    | connect =>
      rw [openCall, connect]
      split
      · rfl
      · rw [link_probe]
    | createStream name o =>
      rw [openCall]
      split
      · rfl
      · exact attempts_submit draw _ _
    | publish stream value o =>
      rw [openCall]
      split
      · exact attempts_submit draw _ _
      · rfl
    | subscribe stream o => rw [openCall, link_lookup]
    | close =>
      rw [openCall, close]
      split
      · rfl
      · exact attempts_closeLink (Link.attempts_step (A := Reply) none c.link (.shut id))
    | deleteStream name => exact attempts_submit draw _ _
    | publishToSubject subject value o => exact attempts_submit draw _ _
    | fetchMetadata => exact attempts_submit draw _ _

theorem attempts_lapse (draw : Nat) : (lapse draw c id).1.link.attempts = c.link.attempts := by
  rw [lapse]
  split
  · split
    · split
      · exact attempts_engage draw _ _ (Link.attempts_step _ c.link (.answered id _))
      · rfl
    · rfl
  · split
    · exact attempts_submit draw _ _
    · rfl
  · rfl
  · split
    · split
      · show (c.unsubscribe id).1.link.attempts = _
        rw [link_unsubscribe]
      · rfl
    · rfl
  · rfl

theorem attempts_step (draw : Nat) (e : Event) :
    (step draw c e).1.link.attempts = c.link.attempts := by
  cases e with
  | start id op => exact attempts_start draw op
  | dialed id r =>
    simp only [step, dialed]
    split
    · exact attempts_submit draw _ _
    · rw [link_probe]
    · exact attempts_engage draw _ _ (Link.attempts_step (A := Reply) _ c.link (.dialed id _))
    · rfl
    · rfl
    · rfl
  | answered who r =>
    cases who with
    | session id => rw [step, answered, link_stimulate]
    | caller id =>
      rw [step, answered]
      split
      · exact attempts_engage draw _ _ (Link.attempts_step _ c.link (.answered id r))
      · rfl
  | chosen id partition =>
    rw [step, chosen]
    split
    · exact attempts_submit draw _ _
    · rfl
  | run who =>
    cases who with
    | session id => rw [step, run, link_stimulate]
    | caller id =>
      rw [step, run]
      split
      · exact attempts_engage draw _ _ (Link.attempts_step (A := Reply) _ c.link (.resume id))
      · exact attempts_closeLink (Link.attempts_step (A := Reply) _ c.link (.resume id))
      · rfl
      · rfl
  | item id i => rw [step, link_stimulate]
  | ended id => rw [step, link_stimulate]
  | unsubscribe id => rw [step, link_unsubscribe]
  | abandon id =>
    rw [step, abandon]
    dsimp only
    split
    · rfl
    · rfl
    · exact Link.attempts_step (A := Reply) none c.link (.abandon id)
    · exact Link.attempts_step (A := Reply) none c.link (.abandon id)
    · rfl
  | lapse id => exact attempts_lapse draw
  | tick now => rfl
  | expire => rfl

end Attempts

theorem Run.attempts_eq {settings : Settings} {now : Nat} {history : History} {c : Client}
    (h : Run settings now history c) : c.link.attempts = max settings.attempts 1 := by
  induction h with
  | fresh => rfl
  | next draw _ _ ih => rw [attempts_step, ih]

theorem Run.attempts_pos {settings : Settings} {now : Nat} {history : History} {c : Client}
    (h : Run settings now history c) : 0 < c.link.attempts := by
  rw [h.attempts_eq]
  omega

theorem Run.exists_pick {settings : Settings} {now : Nat} {history : History} {c : Client}
    (h : Run settings now history c) (hb : settings.bootstrap ≠ []) (draw : Nat) :
    ∃ a, c.pick draw = some a := by
  obtain ⟨a, ha⟩ := List.exists_mem_of_ne_nil _ hb
  have hmem := h.sensible.mem_addresses (h.settings_eq ▸ ha)
  refine Option.ne_none_iff_exists'.1 fun hnone => ?_
  rw [(choose_eq_none_iff draw _).1 hnone] at hmem
  cases hmem

end StreamClient.Client
