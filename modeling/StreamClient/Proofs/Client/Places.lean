import Mathlib.Data.List.Nodup
import StreamClient.Proofs.Client.Run

/-! Where the connections are: each that was dialed is in one place, and one that was closed is done
with. -/

namespace StreamClient.Client

inductive Place where
  | cached
  | idle (address : Address)
  | held (id : CallId)
  | closed

def tally (history : History) (c : Client) (x : Conn) : Place → Nat
  | .cached => c.link.cached.toList.count x
  | .idle address => c.pools.share (fun p => p.conns.count x) address
  | .held id => c.sessions.share (fun s => [s.conn].count x) id
  | .closed => (closes (trail history)).count x

section Places

variable {history : History} {c : Client} {x : Conn}

theorem tally_add_le {p q : Place} (h : p ≠ q) :
    tally history c x p + tally history c x q ≤ c.total x + (closes (trail history)).count x := by
  have hidle := fun a => c.pools.share_le (fun p => p.conns.count x) a
  have hheld := fun id => c.sessions.share_le (fun s => [s.conn].count x) id
  rw [total]
  cases p <;> cases q <;> simp only [tally]
  case cached.cached => exact absurd rfl h
  case closed.closed => exact absurd rfl h
  case idle.idle a a' =>
    have hne : a ≠ a' := fun heq => h (congrArg Place.idle heq)
    have hboth := c.pools.share_add_share_le (fun p => p.conns.count x) hne
    omega
  case held.held id id' =>
    have hne : id ≠ id' := fun heq => h (congrArg Place.held heq)
    have hboth := c.sessions.share_add_share_le (fun s => [s.conn].count x) hne
    omega
  all_goals grind

theorem tally_le (p : Place) :
    tally history c x p ≤ c.total x + (closes (trail history)).count x := by
  obtain ⟨q, hq⟩ : ∃ q, p ≠ q := by
    cases p with
    | closed => exact ⟨.cached, by simp⟩
    | _ => exact ⟨.closed, by simp⟩
  have hboth : tally history c x p + tally history c x q ≤ _ := tally_add_le hq
  omega

theorem exists_tally_pos (h : 0 < c.total x + (closes (trail history)).count x) :
    ∃ p, 0 < tally history c x p := by
  rw [total] at h
  rcases Nat.eq_zero_or_pos (c.link.cached.toList.count x) with hcached | hcached
  · rcases Nat.eq_zero_or_pos (c.pools.total fun p => p.conns.count x) with hidle | hidle
    · rcases Nat.eq_zero_or_pos (c.sessions.total fun s => [s.conn].count x) with hheld | hheld
      · exact ⟨.closed, by simp only [tally]; omega⟩
      · obtain ⟨id, hid⟩ := Table.exists_share_pos hheld
        exact ⟨.held id, hid⟩
    · obtain ⟨a, ha⟩ := Table.exists_share_pos hidle
      exact ⟨.idle a, ha⟩
  · exact ⟨.cached, hcached⟩

theorem Keeps.count_le (h : Keeps history c) (x : Conn) :
    c.total x + (closes (trail history)).count x ≤ 1 := by
  rw [h.ledger]
  exact List.nodup_iff_count_le_one.1 h.distinct x

theorem Keeps.gone (h : Keeps history c) (hx : x ∈ closes (trail history)) : c.total x = 0 := by
  have hle := h.count_le x
  have hpos := List.count_pos_iff.2 hx
  omega

theorem Keeps.tally_other (h : Keeps history c) {p q : Place} (hp : 0 < tally history c x p)
    (hq : q ≠ p) : tally history c x q = 0 := by
  have hle := h.count_le x
  have hboth : tally history c x q + tally history c x p ≤ _ := tally_add_le hq
  omega

theorem tally_held {id : CallId} {s : Session} (hs : c.sessions.get? id = some s) :
    0 < tally history c s.conn (.held id) := by
  rw [tally, Table.share_of_some hs, List.count_singleton_self]
  exact Nat.one_pos

theorem mem_closes {effects : List Effect} (h : .close x ∈ effects) : x ∈ closes effects :=
  List.mem_filterMap.2 ⟨_, h, rfl⟩

end Places

theorem Run.not_called {settings : Settings} {now : Nat} {history : History} {c : Client}
    (h : Run settings now history c) {x : Conn} {earlier later : List Effect}
    (ht : trail history = earlier ++ .close x :: later) (who : Party) (q : Request) :
    .call who x q ∉ later := by
  induction h generalizing earlier later with
  | fresh => simp [trail] at ht
  | @next history c e draw hrun hp ih =>
    have hkeeps := (hrun.next draw hp).keeps
    have hclosed : x ∈ closes (trail (⟨c, draw, e⟩ :: history)) := mem_closes (by simp [ht])
    -- a connection that is called on is one that the client has after the step
    have hstep : .call who x q ∉ (step draw c e).2 := fun hq => by
      have hsteps := step_steps draw hrun.keeps.coherent (hrun.keeps.admits hp)
      have hgrounded := hsteps.grounded who x q hq
      exact Nat.ne_of_gt hgrounded (hkeeps.gone hclosed)
    have hsplit : trail history ++ (step draw c e).2 = earlier ++ .close x :: later := ht
    -- the close was asked for before this step, or in it
    rcases List.append_eq_append_iff.1 hsplit with ⟨rest, rfl, heffects⟩ | ⟨rest, hearlier, hlater⟩
    · intro hq
      rw [heffects] at hstep
      exact hstep (by simp [hq])
    · cases rest with
      | nil =>
        intro hq
        simp only [List.nil_append] at hlater
        rw [← hlater] at hstep
        exact hstep (List.mem_cons_of_mem _ hq)
      | cons first rest =>
        obtain ⟨rfl, rfl⟩ : Effect.close x = first ∧ later = rest ++ (step draw c e).2 := by
          simpa using hlater
        intro hq
        rcases List.mem_append.1 hq with hq | hq
        · exact ih hearlier hq
        · exact hstep hq

/-- After any run of a client, each connection that was ever dialed is once in one place and not in
any other. None is closed twice; one that was closed is in no other place, and no call is made on it
from then on. The dialer keeps to `Fresh`, and `keepAlive` is within the range of the timer
queue. -/
theorem Run.one_place {settings : Settings} {now : Nat} {history : History} {c : Client}
    (h : Run settings now history c) :
    (∀ x ∈ opened history, ∃ p, tally history c x p = 1 ∧
      ∀ q, q ≠ p → tally history c x q = 0) ∧
    (∀ x, (closes (trail history)).count x ≤ 1) ∧
    (∀ x ∈ closes (trail history), ∀ p, p ≠ .closed → tally history c x p = 0) ∧
    ∀ x earlier later, trail history = earlier ++ .close x :: later →
      ∀ who q, .call who x q ∉ later := by
  have hkeeps := h.keeps
  refine ⟨fun x hx => ?_, fun x => ?_, fun x hx p hp => ?_,
    fun x earlier later ht who q => h.not_called ht who q⟩
  · have hone : c.total x + (closes (trail history)).count x = 1 := by
      rw [hkeeps.ledger]
      exact List.count_eq_one_of_mem hkeeps.distinct hx
    obtain ⟨p, hp⟩ : ∃ p, 0 < tally history c x p := exists_tally_pos (by omega)
    have hle : tally history c x p ≤ _ := tally_le p
    refine ⟨p, by omega, fun q hq => ?_⟩
    have hboth : tally history c x q + tally history c x p ≤ _ := tally_add_le hq
    omega
  · have hle := hkeeps.count_le x
    omega
  · have hle := hkeeps.count_le x
    have hpos : 0 < tally history c x .closed := List.count_pos_iff.2 hx
    have hboth : tally history c x p + tally history c x .closed ≤ _ := tally_add_le hp
    omega

/-- A client is built, its connection fails in a call, and the call goes on on another one. -/
def redialing : List (Nat × Event) :=
  [(0, .start 0 .connect), (0, .dialed 0 (.ok 1)), (0, .answered (.caller 0) (.ok {})),
    (0, .start 1 (.deleteStream "s")), (0, .answered (.caller 1) (.error (.unavailable "gone"))),
    (0, .dialed 1 (.ok 2))]

theorem one_place_redialing :
    ∃ s, play ([], .fresh { bootstrap := ["a:1"] } 0) redialing = some s ∧
      ∃ p, tally s.1 s.2 1 p = 1 ∧ ∀ q, q ≠ p → tally s.1 s.2 1 q = 0 := by
  have hopened : (play ([], .fresh { bootstrap := ["a:1"] } 0) redialing).map
      (fun s => decide (1 ∈ opened s.1)) = some true := by decide +kernel
  obtain ⟨s, hs, hrun, hmem⟩ := exists_run hopened
  exact ⟨s, hs, (Run.one_place hrun).1 1 hmem⟩

end StreamClient.Client
