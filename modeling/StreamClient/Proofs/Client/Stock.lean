import StreamClient.Proofs.Client.Lookups
import StreamClient.Proofs.Client.Places

/-! What the pools of a client hold, and what one event changes in that. -/

namespace StreamClient.Client

def idle (c : Client) : List Conn := c.pools.values.flatMap Pool.conns

/-- How a client comes by the pool `p'` for `a` in an event. -/
inductive Restocks (c : Client) (e : Event) (a : Address) (p' : Pool) : Prop
  | same : c.pools.get? a = some p' → Restocks c e a p'
  | empty : c.closed = false → p' = c.pool a → Restocks c e a p'
  | takes (x : Conn) : c.closed = false → (c.pool a).take? = some (x, p') → Restocks c e a p'
  | back (id : CallId) (s : Session) (p : Pool) : c.leaving? e = some (id, s) → s.pool = a →
    c.pools.get? a = some p → p' = (p.release c.now true s.conn).1 → Restocks c e a p'
  | shuts (p : Pool) : c.closed = false → c.pools.get? a = some p → p' = p.close.1 →
    Restocks c e a p'
  | expires (p : Pool) : c.pools.get? a = some p → p' = (p.expire c.now).1 → Restocks c e a p'

section Stock

variable {draw : Nat} {c : Client} {e : Event} {m : Move} {id : CallId} {a : Address} {p : Pool}
  {x : Conn}

theorem mem_idle : x ∈ c.idle ↔ ∃ a p, c.pools.get? a = some p ∧ x ∈ p.conns := by
  simp only [idle, List.mem_flatMap, Table.mem_values_iff]
  constructor
  · rintro ⟨p, ⟨a, ha⟩, hx⟩
    exact ⟨a, p, ha, hx⟩
  · rintro ⟨a, p, ha, hx⟩
    exact ⟨p, ⟨a, ha⟩, hx⟩

theorem pool_of_some (h : c.pools.get? a = some p) : c.pool a = p := by
  rw [pool, h]
  rfl

theorem conns_of_take? {p' : Pool} (h : p.take? = some (x, p')) : p.conns = x :: p'.conns := by
  cases hi : p.idle with
  | nil => simp [Pool.take?, hi] at h
  | cons slot rest =>
    obtain ⟨rfl, rfl⟩ : slot.2 = x ∧ _ = p' := by simpa [Pool.take?, hi] using h
    simp [Pool.conns, hi]

theorem take?_eq_none : p.take? = none ↔ p.conns = [] := by
  cases hi : p.idle <;> simp [Pool.take?, Pool.conns, hi]

theorem Keeps.notMem_conns {history : History} (h : Keeps history c) {s : Session}
    (hs : c.sessions.get? id = some s) (hp : c.pools.get? a = some p) : s.conn ∉ p.conns := by
  intro hx
  have hidle : tally history c s.conn (.idle a) = 0 := h.tally_other (tally_held hs) (by simp)
  rw [tally, Table.share_of_some hp] at hidle
  exact Nat.ne_of_gt (List.count_pos_iff.2 hx) hidle

theorem leaving?_eq_some {s : Session} (h : c.leaving? e = some (id, s)) :
    c.sessions.get? id = some s := by
  unfold leaving? at h
  split at h
  · split at h
    · next s' hs =>
      split at h
      · obtain ⟨rfl, rfl⟩ := Prod.mk.inj (Option.some.inj h)
        exact hs
      · cases h
    · cases h
  · cases h

theorem Deals.restocks (h : Deals draw c e m) (hp : m.1.pools.get? a = some p) :
    Restocks c e a p := by
  cases h with
  | other _ _ h =>
    cases h with
    | call id _ h =>
      obtain ⟨link, calls, hframe⟩ := h.frame
      exact .same (by rwa [hframe] at hp)
    | arrives id s a' conn _ _ hm => exact .same (by rwa [hm] at hp)
    | talks _ h =>
      obtain ⟨calls, sessions, hframe⟩ := h.frame
      exact .same (by rwa [hframe] at hp)
    | leaves id s hleaving h =>
      obtain ⟨calls, sessions, hframe⟩ := h.frame
      rw [hframe] at hp
      cases hpool : c.pools.get? s.pool with
      | none => exact .same (by simpa [giveBack, hpool] using hp)
      | some q =>
        have hback : (c.giveBack s.pool s.conn).1.pools =
            c.pools.put s.pool (q.release c.now true s.conn).1 := by
          simp only [giveBack, hpool]
        rw [hback, Table.get?_put] at hp
        split at hp
        · next ha =>
          subst ha
          exact .back id s q hleaving rfl hpool (Option.some.inj hp).symm
        · exact .same hp
    | shuts id _ hclosed hm =>
      obtain ⟨link, calls, hframe⟩ := (apart_close draw id hclosed).frame
      rw [hm, hframe, closePools, Table.get?_map] at hp
      obtain ⟨q, hq, rfl⟩ := Option.map_eq_some_iff.1 hp
      exact .shuts q hclosed hq rfl
    | ticks now _ hm => exact .same (by rwa [hm] at hp)
    | expires _ hm =>
      rw [hm, expire, Table.get?_map] at hp
      obtain ⟨q, hq, rfl⟩ := Option.map_eq_some_iff.1 hp
      exact .expires q hq rfl
  | refresh id t o _ _ _ _ hm => exact .same (by rwa [hm] at hp)
  | lookup id s left link _ _ hm =>
    rw [hm, informed_frame c e] at hp
    -- only the pool of the broker that the lookup leads to is touched
    have hput {b : Address} {q : Pool} (hp : (c.pools.put b q).get? a = some p) :
        c.pools.get? a = some p ∨ a = b ∧ p = q := by
      rw [Table.get?_put] at hp
      split at hp
      · next hab => exact .inr ⟨hab, (Option.some.inj hp).symm⟩
      · exact .inl hp
    cases lookup_finds draw { c with link, snapshot := (c.informed e).snapshot } id s left with
    | nowhere _ _ hfinds | later n due _ _ hfinds | late b _ _ hfinds =>
      rw [hfinds] at hp
      exact .same hp
    | reuses b conn q _ hopen htake hfinds =>
      rw [hfinds] at hp
      rcases hput hp with hsame | ⟨rfl, rfl⟩
      · exact .same hsame
      · exact .takes conn hopen htake
    | dials b _ hopen _ hfinds =>
      rw [hfinds] at hp
      rcases hput hp with hsame | ⟨rfl, hpool⟩
      · exact .same hsame
      · exact .empty hopen hpool

theorem Restocks.conns (h : Restocks c e a p) :
    p.conns.Sublist (c.pool a).conns ∨ ∃ id s q, c.leaving? e = some (id, s) ∧ s.pool = a ∧
      c.pools.get? a = some q ∧ p.conns = q.conns ++ [s.conn] := by
  cases h with
  | same h => exact .inl (pool_of_some h ▸ List.Sublist.refl _)
  | empty _ h => exact .inl (h ▸ List.Sublist.refl _)
  | takes x _ h => exact .inl (conns_of_take? h ▸ List.sublist_cons_self _ _)
  | back id s q hleaving ha hq h =>
    rw [h, Pool.release]
    split
    · exact .inl (pool_of_some hq ▸ List.Sublist.refl _)
    · exact .inr ⟨id, s, q, hleaving, ha, hq, by simp [Pool.conns]⟩
  | shuts q _ _ h => exact .inl (by simp [h, Pool.close, Pool.conns])
  | expires q hq h =>
    rw [h, pool_of_some hq]
    exact .inl (List.filter_sublist.map _)

end Stock

end StreamClient.Client
