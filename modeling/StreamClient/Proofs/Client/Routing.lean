import StreamClient.Proofs.Client.Brokers

/-! Subscriptions run on connections to the brokers that the snapshot gave for their partitions,
whatever becomes of the snapshot and of the connections. -/

namespace StreamClient.Client

/-- What every run keeps for calls on their way to a broker and for the connections dialed for
them. -/
structure Routes (history : History) (c : Client) : Prop where
  asked : ∀ id s a, Resolved history id s a →
    ∃ r ∈ history, ∃ stream o, r.event = .start id (.subscribe stream o) ∧ s = o.subscription stream
  settled : ∀ id s a, Resolved history id s a → ¬ c.Resolving id
  joining : ∀ id s a, c.calls.get? id = some (.joining s a) →
    Resolved history id s a ∧ dialOf (trail history) id = some a
  held : ∀ id s, c.sessions.get? id = some s →
    Resolved history id s.subscription s.pool ∧ DialedTo history s.conn s.pool
  stocked : ∀ a p, c.pools.get? a = some p → ∀ x ∈ p.conns, DialedTo history x a
  queued : ∀ a p, c.pools.get? a = some p →
    p.conns.Pairwise fun x y => releasedAt history x < releasedAt history y

theorem routes_fresh (settings : Settings) (now : Nat) : Routes [] (.fresh settings now) where
  asked id s a h := by simp [Resolved] at h
  settled id s a h := by simp [Resolved] at h
  joining id s a h := by simp [fresh] at h
  held id s h := by simp [fresh] at h
  stocked a p h := by simp [fresh] at h
  queued a p h := by simp [fresh] at h

section Routes

variable {settings : Settings} {now : Nat} {history : History} {c : Client} {draw : Nat} {e : Event}
  {id : CallId} {s : Subscription} {a : Address}

theorem subscribe_of_aim {op : Op} (h : op.aim = .subscribing s) :
    ∃ stream o, op = .subscribe stream o ∧ s = o.subscription stream := by
  cases op with
  | subscribe stream o => exact ⟨stream, o, rfl, (Aim.subscribing.inj h).symm⟩
  | _ => cases h

theorem Routes.mem_started (h : Routes history c) (hr : Resolved history id s a) :
    id ∈ started history := by
  obtain ⟨r, hmem, stream, o, hevent, -⟩ := h.asked id s a hr
  exact Client.mem_started.2 ⟨r, hmem, _, hevent⟩

theorem Routes.once (h : Routes history c) (hp : Possible history c e)
    (hr : Record.resolved? ⟨c, draw, e⟩ = some (id, s, a)) (s' : Subscription) (a' : Address) :
    ¬ Resolved history id s' a' := by
  intro hbefore
  obtain ⟨⟨left, hl⟩, -⟩ := looksUp?_of_resolved? hr
  rcases exists_of_looksUp? hl with ⟨stream, o, rfl, -⟩ | ⟨due, hstage⟩
  · exact hp.1 (h.mem_started hbefore)
  · exact h.settled id s' a' hbefore ⟨_, hstage, rfl⟩

theorem Routes.asked_cons (h : Routes history c) (hrun : Run settings now history c)
    (hr : Resolved (⟨c, draw, e⟩ :: history) id s a) : ∃ r ∈ (⟨c, draw, e⟩ :: history : History),
      ∃ stream o, r.event = .start id (.subscribe stream o) ∧ s = o.subscription stream := by
  rcases resolved_cons.1 hr with hr | hr
  · obtain ⟨⟨left, hl⟩, -⟩ := looksUp?_of_resolved? hr
    rcases exists_of_looksUp? hl with ⟨stream, o, he, hs⟩ | ⟨due, hstage⟩
    · exact ⟨_, List.mem_cons_self .., stream, o, he, hs⟩
    · -- the call was started for what it looks up
      obtain ⟨r, hmem, op, hevent, haim⟩ := (hrun.life id).aim _ hstage
      obtain ⟨stream, o, rfl, hs⟩ := subscribe_of_aim haim
      exact ⟨r, List.mem_cons_of_mem _ hmem, stream, o, hevent, hs⟩
  · obtain ⟨r, hmem, hasked⟩ := h.asked id s a hr
    exact ⟨r, List.mem_cons_of_mem _ hmem, hasked⟩

theorem Routes.of_mem_pool (h : Routes history c) {x : Conn} (hx : x ∈ (c.pool a).conns) :
    DialedTo history x a ∧ ∃ p, c.pools.get? a = some p ∧ x ∈ p.conns := by
  cases hp : c.pools.get? a with
  | none => simp [pool, hp, Pool.conns] at hx
  | some p =>
    rw [pool_of_some hp] at hx
    exact ⟨h.stocked a p hp x hx, p, rfl, hx⟩

theorem Routes.queued_pool (h : Routes history c) (a : Address) :
    (c.pool a).conns.Pairwise fun x y => releasedAt history x < releasedAt history y := by
  cases hp : c.pools.get? a with
  | none => simp [pool, hp, Pool.conns]
  | some p => exact pool_of_some hp ▸ h.queued a p hp

theorem Routes.shelved (h : Routes history c) (hk : Keeps history c) {p : Pool}
    (hr : Restocks c e a p) : (∀ x ∈ p.conns, DialedTo (⟨c, draw, e⟩ :: history) x a) ∧
      p.conns.Pairwise fun x y =>
        releasedAt (⟨c, draw, e⟩ :: history) x < releasedAt (⟨c, draw, e⟩ :: history) y := by
  have hsame {x : Conn} (hx : x ∈ (c.pool a).conns) :
      DialedTo (⟨c, draw, e⟩ :: history) x a ∧
        releasedAt (⟨c, draw, e⟩ :: history) x = releasedAt history x := by
    obtain ⟨hdialed, q, hq, hmem⟩ := h.of_mem_pool hx
    exact ⟨dialedTo_cons.2 (.inr hdialed), hk.releasedAt_cons hq hmem⟩
  have hqueued : (c.pool a).conns.Pairwise fun x y =>
      releasedAt (⟨c, draw, e⟩ :: history) x < releasedAt (⟨c, draw, e⟩ :: history) y := by
    refine (h.queued_pool a).imp_of_mem fun hx hy hlt => ?_
    rwa [(hsame hx).2, (hsame hy).2]
  rcases hr.conns with hsub | ⟨id, s, q, hleaving, ha, hq, hconns⟩
  · exact ⟨fun x hx => (hsame (hsub.subset hx)).1, hqueued.sublist hsub⟩
  · rw [pool_of_some hq] at hsame hqueued
    obtain ⟨-, hdialed⟩ := h.held id s (leaving?_eq_some hleaving)
    rw [hconns]
    refine ⟨fun x hx => ?_, List.pairwise_append.2 ⟨hqueued, List.pairwise_singleton .., ?_⟩⟩
    · rcases List.mem_append.1 hx with hx | hx
      · exact (hsame hx).1
      · obtain rfl := List.mem_singleton.1 hx
        exact dialedTo_cons.2 (.inr (ha ▸ hdialed))
    · intro x hx y hy
      obtain rfl := List.mem_singleton.1 hy
      rw [(hsame hx).2, releasedAt_of_leaving hleaving]
      exact Nat.lt_succ_of_le (releasedAt_le history x)

theorem Routes.next (h : Routes history c) (hrun : Run settings now history c)
    (hp : Possible history c e) : Routes (⟨c, draw, e⟩ :: history) (step draw c e).1 := by
  have hdeals := hrun.deals draw e
  have hguides := hdeals.guides
  exact {
    asked := fun id s a hr => h.asked_cons hrun hr
    settled := fun id s a hr hresolving => by
      obtain ⟨hnot, hbefore⟩ := hguides.resolving id hresolving
      have hr' : Resolved history id s a := (resolved_cons.1 hr).resolve_left (hnot s a)
      rcases hbefore with hbefore | ⟨op, rfl⟩
      · exact h.settled id s a hr' hbefore
      · exact hp.1 (h.mem_started hr')
    joining := fun id s a hs => by
      have htrail : trail (⟨c, draw, e⟩ :: history) = trail history ++ (step draw c e).2 := rfl
      rw [htrail]
      rcases hguides.joining id s a hs with ⟨hbefore, hnone⟩ | ⟨hr, heffects⟩
      · obtain ⟨hr, hdial⟩ := h.joining id s a hbefore
        exact ⟨resolved_cons.2 (.inr hr), (dialOf_append hnone).trans hdial⟩
      · rw [heffects]
        exact ⟨resolved_cons.2 (.inl hr), dialOf_append_dial _⟩
    held := fun id s hs => by
      -- the session was there, or it begins with what was dialed or was idle for it
      rcases hguides.sessions id s hs with ⟨s', hs', horigin⟩ | ⟨rfl, hjoining⟩ | ⟨hr, hx⟩
      · obtain ⟨hr, hdialed⟩ := h.held id s' hs'
        simp only [Session.origin, Prod.mk.injEq] at horigin
        obtain ⟨hsubscription, hconn, hpool⟩ := horigin
        rw [← hsubscription, ← hconn, ← hpool]
        exact ⟨resolved_cons.2 (.inr hr), dialedTo_cons.2 (.inr hdialed)⟩
      · obtain ⟨hr, hdial⟩ := h.joining id _ _ hjoining
        exact ⟨resolved_cons.2 (.inr hr), dialedTo_cons.2 (.inl ⟨id, rfl, hdial⟩)⟩
      · exact ⟨resolved_cons.2 (.inl hr), dialedTo_cons.2 (.inr (h.of_mem_pool hx).1)⟩
    stocked := fun a p hp' => (h.shelved hrun.keeps (hdeals.restocks hp')).1
    queued := fun a p hp' => (h.shelved hrun.keeps (hdeals.restocks hp')).2 }

end Routes

section Run

variable {settings : Settings} {now : Nat} {history : History} {c : Client} {draw : Nat} {e : Event}
  {id : CallId} {s s' : Subscription} {a a' : Address} {x : Conn}

theorem Run.routes (h : Run settings now history c) : Routes history c := by
  induction h with
  | fresh => exact routes_fresh settings now
  | next draw hrun hp ih => exact ih.next hrun hp

theorem Run.not_dials_of_resolved (h : Run settings now history c) (hp : Possible history c e)
    (hr : Resolved history id s a) (b : Address) : (id, b) ∉ dials (step draw c e).2 := by
  intro hd
  have hnext := h.next draw hp
  have hr' : Resolved (⟨c, draw, e⟩ :: history) id s a := resolved_cons.2 (.inr hr)
  obtain ⟨r, hmem, stream, o, hevent, -⟩ := hnext.routes.asked id s a hr'
  have hpurposed := (hnext.purposed ⟨r, hmem, hevent⟩).1
  rcases (h.deals draw e).guides.dials id b hd with ⟨goal, due, hs⟩ | ⟨rest, hs⟩ | ⟨s', hnow⟩
  · have hgoal : goal.purpose = .subscribe := hpurposed _ hs
    refine hnext.routes.settled id s a hr' ⟨_, hs, ?_⟩
    cases goal <;> cases hgoal
    rfl
  · cases hpurposed _ hs
  · exact h.routes.once hp hnow s a hr

theorem DialedTo.of_suffix {earlier : History} (h : DialedTo earlier x a)
    (hsuffix : earlier <:+ history) : DialedTo history x a := by
  obtain ⟨r, before, hbefore, hdial⟩ := h
  exact ⟨r, before, hbefore.trans hsuffix, hdial⟩

end Run

/-- A subscription ends, and another one takes over its connection. -/
def succeeding : List (Nat × Event) :=
  [(0, .start 0 .connect), (0, .dialed 0 (.ok 1)),
    (0, .answered (.caller 0) (.ok { topology := lone })),
    (0, .start 1 (.subscribe "s" {})), (0, .dialed 1 (.ok 2)), (0, .run (.session 1)),
    (0, .answered (.session 1) (.ok {})), (0, .ended 1), (0, .start 2 (.subscribe "s" {})),
    (0, .run (.session 2))]

end StreamClient.Client
