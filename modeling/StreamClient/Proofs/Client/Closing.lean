import StreamClient.Proofs.Client.Run

/-! What closing a client leaves behind. The cached connection is closed once, and a call that is
still under way may dial another one after that. -/

namespace StreamClient.Client

/-- The connections that were dialed for calls; others were dialed for sessions. -/
def linked (history : History) : List Conn := history.filterMap fun r => r.before.gain? r.event

/-- Whether `x` was dialed for a call when the client was shut already. -/
def Late (history : History) (x : Conn) : Prop :=
  ∃ r ∈ history, r.before.IsShut ∧ r.before.gain? r.event = some x

/-- Whether a call on `x` was told that the broker cannot be reached. -/
def Failed (history : History) (x : Conn) : Prop :=
  ∃ r ∈ history, r.before.failing? r.event = some x

def Event.isAbandon : Event → Bool
  | .abandon _ => true
  | _ => false

/-- No call was given up since the client was closed. -/
def Awaited (history : History) : Prop :=
  ∀ r ∈ history, r.event.isAbandon = true → r.before.closed = false

instance (history : History) : Decidable (Awaited history) :=
  inferInstanceAs (Decidable (∀ r ∈ history, r.event.isAbandon = true → r.before.closed = false))

structure Tracks (history : History) (c : Client) : Prop where
  accounted : ∀ x ∈ linked history, c.link.cached = some x ∨ x ∈ closes (trail history)
  cached : ∀ x, c.link.cached = some x → x ∈ linked history
  calling : ∀ k e x, c.link.jobs.get? k = some (.calling e x) → x ∈ linked history
  failed : ∀ x, Failed history x → x ∈ linked history
  retiring : ∀ k e x, c.link.jobs.get? k = some (.retiring e x) → Failed history x
  late : ∀ x, Late history x → c.IsShut
  cached_late : c.IsShut → ∀ x, c.link.cached = some x → Late history x
  late_cached : ∀ x, Late history x → c.link.cached = some x ∨ Failed history x
  retired : ∀ x, Late history x → Failed history x →
    c.link.cached ≠ some x ∨ ∃ k e, c.link.jobs.get? k = some (.retiring e x)

theorem tracks_fresh (settings : Settings) (now : Nat) : Tracks [] (.fresh settings now) where
  accounted x hx := by cases hx
  cached x hx := by cases hx
  calling k e x hk := by cases hk
  failed x hx := by
    obtain ⟨r, hr, -⟩ := hx
    cases hr
  retiring k e x hk := by cases hk
  late x hx := by
    obtain ⟨r, hr, -⟩ := hx
    cases hr
  cached_late hs := by cases hs.1
  late_cached x hx := by
    obtain ⟨r, hr, -⟩ := hx
    cases hr
  retired x hx := by
    obtain ⟨r, hr, -⟩ := hx
    cases hr

section Tracks

variable {history : History} {c : Client} {e : Event} {draw : Nat} {x : Conn}

theorem calling_of_failing? (h : c.failing? e = some x) :
    ∃ k e', c.link.jobs.get? k = some (.calling e' x) := by
  unfold failing? at h
  split at h
  · next id r =>
    split at h
    · next e' conn hj =>
      split at h
      · obtain rfl := Option.some.inj h
        exact ⟨id, e', hj⟩
      · cases h
    · cases h
  · cases h

theorem mem_news_of_gain? (h : c.gain? e = some x) : x ∈ news e := by
  unfold gain? at h
  split at h
  · split at h
    · cases h
    · obtain rfl := Option.some.inj h
      exact List.mem_singleton_self _
  · cases h

theorem mem_opened_of_linked (h : x ∈ linked history) : x ∈ opened history := by
  obtain ⟨r, hr, hx⟩ := List.mem_filterMap.1 h
  exact List.mem_flatMap.2 ⟨r, hr, mem_news_of_gain? hx⟩

theorem not_linked (hp : Possible history c e) (h : c.gain? e = some x) : x ∉ linked history := by
  intro hx
  have hnews := mem_news_of_gain? h
  cases e with
  | dialed id r => exact hp.2 x hnews (mem_opened_of_linked hx)
  | _ => cases hnews

theorem linked_cons : x ∈ linked (⟨c, draw, e⟩ :: history) ↔
    c.gain? e = some x ∨ x ∈ linked history := by
  simp [linked, List.mem_filterMap]

theorem late_cons : Late (⟨c, draw, e⟩ :: history) x ↔
    c.IsShut ∧ c.gain? e = some x ∨ Late history x := by
  simp [Late]

theorem failed_cons : Failed (⟨c, draw, e⟩ :: history) x ↔
    c.failing? e = some x ∨ Failed history x := by
  simp [Failed]

theorem Tracks.next (h : Tracks history c) (hk : Keeps history c) (hp : Possible history c e)
    (ha : e.isAbandon = true → c.closed = false) :
    Tracks (⟨c, draw, e⟩ :: history) (step draw c e).1 := by
  have hsteps := step_steps draw hk.coherent (hk.admits hp)
  obtain ⟨id, cause, hlink, hcause⟩ := hsteps.link
  have hopen (hg : cause = .gone) : c.closed = false := by
    obtain ⟨k, rfl, -⟩ := hcause.gone hg
    exact ha rfl
  have hfailed {x : Conn} (hx : cause = .failed x) :
      Failed (⟨c, draw, e⟩ :: history) x := failed_cons.2 (.inl ((hcause.failed x).2 hx))
  have hgained {x : Conn} (hx : cause = .dialed x) : c.gain? e = some x := (hcause.dialed x).2 hx
  have hretiring {x : Conn} {k : CallId} (hx : ∃ e', c.link.jobs.get? k = some (.retiring e' x)) :
      Failed (⟨c, draw, e⟩ :: history) x := by
    obtain ⟨e', hj⟩ := hx
    exact failed_cons.2 (.inr (h.retiring k e' x hj))
  exact {
    accounted := fun x hx => by
      have htrail : trail (⟨c, draw, e⟩ :: history) = trail history ++ (step draw c e).2 := rfl
      rw [htrail, closes_append, List.mem_append]
      rcases linked_cons.1 hx with hx | hx
      -- a new connection is cached: nobody can be retiring it already
      · rcases hlink.dialed x ((hcause.dialed x).1 hx) with hcached | ⟨e', hj⟩
        · exact .inl hcached
        · exact absurd (h.failed x (h.retiring id e' x hj)) (not_linked hp hx)
      · rcases h.accounted x hx with hcached | hclosed
        · exact (hsteps.dropped x hcached).imp_right .inr
        · exact .inr (.inl hclosed)
    cached := fun x hx => by
      rcases hlink.gained x hx with hcached | hdialed
      · exact linked_cons.2 (.inr (h.cached x hcached))
      · exact linked_cons.2 (.inl (hgained hdialed))
    calling := fun k e' x hj => by
      by_cases hki : k = id
      · rcases hlink.calling e' x (hki ▸ hj) with hcached | hdialed | ⟨e'', hj'⟩
        · exact linked_cons.2 (.inr (h.cached x hcached))
        · exact linked_cons.2 (.inl (hgained hdialed))
        · exact linked_cons.2 (.inr (h.calling id e'' x hj'))
      · rw [hlink.others k hki] at hj
        exact linked_cons.2 (.inr (h.calling k e' x hj))
    failed := fun x hx => by
      rcases failed_cons.1 hx with hx | hx
      · obtain ⟨k, e', hj⟩ := calling_of_failing? hx
        exact linked_cons.2 (.inr (h.calling k e' x hj))
      · exact linked_cons.2 (.inr (h.failed x hx))
    retiring := fun k e' x hj => by
      by_cases hki : k = id
      · rcases hlink.retiring e' x (hki ▸ hj) with hf | hj'
        · exact hfailed hf
        · exact hretiring hj'
      · rw [hlink.others k hki] at hj
        exact hretiring ⟨e', hj⟩
    late := fun x hx => by
      rcases late_cons.1 hx with ⟨hshut, -⟩ | hx
      · exact hcause.stays hshut
      · exact hcause.stays (h.late x hx)
    cached_late := fun hshut x hx => by
      -- the client was shut before: the event that shuts it leaves nothing cached
      have hbefore : c.IsShut := by
        rcases hcause.turns hshut with hbefore | hs | hg
        · exact hbefore
        · exact absurd ((hlink.shut hs).symm.trans hx) (by simp)
        · obtain ⟨-, -, hclosed⟩ := hcause.gone hg
          exact absurd (hclosed hshut) (by simp [hopen hg])
      rcases hlink.gained x hx with hcached | hdialed
      · exact late_cons.2 (.inr (h.cached_late hbefore x hcached))
      · exact late_cons.2 (.inl ⟨hbefore, hgained hdialed⟩)
    late_cached := fun x hx => by
      rcases late_cons.1 hx with ⟨-, hgain⟩ | hx
      · exact (hlink.dialed x ((hcause.dialed x).1 hgain)).imp_right hretiring
      · rcases h.late_cached x hx with hcached | hx'
        · rcases hlink.lost x hcached with hcached' | hs | hf | hj
          · exact .inl hcached'
          · exact absurd (h.late x hx) (hcause.shut hs)
          · exact .inr (hfailed hf)
          · exact .inr (hretiring hj)
        · exact .inr (failed_cons.2 (.inr hx'))
    retired := fun x hx hf => by
      -- only the call that retires `x` ends that, unless it is given up, and then nobody waits for it
      by_cases hnow : cause = .failed x
      · exact (hlink.retired x (.inl hnow)).imp_right fun hj => ⟨id, hj⟩
      have hbefore : Failed history x := (failed_cons.1 hf).resolve_left fun hx' =>
        hnow ((hcause.failed x).1 hx')
      have hlinked := h.failed x hbefore
      have hlate : Late history x := (late_cons.1 hx).resolve_left fun hx' =>
        not_linked hp hx'.2 hlinked
      rcases h.retired x hlate hbefore with hcached | ⟨k, e', hj⟩
      · refine .inl fun hcached' => ?_
        rcases hlink.gained x hcached' with hx' | hdialed
        · exact hcached hx'
        · exact not_linked hp (hgained hdialed) hlinked
      · by_cases hki : k = id
        · have hgone : cause ≠ .gone := fun hg => by
            have hclosed := (h.late x hlate).1
            rw [hopen hg] at hclosed
            cases hclosed
          exact (hlink.retired x (.inr ⟨hgone, e', hki ▸ hj⟩)).imp_right fun hj' => ⟨id, hj'⟩
        · exact .inr ⟨k, e', (hlink.others k hki).trans hj⟩ }

end Tracks

theorem Run.tracks {settings : Settings} {now : Nat} {history : History} {c : Client}
    (h : Run settings now history c) (ha : Awaited history) : Tracks history c := by
  induction h with
  | fresh => exact tracks_fresh settings now
  | next draw hrun hp ih =>
    refine (ih fun r hr => ha r (List.mem_cons_of_mem _ hr)).next hrun.keeps hp fun he => ?_
    exact ha _ (List.mem_cons_self ..) he

/-- Once a client is closed and every call has returned, no connection of a call is left, neither
cached nor open, exactly if on each one that was dialed after the client was shut some call was told
that the broker cannot be reached. The dialer keeps to `Fresh`. -/
theorem Run.nothing_left_iff {settings : Settings} {now : Nat} {history : History} {c : Client}
    (h : Run settings now history c) (ha : Awaited history) (hclosed : c.closed = true)
    (hreturned : ∀ k, c.calls.get? k = none) :
    (c.link.cached = none ∧ ∀ x ∈ linked history, x ∈ closes (trail history)) ↔
      ∀ x, Late history x → Failed history x := by
  have htracks := h.tracks ha
  have hshut : c.IsShut := ⟨hclosed, by simp [hreturned]⟩
  have hjobs : ∀ k, c.link.jobs.get? k = none := by
    intro k
    have hf := h.keeps.coherent.fits k
    rw [hreturned k] at hf
    exact hf
  constructor
  · rintro ⟨hnone, -⟩ x hx
    exact (htracks.late_cached x hx).resolve_left (by simp [hnone])
  · intro hall
    -- what is cached came late and failed, so a call that has not returned retires it
    have hnone : c.link.cached = none := by
      cases hcached : c.link.cached with
      | none => rfl
      | some x =>
        have hlate := htracks.cached_late hshut x hcached
        rcases htracks.retired x hlate (hall x hlate) with hx | ⟨k, e, hj⟩
        · exact absurd hcached hx
        · exact absurd ((hjobs k).symm.trans hj) (by simp)
    refine ⟨hnone, fun x hx => ?_⟩
    exact (htracks.accounted x hx).resolve_left (by simp [hnone])

/-- The client is closed while a call waits for its answer, and the call is told then that the broker
cannot be reached: it goes on with another connection. -/
def overtaken : List (Nat × Event) :=
  [(0, .start 0 .connect), (0, .dialed 0 (.ok 1)), (0, .answered (.caller 0) (.ok {})),
    (0, .start 1 (.deleteStream "s")), (0, .start 2 .close),
    (0, .answered (.caller 1) (.error (.unavailable "gone"))), (0, .dialed 1 (.ok 2))]

theorem returned_of_keys {c : Client} (h : c.calls.keys = []) (k : CallId) :
    c.calls.get? k = none := by
  have hk : k ∉ c.calls.keys := by simp [h]
  simpa [Table.mem_keys_iff] using hk

/-- The other connection fails as well, and no third one can be dialed. -/
theorem nothing_left_overtaken :
    ∃ s, play ([], .fresh { bootstrap := ["a:1"] } 0)
        (overtaken ++ [(0, .answered (.caller 1) (.error (.unavailable "gone"))),
          (0, .dialed 1 (.error ⟨.other, "refused"⟩))]) = some s ∧
      ((s.2.link.cached = none ∧ ∀ x ∈ linked s.1, x ∈ closes (trail s.1)) ↔
        ∀ x, Late s.1 x → Failed s.1 x) := by
  have hends : (play ([], .fresh { bootstrap := ["a:1"] } 0)
      (overtaken ++ [(0, .answered (.caller 1) (.error (.unavailable "gone"))),
        (0, .dialed 1 (.error ⟨.other, "refused"⟩))])).map
          (fun s => decide (Awaited s.1 ∧ s.2.closed = true ∧ s.2.calls.keys = [])) = some true := by
    decide +kernel
  obtain ⟨s, hs, hrun, ha, hclosed, hkeys⟩ := exists_run hends
  exact ⟨s, hs, Run.nothing_left_iff hrun ha hclosed (returned_of_keys hkeys)⟩

/-- The other connection serves the call, and nobody closes it. -/
theorem overtaken_leaves :
    ∃ s, play ([], .fresh { bootstrap := ["a:1"] } 0)
        (overtaken ++ [(0, .answered (.caller 1) (.ok {}))]) = some s ∧
      Run { bootstrap := ["a:1"] } 0 s.1 s.2 ∧ (∀ r ∈ s.1, r.event.isAbandon = false) ∧
      s.2.closed = true ∧ (∀ k, s.2.calls.get? k = none) ∧
      s.2.link.cached = some 2 ∧ 2 ∈ linked s.1 ∧ 2 ∉ closes (trail s.1) := by
  have hends : (play ([], .fresh { bootstrap := ["a:1"] } 0)
      (overtaken ++ [(0, .answered (.caller 1) (.ok {}))])).map (fun s => decide
        ((∀ r ∈ s.1, r.event.isAbandon = false) ∧ s.2.closed = true ∧ s.2.calls.keys = [] ∧
          s.2.link.cached = some 2 ∧ 2 ∈ linked s.1 ∧ 2 ∉ closes (trail s.1))) = some true := by
    decide +kernel
  obtain ⟨s, hs, hrun, hawaited, hclosed, hkeys, hleft⟩ := exists_run hends
  exact ⟨s, hs, hrun, hawaited, hclosed, returned_of_keys hkeys, hleft⟩

end StreamClient.Client
