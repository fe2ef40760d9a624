import StreamClient.Proofs.Client.Closing
import StreamClient.Proofs.Client.Startup

/-! What a build that fails leaves open: the connection on which a broker refused the metadata. -/

namespace StreamClient.Client

def Dialed (history : History) (id : CallId) (x : Conn) : Prop :=
  ∃ r ∈ history, r.event = .dialed id (.ok x)

/-- The connection that the latest letter went to, unless it was lost. -/
def held : List Letter → Option Conn
  | [] => none
  | l :: _ => if l.isLost then none else some l.conn

structure Stocked (history : History) (c : Client) (id : CallId) : Prop where
  cached : ∀ x, c.link.cached = some x → Dialed history id x
  dialed : ∀ x, Dialed history id x → c.link.cached = some x ∨ x ∈ closes (trail history)

section Leftovers

variable {settings : Settings} {now : Nat} {history : History} {c : Client} {draw : Nat} {e : Event}
  {id : CallId} {order : List Address} {x : Conn} {total : Nat} {q : Request} {sent : List Letter}

theorem dialed_cons : Dialed (⟨c, draw, e⟩ :: history) id x ↔
    e = .dialed id (.ok x) ∨ Dialed history id x := by
  simp [Dialed]

theorem Keeps.undialed (h : Keeps history c) (hs : started history = []) (x : Conn) :
    ¬ Dialed history id x := by
  rintro ⟨r, hr, hevent⟩
  have hx : x ∈ opened history := List.mem_flatMap.2 ⟨r, hr, by simp [hevent, news]⟩
  rw [h.begun hs] at hx
  cases hx

theorem Keeps.not_closed (h : Keeps history c) (hx : c.link.cached = some x) :
    x ∉ closes (trail history) := by
  have hpos := total_of_cached hx
  have hledger := h.ledger x
  have hone := List.nodup_iff_count_le_one.1 h.distinct x
  exact List.count_eq_zero.1 (by omega)

theorem Unshared.not_retiring (h : Unshared c id) (hc : c.Coherent) (k : CallId)
    (e' : Link.Errand Request) (x : Conn) : c.link.jobs.get? k ≠ some (.retiring e' x) := by
  intro hj
  obtain ⟨goal, due, hs⟩ := hc.linking_of_job hj (by simp)
  by_cases hk : k = id
  · subst hk
    rcases h.sole.job hj with ⟨e'', h'⟩ | ⟨e'', x', h'⟩ <;> cases h'
  · cases (h.others k hk).symm.trans hs

theorem Stocked.next (h : Stocked history c id) (hrun : Run settings now history c) (draw : Nat)
    (hp : Possible history c e) (hunshared : Unshared c id) {stage : Stage}
    (hs : c.calls.get? id = some stage) (hbuilding : stage.isBuilding = true) :
    Stocked (⟨c, draw, e⟩ :: history) (step draw c e).1 id := by
  have hsteps := step_steps draw hrun.keeps.coherent (hrun.keeps.admits hp)
  obtain ⟨k, cause, hlink, hcause⟩ := hsteps.link
  have htrail : trail (⟨c, draw, e⟩ :: history) = trail history ++ (step draw c e).2 := rfl
  refine ⟨fun x hx => ?_, fun x hx => ?_⟩
  · rcases hlink.gained x hx with hcached | hdialed
    · exact dialed_cons.2 (.inr (h.cached x hcached))
    · have hgain := (hcause.dialed x).2 hdialed
      cases e with
      | dialed k' r =>
        obtain rfl : k' = id := by
          by_contra hk'
          have hsome := isSome_of_isDialing hp.1
          simp [hunshared.others k' hk'] at hsome
        have hnews := mem_news_of_gain? hgain
        cases r with
        | ok x' =>
          obtain rfl := List.mem_singleton.1 hnews
          exact dialed_cons.2 (.inl rfl)
        | error f => cases hnews
      | _ => cases hgain
  · rw [htrail, closes_append, List.mem_append]
    rcases dialed_cons.1 hx with rfl | hx
    -- a connection that comes in is cached: nobody else is there to have retired it already
    · have hgain : c.gain? (.dialed id (.ok x)) = some x := by
        cases stage with
        | joining s a => cases hbuilding
        | _ => simp [gain?, hs]
      rcases hlink.dialed x ((hcause.dialed x).1 hgain) with hcached | ⟨e', hj⟩
      · exact .inl hcached
      · exact absurd hj (hunshared.not_retiring hrun.keeps.coherent k e' x)
    · rcases h.dialed x hx with hcached | hclosed
      · exact (hsteps.dropped x hcached).imp_right .inr
      · exact .inr (.inl hclosed)

theorem Builds.building (h : Builds settings order history c id) (hs : (c.calls.get? id).isSome) :
    Unshared c id ∧ ∃ stage, c.calls.get? id = some stage ∧ stage.isBuilding = true := by
  cases h with
  | probes _ _ rest hs' hsecluded => exact ⟨hsecluded.toUnshared, _, hs', rfl⟩
  | links due _ _ hs' _ hsecluded => exact ⟨hsecluded.toUnshared, _, hs', rfl⟩
  | refused _ _ _ hnone | returned _ _ hnone | abandoned hnone => simp [hnone] at hs

theorem Run.stocked (h : Run settings now history c) (hb : settings.bootstrap ≠ []) {r : Record}
    (hr : r ∈ history) (hevent : r.event = .start id .connect) (hs : (c.calls.get? id).isSome) :
    Stocked history c id := by
  revert hs
  refine h.since_start (P := fun history c => (c.calls.get? id).isSome → Stocked history c id)
    hr hevent ?_ ?_
  · -- nothing was dialed before, and nothing is cached by a start
    intro earlier hrun hp hs
    have hnone : started earlier = [] := hp.2.1.1 rfl
    obtain ⟨k, cause, hlink, hcause⟩ :=
      (step_steps r.draw hrun.keeps.coherent (hrun.keeps.admits hp)).link
    refine ⟨fun x hx => ?_, fun x hx => ?_⟩
    · rcases hlink.gained x hx with hcached | hdialed
      · cases (hrun.keeps.untouched hnone).1.symm.trans hcached
      · cases (hcause.dialed x).2 hdialed
    · exact absurd ((dialed_cons.1 hx).resolve_left (by simp)) (hrun.keeps.undialed hnone x)
  · intro earlier before e draw hrun hp hr hid ih hs
    have hunder := hrun.under_way draw hp hid (.inl hs)
    obtain ⟨hunshared, stage, hstage, hbuilding⟩ := (hrun.builds hb hr hevent).building hunder
    exact (ih hunder).next hrun draw hp hunshared hstage hbuilding

theorem held_of_lost (h : ∀ l ∈ sent, l.isLost = true) : held sent = none := by
  cases sent with
  | nil => rfl
  | cons l earlier => exact if_pos (h l (List.mem_cons_self ..))

theorem held_of_repeats (h : Repeats total q sent) {l : Letter} (hl : l ∈ sent)
    (hlost : ¬ l.isLost = true) : held sent = some l.conn := by
  cases sent with
  | nil => cases hl
  | cons l' earlier =>
    rcases List.mem_cons.1 hl with rfl | hl
    · exact if_neg hlost
    · exact absurd (h.lost l hl) hlost

theorem Builds.cached (h : Builds settings order history c id) (hs : (c.calls.get? id).isSome) :
    c.link.cached = held (letters history id) := by
  cases h with
  | probes _ _ _ _ _ hcached _ _ hletters => rw [hcached, hletters, held]
  | refused _ _ _ hnone | returned _ _ hnone | abandoned hnone => simp [hnone] at hs
  | links due j conn _ hj hsecluded _ _ _ hcorresponds =>
    generalize letters history id = sent at hcorresponds ⊢
    cases hcorresponds with
    | seeks _ _ e' _ hcalling _ hlost =>
      rw [held_of_lost fun l hl => (hlost l hl).2]
      rcases hsecluded.sole.job hj with ⟨e'', rfl⟩ | ⟨e'', x, rfl⟩
      · exact (hsecluded.sole.of_dialing hj).2
      · exact absurd rfl (hcalling e'' x)
    | waits earlier e' conn t => exact (hsecluded.sole.of_calling hj).2

theorem held_delivered (h : held sent = some x) (r : Except Fault Reply) :
    held (delivered now (some r) sent) = if Link.unreached r then none else some x := by
  cases sent with
  | nil => cases h
  | cons l earlier =>
    rw [held] at h
    split at h
    · cases h
    · obtain rfl := Option.some.inj h
      rfl

theorem Exchanges.silent {m : Move} {r : Except CallError Outcome}
    (h : Exchanges draw .connect total q sent c e id m) (hfinish : .finish id r ∈ m.2) :
    posted c.now m.2 id = [] := by
  cases h with
  | goes _ _ _ _ _ hplain => exact absurd hfinish (hplain.2 id r)
  | abandons _ _ _ hm =>
    rw [hm] at hfinish
    exact absurd hfinish ((plain_abandon c id).2 id r)
  | returns link before r' _ hposted _ _ hm =>
    obtain ⟨c', hsettle⟩ := settle_connect draw { c with link } id r'
    rw [hm, hsettle, Move.after, posted_append, hposted]
    rfl

theorem link_engage_connect (draw : Nat) (c : Client) (id : CallId) (due : Option Nat)
    (t : Link.Turn Request Reply) : (engage draw c id .connect due t).1.link = t.link := by
  unfold engage follow
  cases t.ending with
  | none => rfl
  | some ending =>
    cases ending with
    | shut => rfl
    | reply r => cases r <;> rfl

/-- What is heard in the event in which the build returns decides what stays cached. -/
theorem Secluded.cached_of_finish (h : Secluded settings c id) (draw : Nat) {due : Option Nat}
    {j : Link.Job Request} (hs : c.calls.get? id = some (.linking .connect due))
    (hj : c.link.jobs.get? id = some j) (hdue : due = none) (hcached : c.link.cached = held sent)
    (hnew : ∀ op, e ≠ .start id op) (hdialing : ∀ r, e = .dialed id r → c.isDialing id = true)
    (he : e.caller? = some id) {r : Except CallError Outcome}
    (hfinish : .finish id r ∈ (step draw c e).2) :
    (step draw c e).1.link.cached = held (delivered c.now (c.hears? id e) sent) := by
  have hstays (hm : step draw c e = c.stay) : False := by
    rw [hm] at hfinish
    cases hfinish
  cases Event.ofCall he with
  | start op => exact absurd rfl (hnew op)
  | chosen partition => exact (hstays (by simp only [step, chosen, hs])).elim
  | lapse => exact (hstays (by simp only [step, lapse, hs, hdue])).elim
  | abandon => exact absurd hfinish ((plain_abandon c id).2 id r)
  | run =>
    simp only [step, Client.run, hs]
    rw [link_engage_connect, h.sole.resume_idle]
    exact hcached.trans (congrArg held (delivered_none sent).symm)
  | dialed r' =>
    obtain ⟨e', hj'⟩ := dialing_of_isDialing hs (hdialing r' rfl)
    obtain ⟨hlock, hnone⟩ := h.sole.of_dialing hj'
    simp only [step, dialed, hs] at hfinish ⊢
    cases r' with
    | ok x =>
      rw [Link.dialed_free_ok hlock hj'] at hfinish
      exact absurd hfinish ((plain_map_ofOrder _).2 id r)
    | error f =>
      rw [link_engage_connect, h.sole.dialed_cached hj', ← hnone]
      exact hcached.trans (congrArg held (delivered_none sent).symm)
  | answered r' =>
    simp only [step, answered, hs]
    rw [link_engage_connect]
    rcases h.sole.job hj with ⟨e', rfl⟩ | ⟨e', x, rfl⟩
    · have hasked : c.asked id = none := by simp [asked, hj]
      rw [hears?_of_unasked hasked, delivered_none, Link.answered_idle _ (by simp [hj])]
      exact hcached
    · have hhears : c.hears? id (.answered (.caller id) r') = some r' := by
        simp [hears?, asked, hj]
      rw [hhears, h.sole.answered_cached hj]
      exact (held_delivered (hcached.symm.trans (h.sole.of_calling hj).2) r').symm

theorem Builds.cached_of_finish (h : Builds settings order history c id)
    (hrun : Run settings now history c) (draw : Nat) (hp : Possible history c e)
    (hid : id ∈ started history) (hs : (c.calls.get? id).isSome) {r : Except CallError Outcome}
    (hfinish : .finish id r ∈ (step draw c e).2) :
    (step draw c e).1.link.cached = held (letters (⟨c, draw, e⟩ :: history) id) := by
  have hnew := hp.not_start hid
  have hcached := h.cached hs
  cases h with
  | refused _ _ _ hnone | returned _ _ hnone | abandoned hnone => simp [hnone] at hs
  | probes failed a rest hs' hsecluded hnone _ _ hletters =>
    obtain ⟨r', rfl⟩ := hrun.dialed_of_probing draw hp hs' hfinish
    cases r' with
    | ok conn =>
      obtain ⟨link, n, -, hstep, -⟩ := hrun.step_connected hs' hsecluded draw conn
      rw [hstep] at hfinish
      simp at hfinish
    | error f =>
      have hm : step draw c (.dialed id (.error f)) = c.probe id (some f) rest := by
        simp only [step, dialed, hs']
      rw [letters_cons, hm, link_probe, hcached, hletters]
      cases rest <;> rfl
  | links due j conn hs' hj hsecluded _ _ _ hcorresponds =>
    have he : e.caller? = some id := by
      by_contra he
      exact (hrun.untouched draw hs' (by simp [Rests]) he).2 _ hfinish
    have hsilent := (hcorresponds.step draw hs' hj hnew hp.dialing he).silent hfinish
    rw [letters_cons, hsilent, List.nil_append]
    exact hsecluded.cached_of_finish draw hs' hj (hcorresponds.due_eq_none rfl) hcached hnew
      hp.dialing he hfinish

theorem Run.unbuilt (h : Run settings now history c) (hb : settings.bootstrap = []) {r : Record}
    (hr : r ∈ history) (hevent : r.event = .start id .connect) :
    c.calls.get? id = none ∧ letters history id = [] ∧ ∀ x, ¬ Dialed history id x := by
  refine h.since_start (P := fun history c => c.calls.get? id = none ∧ letters history id = [] ∧
    ∀ x, ¬ Dialed history id x) hr hevent ?_ ?_
  · intro earlier hrun hp
    have hnone : started earlier = [] := hp.2.1.1 rfl
    have hm : step r.draw r.before (.start id .connect) =
        r.before.finish id (.error .noBrokers) := by
      have hopen : r.before.closed = false := (hrun.still_of_new hnone).closed
      simp only [step, start, hopen, openCall, connect, hrun.settings_eq]
      simp [hb]
    refine ⟨by simp [hm], ?_, fun x hx => ?_⟩
    · rw [letters_cons, hm, hrun.letters_of_new hp.1]
      rfl
    · exact hrun.keeps.undialed hnone x ((dialed_cons.1 hx).resolve_left (by simp))
  · rintro earlier before e draw hrun hp - hid ⟨hs, hletters, hdialed⟩
    have hnew := hp.not_start hid
    refine ⟨(hrun.gone draw hp hs hid).1, (hrun.letters_of_gone draw hs hnew).trans hletters, ?_⟩
    intro x hx
    rcases dialed_cons.1 hx with rfl | hx
    · have hsome := isSome_of_isDialing hp.1
      simp [hs] at hsome
    · exact hdialed x hx

/-- When the build of a client fails, by then all connections that it has dialed are closed exactly
if it was told of each of its letters that the broker cannot be reached, so that none of them was
answered with another error. The dialer keeps to `Fresh`. -/
theorem Run.build_leaves_nothing_iff (h : Run settings now history c) {r : Record}
    {earlier : History} (hs : r :: earlier <:+ history)
    (hstart : ∃ first ∈ history, first.event = .start id .connect) {error : CallError}
    (hfinish : .finish id (.error error) ∈ r.move.2) :
    (∀ x, Dialed (r :: earlier) id x → x ∈ closes (trail (r :: earlier))) ↔
      ∀ l ∈ letters (r :: earlier) id, l.isLost = true := by
  obtain ⟨hrun, hp⟩ := h.of_suffix hs
  have hrun' : Run settings now (r :: earlier) (step r.draw r.before r.event).1 :=
    hrun.next r.draw hp
  obtain ⟨first, hfirst, op, hop⟩ := hrun.started_of_finish r.draw hp hfinish
  obtain ⟨first', hfirst', hevent⟩ := hstart
  obtain rfl : op = .connect := h.started_once hfirst' (hs.subset hfirst) hevent hop
  by_cases hb : settings.bootstrap = []
  · obtain ⟨-, hletters, hdialed⟩ := hrun'.unbuilt hb hfirst hop
    simp [hletters, hdialed]
  rcases List.mem_cons.1 hfirst with rfl | hfirst
  · dsimp only at hop
    obtain ⟨a, rest, -, hm⟩ := hrun.step_begun hb r.draw (hop ▸ hp)
    rw [Record.move, hop, hm] at hfinish
    simp at hfinish
  have hid := mem_started.2 ⟨first, hfirst, .connect, hop⟩
  have hsome := hrun.under_way r.draw hp hid (.inr ⟨_, hfinish⟩)
  have hbuilds := hrun.builds hb hfirst hop
  have hcached := hbuilds.cached_of_finish hrun r.draw hp hid hsome hfinish
  obtain ⟨hunshared, stage, hstage, hbuilding⟩ := hbuilds.building hsome
  have hstocked : Stocked (r :: earlier) (step r.draw r.before r.event).1 id :=
    (hrun.stocked hb hfirst hop hsome).next hrun r.draw hp hunshared hstage hbuilding
  constructor
  -- only the latest letter can be one that was not lost, and its connection is what is cached
  · intro hclosed l hl
    by_contra hlost
    have hrepeats := (hbuilds.next hrun hid r.draw hp).approaches.repeats
    have hheld := held_of_repeats hrepeats hl hlost
    have hcached' := hcached.trans hheld
    exact hrun'.keeps.not_closed hcached' (hclosed _ (hstocked.cached _ hcached'))
  · intro hlost x hx
    have hnone := hcached.trans (held_of_lost hlost)
    exact (hstocked.dialed x hx).resolve_left (by simp [hnone])

end Leftovers

/-- Two attempts come to a broker each, and both brokers are gone before they answer. -/
def outworn : List (Nat × Event) :=
  [(0, .start 0 .connect), (0, .dialed 0 (.ok 1)),
    (0, .answered (.caller 0) (.error (.unavailable "gone"))), (0, .dialed 0 (.ok 2)),
    (0, .answered (.caller 0) (.error (.unavailable "gone")))]

theorem build_leaves_nothing_outworn :
    ∃ s, play ([], .fresh { bootstrap := ["a:1"], attempts := 2 } 0) outworn = some s ∧
      ∃ r earlier, s.1 = r :: earlier ∧
        .finish 0 (.error (.rpc (.unavailable "gone"))) ∈ r.move.2 ∧
        ((∀ x, Dialed (r :: earlier) 0 x → x ∈ closes (trail (r :: earlier))) ↔
          ∀ l ∈ letters (r :: earlier) 0, l.isLost = true) ∧
        closes (trail s.1) = [1, 2] := by
  have hends : (play ([], .fresh { bootstrap := ["a:1"], attempts := 2 } 0) outworn).map (fun s =>
      decide ((∃ r ∈ s.1.head?, .finish 0 (.error (.rpc (.unavailable "gone"))) ∈ r.move.2) ∧
        (∃ r ∈ s.1, r.event = .start 0 .connect) ∧ closes (trail s.1) = [1, 2])) = some true := by
    decide +kernel
  obtain ⟨s, hs, hrun, ⟨r, hr, hfinish⟩, hstart, hcloses⟩ := exists_run hends
  obtain ⟨earlier, heq⟩ := List.head?_eq_some_iff.1 hr
  exact ⟨s, hs, r, earlier, heq, hfinish,
    hrun.build_leaves_nothing_iff (heq ▸ List.suffix_refl _) hstart hfinish, hcloses⟩

/-- The only broker refuses the metadata: the build fails, and nobody closes the connection. -/
theorem refused_leaves :
    ∃ s, play ([], .fresh { bootstrap := ["a:1"] } 0)
        [(0, .start 0 .connect), (0, .dialed 0 (.ok 1)),
          (0, .answered (.caller 0) (.error ⟨.notFound, "no metadata"⟩))] = some s ∧
      Run { bootstrap := ["a:1"] } 0 s.1 s.2 ∧
      .finish 0 (.error (.rpc ⟨.notFound, "no metadata"⟩)) ∈ trail s.1 ∧
      Dialed s.1 0 1 ∧ 1 ∉ closes (trail s.1) := by
  have hends : (play ([], .fresh { bootstrap := ["a:1"] } 0)
      [(0, .start 0 .connect), (0, .dialed 0 (.ok 1)),
        (0, .answered (.caller 0) (.error ⟨.notFound, "no metadata"⟩))]).map (fun s => decide
          (.finish 0 (.error (.rpc ⟨.notFound, "no metadata"⟩)) ∈ trail s.1 ∧
            (∃ r ∈ s.1, r.event = .dialed 0 (.ok 1)) ∧ 1 ∉ closes (trail s.1))) = some true := by
    decide +kernel
  obtain ⟨s, hs, hrun, hleft⟩ := exists_run hends
  exact ⟨s, hs, hrun, hleft⟩

end StreamClient.Client
