import StreamClient.Proofs.Client.Building
import StreamClient.Proofs.Client.Deadlines
import StreamClient.Proofs.Client.Fallbacks

/-! What a build comes to: which addresses it dials, when it succeeds and what it returns. -/

namespace StreamClient.Client

/-- What holds of a build of which the bootstrap list came up in this order. -/
structure BuildLaw (settings : Settings) (history : History) (id : CallId) (order : List Address) :
    Prop where
  drawn : order.Perm settings.bootstrap ∧ ∀ order', order'.Perm settings.bootstrap →
    ∃ draw, shuffle draw settings.bootstrap = order'
  /-- The list is dialed in that order, one dial after another and until one succeeds, whatever the
  others fail with. Metadata are asked for on that connection first. -/
  approaches : Approaches order (Snapshot.distinctAddresses settings.bootstrap)
    (max settings.attempts 1) (dialings history id) (letters history id)
  ends : ∀ r earlier, r :: earlier <:+ history → ∀ result, r.event = .dialed id result →
    ∃ a rest, dialings earlier id = ⟨a, none⟩ :: rest
  /-- Once all dials have failed, the whole list was dialed and nothing sent, and the build returns what
  the last one failed with. -/
  refused : (∀ d ∈ dialings history id, ∃ f, d.result = some (.error f)) →
    ((dialings history id).map Dialing.address).reverse = order ∧ letters history id = [] ∧
      ∃ a f failed, dialings history id = ⟨a, some (.error f)⟩ :: failed ∧
        .finish id (.error (.rpc f)) ∈ trail history
  /-- If only the address decides whether a dial succeeds, the order does not matter for whether one
  does. -/
  reachable : ∀ up : Address → Bool, (∀ d ∈ dialings history id, ∀ r, d.result = some r →
      (up d.address = true ↔ ∃ conn, r = .ok conn)) → ∀ out, .finish id out ∈ trail history →
    ((∃ d ∈ dialings history id, ∃ conn, d.result = some (.ok conn)) ↔
      ∃ a ∈ settings.bootstrap, up a = true)
  /-- When the first connection failed, any of the distinct addresses may be dialed and no other. -/
  distinct : (Snapshot.distinctAddresses settings.bootstrap).Nodup ∧
    (∀ a, a ∈ Snapshot.distinctAddresses settings.bootstrap ↔ a ∈ settings.bootstrap) ∧
    ∀ a ∈ Snapshot.distinctAddresses settings.bootstrap,
      ∃ draw, choose draw (Snapshot.distinctAddresses settings.bootstrap) = some a
  candidates : ∀ r earlier, r :: earlier <:+ history → letters earlier id ≠ [] →
    ∀ a, .dial id a ∈ r.move.2 →
      choose r.draw (Snapshot.distinctAddresses settings.bootstrap) = some a
  attempts : ∀ r earlier, r :: earlier <:+ history → letters earlier id ≠ [] → ∀ f,
    .finish id (.error (.rpc f)) ∈ r.move.2 → f.isUnavailable = true →
      ((r.before.mishap? id r.event).toList ++ setbacks earlier id).length =
        max settings.attempts 1
  succeeds : ∀ out, .finish id (.ok out) ∈ trail history ↔
    ∃ reply, Answered (letters history id) reply ∧
      out = .refreshed (.ofTopology settings.bootstrap reply.topology)
  installed : ∀ r ∈ history, ∀ s, .finish id (.ok (.refreshed s)) ∈ r.move.2 →
    r.move.1.snapshot = s ∧ s.bootstrap = Snapshot.distinctAddresses settings.bootstrap

section Startup

variable {settings : Settings} {now : Nat} {history : History} {c : Client} {draw : Nat} {e : Event}
  {id : CallId} {order : List Address}

theorem Builds.finished (h : Builds settings order history c id) (hlife : Life history c id)
    {out : Except CallError Outcome} (hout : .finish id out ∈ trail history) :
    (∃ failed a f, Tried order (⟨a, some (.error f)⟩ :: failed) [] ∧
      dialings history id = ⟨a, some (.error f)⟩ :: failed ∧ letters history id = [] ∧
        out = .error (.rpc f)) ∨
    ∃ conn r, Reaches order (Snapshot.distinctAddresses settings.bootstrap) conn
        (dialings history id) ∧
      Concludes (max settings.attempts 1) .fetchMetadata (letters history id) r ∧
        out = built settings.bootstrap r := by
  cases h with
  | probes failed a rest hs => exact absurd hout (hlife.unfinished hs out)
  | links due j conn hs => exact absurd hout (hlife.unfinished hs out)
  | abandoned _ hunfinished => exact absurd hout (hunfinished out)
  | refused failed a f _ htried hdialings hletters hfinish =>
    exact .inl ⟨failed, a, f, htried, hdialings, hletters, (hlife.finish _ hfinish).2.2 _ hout⟩
  | returned conn r _ hreaches _ hconcludes hfinish =>
    exact .inr ⟨conn, r, hreaches, hconcludes, (hlife.finish _ hfinish).2.2 _ hout⟩

theorem Builds.refused_of_vain (h : Builds settings order history c id)
    (hvain : ∀ d ∈ dialings history id, ∃ f, d.result = some (.error f)) :
    ((dialings history id).map Dialing.address).reverse = order ∧ letters history id = [] ∧
      ∃ a f failed, dialings history id = ⟨a, some (.error f)⟩ :: failed ∧
        .finish id (.error (.rpc f)) ∈ trail history := by
  have hreached {conn : Conn} (hreaches : Reaches order
      (Snapshot.distinctAddresses settings.bootstrap) conn (dialings history id)) : False := by
    obtain ⟨a, -, hdial⟩ := hreaches.exists_dial
    obtain ⟨f, hf⟩ := hvain _ hdial
    cases hf
  cases h with
  | refused failed a f _ htried hdialings hletters hfinish =>
    refine ⟨?_, hletters, a, f, failed, hdialings, hfinish⟩
    rw [hdialings]
    simpa using htried.order
  | probes failed a rest _ _ _ _ hdialings =>
    obtain ⟨f, hf⟩ := hvain ⟨a, none⟩ (hdialings ▸ List.mem_cons_self ..)
    cases hf
  | links due j conn _ _ _ hreaches => exact (hreached hreaches).elim
  | returned conn r _ hreaches => exact (hreached hreaches).elim
  | abandoned _ _ _ hleft =>
    obtain ⟨d, hd, hnot⟩ := hleft
    obtain ⟨f, hf⟩ := hvain d hd
    exact absurd hf (hnot f)

theorem Builds.succeeds (h : Builds settings order history c id) (hlife : Life history c id)
    (out : Outcome) : .finish id (.ok out) ∈ trail history ↔
      ∃ reply, Answered (letters history id) reply ∧
        out = .refreshed (.ofTopology settings.bootstrap reply.topology) := by
  constructor
  · intro hout
    rcases h.finished hlife hout with ⟨failed, a, f, -, -, -, hf⟩ | ⟨conn, r, -, hconcludes, hr⟩
    · cases hf
    · cases r with
      | ok reply => exact ⟨reply, (hconcludes.answered_iff reply).1 rfl, Except.ok.inj hr⟩
      | error f => cases hr
  · rintro ⟨reply, hreply, rfl⟩
    cases h with
    | probes _ _ _ _ _ _ _ _ hletters | refused _ _ _ _ _ _ hletters =>
      obtain ⟨l, t, hl, -⟩ := hreply
      rw [hletters] at hl
      cases hl
    | links due j conn _ _ _ _ _ _ hcorresponds =>
      exact absurd hreply (hcorresponds.not_answered reply)
    | abandoned _ _ hunanswered => exact absurd hreply (hunanswered reply)
    | returned conn r _ _ _ hconcludes hfinish =>
      obtain rfl := (hconcludes.answered_iff reply).2 hreply
      exact hfinish

theorem Builds.linking (h : Builds settings order history c id)
    (hne : letters history id ≠ []) (hs : (c.calls.get? id).isSome) :
    ∃ due, c.calls.get? id = some (.linking .connect due) ∧
      c.snapshot = .initial settings.bootstrap := by
  cases h with
  | probes _ _ _ _ _ _ _ _ hletters => exact absurd hletters hne
  | links due j conn hs' _ hsecluded => exact ⟨due, hs', hsecluded.snapshot⟩
  | refused _ _ _ hnone | returned _ _ hnone | abandoned hnone => simp [hnone] at hs

theorem Builds.open_dial (h : Builds settings order history c id) (hdialing : c.isDialing id = true) :
    ∃ a rest, dialings history id = ⟨a, none⟩ :: rest := by
  have hsome := isSome_of_isDialing hdialing
  cases h with
  | probes failed a rest _ _ _ _ hdialings => exact ⟨a, failed, hdialings⟩
  | links due j conn hs hj _ _ hopen =>
    obtain ⟨e', hj'⟩ := dialing_of_isDialing hs hdialing
    exact hopen e' (Option.some.inj (hj.symm.trans hj'))
  | refused _ _ _ hnone | returned _ _ hnone | abandoned hnone => simp [hnone] at hsome

theorem Builds.reachable_iff (h : Builds settings order history c id) (hlife : Life history c id)
    (hmem : ∀ a, a ∈ order ↔ a ∈ settings.bootstrap) {up : Address → Bool}
    (hup : ∀ d ∈ dialings history id, ∀ r, d.result = some r →
      (up d.address = true ↔ ∃ conn, r = .ok conn))
    {out : Except CallError Outcome} (hout : .finish id out ∈ trail history) :
    (∃ d ∈ dialings history id, ∃ conn, d.result = some (.ok conn)) ↔
      ∃ a ∈ settings.bootstrap, up a = true := by
  rcases h.finished hlife hout with
    ⟨failed, a, f, htried, hdialings, -, -⟩ | ⟨conn, -, hreaches, -, -⟩
  · rw [hdialings] at hup ⊢
    constructor
    · rintro ⟨d, hd, conn, hconn⟩
      obtain ⟨f', hf'⟩ := htried.vain d hd
      cases hconn.symm.trans hf'
    · rintro ⟨b, hb, hup'⟩
      obtain ⟨d, hd, rfl⟩ := (htried.mem_order.1 ((hmem b).2 hb)).resolve_right (by simp)
      obtain ⟨f', hf'⟩ := htried.vain d hd
      obtain ⟨conn, hconn⟩ := (hup d hd _ hf').1 hup'
      cases hconn
  · obtain ⟨a, ha, hdial⟩ := hreaches.exists_dial
    exact iff_of_true ⟨_, hdial, conn, rfl⟩
      ⟨a, (hmem a).1 ha, (hup _ hdial _ rfl).2 ⟨conn, rfl⟩⟩

theorem letters_ne_nil (h : letters history id ≠ []) :
    letters (⟨c, draw, e⟩ :: history) id ≠ [] := by
  intro hnil
  have hle := length_letters_le c draw e history id
  rw [hnil] at hle
  exact h (List.eq_nil_of_length_eq_zero (Nat.le_zero.1 hle))

/-- Over every run, whatever order the bootstrap list comes up in and whatever dials and brokers
come to: the build finds the first address of that order that can be reached, and fetches the
metadata from there. The dialer keeps to `Fresh`. -/
theorem Run.build_law (h : Run settings now history c) (hb : settings.bootstrap ≠ []) {r : Record}
    (hr : r ∈ history) (hevent : r.event = .start id .connect) :
    BuildLaw settings history id (shuffle r.draw settings.bootstrap) := by
  have hbuilds := h.builds hb hr hevent
  have hlife := h.life id
  have hmem : ∀ a, a ∈ shuffle r.draw settings.bootstrap ↔ a ∈ settings.bootstrap :=
    fun a => (shuffle_perm r.draw settings.bootstrap).mem_iff
  have hbefore {r' : Record} {earlier : History} (hs : r' :: earlier <:+ history)
      (hid : id ∈ started earlier) : ∃ order, Builds settings order earlier r'.before id := by
    obtain ⟨first, hfirst, op, hop⟩ := mem_started.1 hid
    have hmem' : first ∈ history := hs.subset (List.mem_cons_of_mem _ hfirst)
    obtain rfl : op = .connect := h.started_once hr hmem' hevent hop
    exact ⟨_, (h.of_suffix hs).1.builds hb hfirst hop⟩
  have hstarted {r' : Record} {earlier : History} (hs : r' :: earlier <:+ history)
      (hne : letters earlier id ≠ []) : id ∈ started earlier := by
    by_contra hnew
    exact hne ((h.of_suffix hs).1.letters_of_new hnew)
  exact {
    drawn := ⟨shuffle_perm _ _, fun order' => exists_shuffle⟩
    approaches := hbuilds.approaches
    ends := fun r' earlier hs result hdialed => by
      obtain ⟨hrun, hp⟩ := h.of_suffix hs
      rw [hdialed] at hp
      have hsome := isSome_of_isDialing hp.1
      obtain ⟨order, hearlier⟩ := hbefore hs (hrun.keeps.known id (.inl hsome))
      exact hearlier.open_dial hp.1
    refused := hbuilds.refused_of_vain
    reachable := fun up hup out hout => hbuilds.reachable_iff hlife hmem hup hout
    distinct := ⟨Snapshot.nodup_distinctAddresses _, fun _ => Snapshot.mem_distinctAddresses,
      fun _ => exists_choose⟩
    candidates := fun r' earlier hs hne a hdial => by
      obtain ⟨hrun, hp⟩ := h.of_suffix hs
      have hid := hstarted hs hne
      obtain ⟨order, hearlier⟩ := hbefore hs hid
      obtain ⟨stage, hstage, -⟩ := hrun.stage_of_dial r'.draw hdial
      obtain ⟨due, hlinks, hsnapshot⟩ := (hearlier.next hrun hid r'.draw hp).linking
        (letters_ne_nil hne) (by simp [hstage])
      exact hrun.begun_candidates r'.draw hsnapshot hlinks ⟨a, none⟩ (mem_begun.2 ⟨hdial, rfl⟩)
    attempts := fun r' earlier hs hne f hfinish hf => by
      obtain ⟨hrun, hp⟩ := h.of_suffix hs
      have hid := hstarted hs hne
      obtain ⟨order, hearlier⟩ := hbefore hs hid
      have hsome := hrun.under_way r'.draw hp hid (.inr ⟨_, hfinish⟩)
      obtain ⟨due, hlinks, -⟩ := hearlier.linking hne hsome
      obtain ⟨first, hfirst, op, hop⟩ := hrun.started_of_finish r'.draw hp hfinish
      have hfares := hrun.fares hb r'.draw hp ⟨first, hfirst, hop⟩
      obtain ⟨-, -, hall⟩ := hfares.fails _ hfinish (by simp [isHeard, hlinks]) f rfl
      exact hall hf .connect due hlinks
    succeeds := hbuilds.succeeds hlife
    installed := fun r' hr' s hfinish => by
      obtain ⟨earlier, hrun, -⟩ := h.of_mem hr'
      obtain ⟨reply, -, hreply⟩ := (hbuilds.succeeds hlife _).1 (mem_trail.2 ⟨r', hr', hfinish⟩)
      obtain rfl := Outcome.refreshed.inj hreply
      exact ⟨((hrun.deals r'.draw r'.event).informs.refreshed id _ hfinish).2.symm, rfl⟩ }

end Startup

/-- A bootstrap list with one address twice. The first dial fails, and the broker that the second came
to is gone before it answers. -/
def rebuilt : List (Nat × Event) :=
  [(1, .start 0 .connect), (0, .dialed 0 (.error ⟨.notFound, "no such broker"⟩)), (0, .dialed 0 (.ok 1)),
    (1, .answered (.caller 0) (.error (.unavailable "gone"))), (0, .dialed 0 (.ok 2)),
    (0, .answered (.caller 0) (.ok { topology := lone }))]

theorem build_law_rebuilt :
    ∃ s, play ([], .fresh { bootstrap := ["a:1", "b:2", "a:1"] } 0) rebuilt = some s ∧
      BuildLaw { bootstrap := ["a:1", "b:2", "a:1"] } s.1 0 ["b:2", "a:1", "a:1"] ∧
      dialings s.1 0 = [⟨"b:2", some (.ok 2)⟩, ⟨"a:1", some (.ok 1)⟩,
        ⟨"b:2", some (.error ⟨.notFound, "no such broker"⟩)⟩] ∧
      (letters s.1 0).map Letter.conn = [2, 1] ∧
      .finish 0 (.ok (.refreshed (.ofTopology ["a:1", "b:2", "a:1"] lone))) ∈ trail s.1 := by
  have hends : (play ([], .fresh { bootstrap := ["a:1", "b:2", "a:1"] } 0) rebuilt).map (fun s =>
      decide ((∃ r ∈ s.1, r.event = .start 0 .connect ∧
          shuffle r.draw ["a:1", "b:2", "a:1"] = ["b:2", "a:1", "a:1"]) ∧
        dialings s.1 0 = [⟨"b:2", some (.ok 2)⟩, ⟨"a:1", some (.ok 1)⟩,
          ⟨"b:2", some (.error ⟨.notFound, "no such broker"⟩)⟩] ∧
        (letters s.1 0).map Letter.conn = [2, 1] ∧
        .finish 0 (.ok (.refreshed (.ofTopology ["a:1", "b:2", "a:1"] lone))) ∈ trail s.1)) =
          some true := by
    decide +kernel
  obtain ⟨s, hs, hrun, ⟨r, hr, hevent, horder⟩, hfacts⟩ := exists_run hends
  exact ⟨s, hs, horder ▸ hrun.build_law (by simp) hr hevent, hfacts⟩

end StreamClient.Client
