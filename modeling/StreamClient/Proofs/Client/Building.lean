import StreamClient.Proofs.Bootstrap
import StreamClient.Proofs.Client.Dialings
import StreamClient.Proofs.Client.Sole

/-! How a client is built: the bootstrap addresses are dialed one after another until a broker answers,
and from there on the build is a call like any other. -/

namespace StreamClient.Client

open Link (Job)

/-- The first addresses of `order` were dialed in vain, the latest in front, and `rest` are the
others. -/
structure Tried (order : List Address) (failed : List Dialing) (rest : List Address) : Prop where
  vain : ∀ d ∈ failed, ∃ f, d.result = some (.error f)
  order : (failed.map Dialing.address).reverse ++ rest = order

/-- The first dial that did not fail gave `conn`. Later ones are to `candidates`. -/
inductive Reaches (order candidates : List Address) (conn : Conn) : List Dialing → Prop
  | mk (later : List Dialing) (a : Address) (failed : List Dialing) (rest : List Address) :
    Tried order failed (a :: rest) → (∀ d ∈ later, d.address ∈ candidates) →
      Reaches order candidates conn (later ++ ⟨a, some (.ok conn)⟩ :: failed)

/-- What a build has dialed and sent: nothing is sent before it has a connection, and the first
request goes there. -/
inductive Approaches (order candidates : List Address) (total : Nat) :
    List Dialing → List Letter → Prop
  | tries (failed : List Dialing) (a : Address) (rest : List Address) :
    Tried order failed (a :: rest) → Approaches order candidates total (⟨a, none⟩ :: failed) []
  | refused (failed : List Dialing) : Tried order failed [] →
    Approaches order candidates total failed []
  | fetches (dialings : List Dialing) (letters : List Letter) (conn : Conn) :
    Reaches order candidates conn dialings → letters.getLast?.map Letter.conn = some conn →
      Repeats total .fetchMetadata letters → Approaches order candidates total dialings letters

def built (bootstrap : List Address) : Except Fault Reply → Except CallError Outcome
  | .ok reply => .ok (.refreshed (.ofTopology bootstrap reply.topology))
  | .error f => .error (.rpc f)

/-- The build is under way: no other call is, and nothing is known but the bootstrap list. -/
structure Secluded (settings : Settings) (c : Client) (id : CallId) : Prop
    extends Unshared c id where
  snapshot : c.snapshot = .initial settings.bootstrap

/-- How the build of a client stands that dials in this order. -/
inductive Builds (settings : Settings) (order : List Address) (history : History) (c : Client)
    (id : CallId) : Prop
  | probes (failed : List Dialing) (a : Address) (rest : List Address) :
    c.calls.get? id = some (.probing rest) → Secluded settings c id → c.link.cached = none →
      Tried order failed (a :: rest) → dialings history id = ⟨a, none⟩ :: failed →
        letters history id = [] → Builds settings order history c id
  | refused (failed : List Dialing) (a : Address) (f : Fault) : c.calls.get? id = none →
    Tried order (⟨a, some (.error f)⟩ :: failed) [] →
      dialings history id = ⟨a, some (.error f)⟩ :: failed → letters history id = [] →
        .finish id (.error (.rpc f)) ∈ trail history → Builds settings order history c id
  | links (due : Option Nat) (j : Job Request) (conn : Conn) :
    c.calls.get? id = some (.linking .connect due) → c.link.jobs.get? id = some j →
      Secluded settings c id →
      Reaches order (Snapshot.distinctAddresses settings.bootstrap) conn (dialings history id) →
      (∀ e', j = .dialing e' → ∃ a earlier, dialings history id = ⟨a, none⟩ :: earlier) →
      (letters history id).getLast?.map Letter.conn = some conn →
      Corresponds (max settings.attempts 1) .fetchMetadata (letters history id) due j →
        Builds settings order history c id
  | returned (conn : Conn) (r : Except Fault Reply) : c.calls.get? id = none →
    Reaches order (Snapshot.distinctAddresses settings.bootstrap) conn (dialings history id) →
    (letters history id).getLast?.map Letter.conn = some conn →
    Concludes (max settings.attempts 1) .fetchMetadata (letters history id) r →
    .finish id (built settings.bootstrap r) ∈ trail history → Builds settings order history c id
  | abandoned : c.calls.get? id = none → (∀ r, .finish id r ∉ trail history) →
    (∀ reply, ¬ Answered (letters history id) reply) →
    (∃ d ∈ dialings history id, ∀ f, d.result ≠ some (.error f)) →
    Approaches order (Snapshot.distinctAddresses settings.bootstrap) (max settings.attempts 1)
      (dialings history id) (letters history id) → Builds settings order history c id

section Building

variable {settings : Settings} {now total : Nat} {history : History} {c : Client} {draw : Nat}
  {e : Event} {id : CallId} {order candidates : List Address} {conn : Conn}

theorem Tried.fail {failed : List Dialing} {a : Address} {rest : List Address}
    (h : Tried order failed (a :: rest)) (f : Fault) :
    Tried order (⟨a, some (.error f)⟩ :: failed) rest where
  vain d hd := by
    rcases List.mem_cons.1 hd with rfl | hd
    · exact ⟨f, rfl⟩
    · exact h.vain d hd
  order := by
    rw [List.map_cons, List.reverse_cons, List.append_assoc]
    exact h.order

theorem Tried.mem_order {failed : List Dialing} {rest : List Address}
    (h : Tried order failed rest) {a : Address} :
    a ∈ order ↔ (∃ d ∈ failed, d.address = a) ∨ a ∈ rest := by
  rw [← h.order, List.mem_append, List.mem_reverse, List.mem_map]

theorem Reaches.exists_dial {dialings : List Dialing} (h : Reaches order candidates conn dialings) :
    ∃ a ∈ order, ⟨a, some (.ok conn)⟩ ∈ dialings := by
  obtain ⟨later, a, failed, rest, htried, -⟩ := h
  refine ⟨a, htried.mem_order.2 (.inr (List.mem_cons_self ..)), ?_⟩
  simp

theorem Reaches.begin {dialings new : List Dialing} (h : Reaches order candidates conn dialings)
    (hnew : ∀ d ∈ new, d.address ∈ candidates) :
    Reaches order candidates conn (new ++ dialings) := by
  obtain ⟨later, a, failed, rest, htried, hlater⟩ := h
  rw [← List.append_assoc]
  refine .mk (new ++ later) a failed rest htried fun d hd => ?_
  exact (List.mem_append.1 hd).elim (hnew d) (hlater d)

theorem Reaches.ended {dialings : List Dialing} (h : Reaches order candidates conn dialings)
    (hopen : ∀ r, e = .dialed id r → ∃ a earlier, dialings = ⟨a, none⟩ :: earlier) :
    Reaches order candidates conn (ended id e dialings) := by
  by_cases he : ∃ r, e = .dialed id r
  · obtain ⟨r, rfl⟩ := he
    obtain ⟨a, earlier, hdialings⟩ := hopen r rfl
    obtain ⟨later, b, failed, rest, htried, hlater⟩ := h
    cases later with
    | nil => cases hdialings
    | cons d later =>
      have hcons : Client.ended id (.dialed id r) (d :: later ++ ⟨b, some (.ok conn)⟩ :: failed) =
          { d with result := some r } :: later ++ ⟨b, some (.ok conn)⟩ :: failed := by
        simp [Client.ended]
      rw [hcons]
      refine .mk _ b failed rest htried fun d' hd' => ?_
      rcases List.mem_cons.1 hd' with rfl | hd'
      · exact hlater d (List.mem_cons_self ..)
      · exact hlater d' (List.mem_cons_of_mem _ hd')
  · rw [ended_of_ne fun r hr => he ⟨r, hr⟩]
    exact h

theorem Run.begun_candidates (h : Run settings now history c) (draw : Nat)
    (hsnapshot : (step draw c e).1.snapshot = .initial settings.bootstrap) {due : Option Nat}
    (hs : (step draw c e).1.calls.get? id = some (.linking .connect due)) :
    ∀ d ∈ begun (step draw c e).2 id,
      choose draw (Snapshot.distinctAddresses settings.bootstrap) = some d.address := by
  intro d hd
  have hdial := (mem_begun.1 hd).1
  rcases (h.deals draw e).informs.dials id _ hdial with ⟨hpick, -⟩ | ⟨-, rest, hs'⟩ | ⟨s, hs', -⟩
  · rwa [pick, hsnapshot, Snapshot.addresses_initial] at hpick
  · cases hs.symm.trans hs'
  · cases hs.symm.trans hs'

theorem getLast?_delivered (now : Nat) (r : Option (Except Fault Reply)) (sent new : List Letter)
    (h : sent.getLast?.map Letter.conn = some conn) :
    (new ++ delivered now r sent).getLast?.map Letter.conn = some conn := by
  have hsame : (delivered now r sent).getLast?.map Letter.conn = some conn := by
    unfold delivered
    split
    · next r l earlier =>
      cases earlier with
      | nil => simpa using h
      | cons l' earlier => simpa [List.getLast?_cons] using h
    · exact h
  obtain ⟨l, hl, hconn⟩ := Option.map_eq_some_iff.1 hsame
  rw [List.getLast?_append, hl]
  simpa using hconn

theorem Builds.approaches (h : Builds settings order history c id) :
    Approaches order (Snapshot.distinctAddresses settings.bootstrap) (max settings.attempts 1)
      (dialings history id) (letters history id) := by
  cases h with
  | probes failed a rest _ _ _ htried hdialings hletters =>
    rw [hdialings, hletters]
    exact .tries failed a rest htried
  | refused failed a f _ htried hdialings hletters _ =>
    rw [hdialings, hletters]
    exact .refused _ htried
  | links due j conn _ _ _ hreaches _ hfirst hcorresponds =>
    exact .fetches _ _ conn hreaches hfirst hcorresponds.repeats
  | returned conn r _ hreaches hfirst hconcludes _ =>
    exact .fetches _ _ conn hreaches hfirst hconcludes.repeats
  | abandoned _ _ _ _ happroaches => exact happroaches

theorem Approaches.repeats {dialings : List Dialing} {letters : List Letter}
    (h : Approaches order candidates total dialings letters) :
    Repeats total .fetchMetadata letters := by
  cases h with
  | tries | refused => exact ⟨by simp, by simp, Nat.zero_le _⟩
  | fetches _ _ conn _ _ hrepeats => exact hrepeats

theorem Secluded.away (h : Secluded settings c id) (hrun : Run settings now history c) (draw : Nat)
    (hp : Possible history c e) (hstart : ∀ k op, e ≠ .start k op) (he : e.caller? ≠ some id) :
    Secluded settings (step draw c e).1 id where
  toUnshared := h.toUnshared.away hrun draw hp hstart he
  snapshot := by
    have hstill : Still c (step draw c e).1 := by
      refine still_of_idle draw (fun k hk => h.others k ?_) hstart
      rintro rfl
      exact he hk
    exact hstill.snapshot.trans h.snapshot

theorem settle_connect (draw : Nat) (c : Client) (id : CallId) (r : Except Fault Reply) :
    ∃ c' : Client, settle draw c id .connect r = c'.finish id (built c.settings.bootstrap r) := by
  cases r with
  | ok reply => exact ⟨c.install reply.topology, rfl⟩
  | error f => exact ⟨c, rfl⟩

theorem Run.begun_of_gone (h : Run settings now history c) (draw : Nat)
    (hs : (step draw c e).1.calls.get? id = none) : begun (step draw c e).2 id = [] := by
  apply begun_eq_nil
  intro a ha
  obtain ⟨stage, hstage, -⟩ := h.stage_of_dial draw ha
  cases hstage.symm.trans hs

theorem Run.builds_of_exchanges (h : Run settings now history c)
    (hseclude : ((step draw c e).1.calls.get? id).isSome → Secluded settings (step draw c e).1 id)
    (hreaches : Reaches order (Snapshot.distinctAddresses settings.bootstrap) conn
      (ended id e (dialings history id)))
    (hopen : ∀ e', c.link.jobs.get? id = some (.dialing e') →
      ∃ a earlier, dialings history id = ⟨a, none⟩ :: earlier)
    (hfirst : (letters history id).getLast?.map Letter.conn = some conn)
    (hunfinished : ∀ r, .finish id r ∉ trail history)
    (hex : Exchanges draw .connect (max settings.attempts 1) .fetchMetadata
      (delivered c.now (c.hears? id e) (letters history id)) c e id (step draw c e)) :
    Builds settings order (⟨c, draw, e⟩ :: history) (step draw c e).1 id := by
  have hdialings := dialings_cons c draw e history id
  have hfirst' : (letters (⟨c, draw, e⟩ :: history) id).getLast?.map Letter.conn = some conn :=
    getLast?_delivered _ _ _ _ hfirst
  -- a call that is over by now has begun no dial
  have hover (hs : (step draw c e).1.calls.get? id = none) :
      Reaches order (Snapshot.distinctAddresses settings.bootstrap) conn
        (dialings (⟨c, draw, e⟩ :: history) id) := by
    rw [hdialings, h.begun_of_gone draw hs]
    exact hreaches
  cases hex with
  | goes due j hs hj hcorresponds hplain hdials =>
    have hsecluded := hseclude (by simp [hs])
    have hcandidates := h.begun_candidates draw hsecluded.snapshot hs
    refine .links due j conn hs hj hsecluded ?_ (fun e' hje => ?_) hfirst' ?_
    · rw [hdialings]
      exact hreaches.begin fun d hd => mem_of_choose (hcandidates d hd)
    · cases hbegun : begun (step draw c e).2 id with
      | cons d rest =>
        obtain ⟨a, result⟩ := d
        obtain rfl : result = none := (mem_begun.1 (hbegun ▸ List.mem_cons_self ..)).2
        exact ⟨a, _, by rw [hdialings, hbegun, List.cons_append]⟩
      | nil =>
        rcases hdials e' hje with ⟨a, ha⟩ | ⟨hj', hne⟩
        · have hmem : { address := a } ∈ begun (step draw c e).2 id := mem_begun.2 ⟨ha, rfl⟩
          rw [hbegun] at hmem
          cases hmem
        · rw [hdialings, hbegun, List.nil_append, ended_of_ne hne]
          exact hopen e' (hje ▸ hj')
    · rw [letters_cons]
      exact hcorresponds
  | returns link before r hplain hposted hj hconcludes hm =>
    obtain ⟨c', hsettle⟩ := settle_connect draw { c with link } id r
    have hm' : step draw c e = (c'.finish id (built settings.bootstrap r)).after before := by
      rw [hm, hsettle, ← h.settings_eq]
    obtain ⟨hs, hsame, hfinish⟩ := returned_of_finish hm' hposted
    exact .returned conn r hs (hover hs) hfirst' (hsame ▸ hconcludes) hfinish
  | abandons due j he hm hcorresponds =>
    obtain ⟨hs, hsame, hleft⟩ := left_of_abandon hm hunfinished
    rw [← hsame] at hcorresponds
    obtain ⟨a, -, hdial⟩ := (hover hs).exists_dial
    exact .abandoned hs hleft hcorresponds.not_answered ⟨_, hdial, by simp⟩
      (.fetches _ _ conn (hover hs) hfirst' hcorresponds.repeats)

theorem submit_cached (c : Client) (draw : Nat) (id : CallId) (goal : Goal) (q : Request) {n : Nat}
    (hl : c.link.lock = {}) (hc : c.link.cached = some conn) (hn : c.link.attempts = n + 1)
    (hq : q.deadline = none) :
    ∃ link : Link Request, submit draw c id goal q =
        ({ c with link }.put id (.linking goal none), [.call (.caller id) conn q]) ∧
      link.jobs.get? id = some (.calling ⟨q, n, none⟩ conn) ∧ link.lock = {} ∧
        link.cached = some conn := by
  refine ⟨c.link.put id (.calling ⟨q, n, none⟩ conn), ?_, by simp, hl, hc⟩
  simp only [submit, Link.submit, Link.proceed, hn, Link.pursue_free_cached hl hc, engage, follow]
  simp [ofOrder, answerDue, hq]

section Probing

variable {failed : List Dialing} {a : Address} {rest : List Address}

theorem Run.step_connected (h : Run settings now history c)
    (hs : c.calls.get? id = some (.probing rest)) (hsecluded : Secluded settings c id)
    (draw : Nat) (conn : Conn) : ∃ (link : Link Request) (n : Nat), n + 1 = max settings.attempts 1 ∧
      step draw c (.dialed id (.ok conn)) = ({ c with link }.put id (.linking .connect none),
        [.call (.caller id) conn .fetchMetadata]) ∧
      link.jobs.get? id = some (.calling ⟨.fetchMetadata, n, none⟩ conn) ∧ link.lock = {} ∧
        link.cached = some conn := by
  obtain ⟨n, hn⟩ : ∃ n, c.link.attempts = n + 1 := by
    rw [h.attempts_eq]
    exact Nat.exists_eq_succ_of_ne_zero (by omega)
  have hlock : c.link.lock = {} := by
    have hfits := h.keeps.coherent.fits id
    rw [hs] at hfits
    exact hsecluded.sole.lock_of_off hfits
  obtain ⟨link, hm, hlink⟩ := submit_cached
    { c with link := { c.link with cached := some conn } } draw id .connect .fetchMetadata hlock rfl
    hn rfl
  refine ⟨link, n, hn.symm.trans h.attempts_eq, ?_, hlink⟩
  simp only [step, dialed, hs]
  exact hm

theorem Tried.connects (htried : Tried order failed (a :: rest)) (h : Run settings now history c)
    (hs : c.calls.get? id = some (.probing rest)) (hsecluded : Secluded settings c id)
    (hdialings : dialings history id = ⟨a, none⟩ :: failed) (hletters : letters history id = [])
    (draw : Nat) (conn : Conn) :
    Builds settings order (⟨c, draw, .dialed id (.ok conn)⟩ :: history)
      (step draw c (.dialed id (.ok conn))).1 id := by
  obtain ⟨link, n, hn, hstep, hj, hlock, hcached⟩ := h.step_connected hs hsecluded draw conn
  have hletters' : letters (⟨c, draw, .dialed id (.ok conn)⟩ :: history) id =
      [{ conn, request := .fetchMetadata, sent := c.now }] := by
    rw [letters_cons, hletters, hstep]
    simp [posted, Effect.letter?, hears?, delivered]
  have hdialings' : dialings (⟨c, draw, .dialed id (.ok conn)⟩ :: history) id =
      [] ++ ⟨a, some (.ok conn)⟩ :: failed := by
    rw [dialings_cons, hdialings, hstep]
    simp [begun, Effect.dialing?, ended]
  refine .links none (.calling ⟨.fetchMetadata, n, none⟩ conn) conn ?_ ?_ ?_ ?_ (by simp) ?_ ?_
  · simp [hstep]
  · rw [hstep]
    exact hj
  · rw [hstep]
    refine ⟨⟨fun k hk => ?_, .calling _ conn hj hlock hcached⟩, hsecluded.snapshot⟩
    simp [hk, hsecluded.others k hk]
  · rw [hdialings']
    exact .mk [] a failed rest htried (by simp)
  · rw [hletters']
    rfl
  · rw [hletters']
    refine .waits [] ⟨.fetchMetadata, n, none⟩ conn c.now ⟨rfl, by simp⟩ (by simp [Lost]) ?_
    rw [← hn, List.length_nil, Nat.zero_add, Nat.add_comm]

theorem Tried.fails (htried : Tried order failed (a :: rest))
    (hs : c.calls.get? id = some (.probing rest)) (hsecluded : Secluded settings c id)
    (hcached : c.link.cached = none) (hdialings : dialings history id = ⟨a, none⟩ :: failed)
    (hletters : letters history id = []) (draw : Nat) (f : Fault) :
    Builds settings order (⟨c, draw, .dialed id (.error f)⟩ :: history)
      (step draw c (.dialed id (.error f))).1 id := by
  have hvain := htried.fail f
  have hended : ended id (.dialed id (.error f)) (dialings history id) =
      ⟨a, some (.error f)⟩ :: failed := by
    rw [hdialings]
    exact if_pos rfl
  cases rest with
  | nil =>
    have hm : step draw c (.dialed id (.error f)) = c.finish id (.error (.rpc f)) := by
      simp only [step, dialed, hs, probe, Option.getD_some]
    refine .refused failed a f (by simp [hm]) hvain ?_ ?_ ?_
    · rw [dialings_cons, hended, hm]
      rfl
    · rw [letters_cons, hletters, hm]
      rfl
    · apply List.mem_append_right
      rw [Record.move, hm]
      exact List.mem_singleton_self _
  | cons b rest =>
    have hm : step draw c (.dialed id (.error f)) = (c.put id (.probing rest), [.dial id b]) := by
      simp only [step, dialed, hs, probe]
    refine .probes _ b rest (by simp [hm]) ?_ (by rw [hm]; exact hcached) hvain ?_ ?_
    · rw [hm]
      refine ⟨⟨fun k hk => ?_, hsecluded.sole⟩, hsecluded.snapshot⟩
      simp [hk, hsecluded.others k hk]
    · rw [dialings_cons, hended, hm, begun_dial]
      rfl
    · rw [letters_cons, hletters, hm]
      rfl

theorem Tried.step (htried : Tried order failed (a :: rest)) (h : Run settings now history c)
    (hs : c.calls.get? id = some (.probing rest)) (hsecluded : Secluded settings c id)
    (hcached : c.link.cached = none) (hdialings : dialings history id = ⟨a, none⟩ :: failed)
    (hletters : letters history id = []) (draw : Nat) (hstart : ∀ op, e ≠ .start id op)
    (he : e.caller? = some id) :
    Builds settings order (⟨c, draw, e⟩ :: history) (Client.step draw c e).1 id := by
  have hstays (hm : Client.step draw c e = c.stay) (hne : ∀ r, e ≠ .dialed id r) :
      Builds settings order (⟨c, draw, e⟩ :: history) (Client.step draw c e).1 id := by
    have hasked : c.asked id = none := asked_eq_none h.keeps.coherent (by simp [hs])
    have hdialings' : dialings (⟨c, draw, e⟩ :: history) id = ⟨a, none⟩ :: failed := by
      rw [dialings_cons, hm, ended_of_ne hne, hdialings]
      rfl
    have hletters' : letters (⟨c, draw, e⟩ :: history) id = [] := by
      rw [letters_cons, hears?_of_unasked hasked, hletters, hm]
      rfl
    rw [hm]
    exact .probes failed a rest hs hsecluded hcached htried hdialings' hletters'
  cases Event.ofCall he with
  | start op => exact absurd rfl (hstart op)
  | answered r => exact hstays (by simp only [Client.step, answered, hs]) (by simp)
  | chosen partition => exact hstays (by simp only [Client.step, chosen, hs]) (by simp)
  | run => exact hstays (by simp only [Client.step, Client.run, hs]) (by simp)
  | lapse => exact hstays (by simp only [Client.step, lapse, hs]) (by simp)
  | dialed r =>
    cases r with
    | ok conn => exact htried.connects h hs hsecluded hdialings hletters draw conn
    | error f => exact htried.fails hs hsecluded hcached hdialings hletters draw f
  | abandon =>
    have hm : (Client.step draw c (.abandon id)).2 = [.withdraw (.caller id)] := by
      simp only [Client.step, abandon, hs]
    have hletters' : letters (⟨c, draw, .abandon id⟩ :: history) id = [] := by
      rw [letters_cons, hm, hletters]
      rfl
    have hdialings' : dialings (⟨c, draw, .abandon id⟩ :: history) id = ⟨a, none⟩ :: failed := by
      rw [dialings_cons, hm, ended_of_ne (by simp), hdialings]
      rfl
    refine .abandoned (calls_abandon c id) (fun r hr => ?_) (by simp [hletters', Answered])
      ⟨⟨a, none⟩, by simp [hdialings'], by simp⟩ ?_
    · exact (List.mem_append.1 hr).elim ((h.life id).unfinished hs r) ((plain_abandon c id).2 id r)
    · rw [hletters', hdialings']
      exact .tries failed a rest htried

end Probing

theorem Still.trans {c' c'' : Client} (h : Still c c') (h' : Still c' c'') : Still c c'' :=
  ⟨h'.link.trans h.link, h'.snapshot.trans h.snapshot, h'.closed.trans h.closed⟩

theorem Run.still_of_new (h : Run settings now history c) (hs : started history = []) :
    Still (.fresh settings now) c := by
  induction h with
  | fresh => exact still_refl _
  | @next history c e draw hrun hp ih =>
    have hbefore : started history = [] := started_eq_nil_of_cons hs
    have hstart : ∀ k op, e ≠ .start k op := by
      rintro k op rfl
      simp [started] at hs
    have hcalls := (hrun.keeps.untouched hbefore).2.1
    exact (ih hbefore).trans (still_of_idle draw (fun k _ => hcalls k) hstart)

theorem Run.step_begun (h : Run settings now history c) (hb : settings.bootstrap ≠ [])
    (draw : Nat) (hp : Possible history c (.start id .connect)) :
    ∃ a rest, shuffle draw settings.bootstrap = a :: rest ∧
      step draw c (.start id .connect) = (c.put id (.probing rest), [.dial id a]) := by
  obtain ⟨a, rest, horder⟩ : ∃ a rest, shuffle draw settings.bootstrap = a :: rest := by
    apply List.exists_cons_of_ne_nil
    intro hnil
    have hlength := length_shuffle draw settings.bootstrap
    rw [hnil, List.length_nil] at hlength
    exact hb (List.length_eq_zero_iff.1 hlength.symm)
  have hopen : c.closed = false := (h.still_of_new (hp.2.1.1 rfl)).closed
  refine ⟨a, rest, horder, ?_⟩
  simp only [step, start, hopen, openCall, connect, h.settings_eq, horder, probe]
  simp [hb]

theorem Run.builds_start (h : Run settings now history c) (hb : settings.bootstrap ≠ [])
    (draw : Nat) (hp : Possible history c (.start id .connect)) :
    Builds settings (shuffle draw settings.bootstrap) (⟨c, draw, .start id .connect⟩ :: history)
      (step draw c (.start id .connect)).1 id := by
  have hnone : started history = [] := hp.2.1.1 rfl
  obtain ⟨hcached, hcalls, -⟩ := h.keeps.untouched hnone
  have hfits := h.keeps.coherent.fits id
  rw [hcalls id] at hfits
  obtain ⟨a, rest, horder, hm⟩ := h.step_begun hb draw hp
  refine .probes [] a rest (by simp [hm]) ?_ (by rw [hm]; exact hcached) ⟨by simp, horder.symm⟩ ?_ ?_
  · rw [hm]
    refine ⟨⟨fun k hk => by simp [hk, hcalls k], .off hfits ?_⟩, (h.still_of_new hnone).snapshot⟩
    exact h.unlocked hcalls
  · rw [dialings_cons, hm, begun_dial, h.dialings_of_new hp.1]
    rfl
  · rw [letters_cons, hm, h.letters_of_new hp.1]
    rfl

theorem Run.no_start (h : Run settings now history c) (hp : Possible history c e) {stage : Stage}
    (hs : c.calls.get? id = some stage) (hbuilding : stage.isBuilding = true) :
    ∀ k op, e ≠ .start k op := by
  rintro k op rfl
  have hid := h.keeps.known id (.inl (by simp [hs]))
  have hop : op ≠ .connect := by
    intro hop
    rw [hp.2.1.1 hop] at hid
    cases hid
  have hmem : (id, stage) ∈ c.calls.entries := by
    obtain ⟨l, r, hlr, -⟩ := List.lookup_eq_some_iff.1 hs
    rw [hlr]
    simp
  have hnot := hp.2.2 hop _ hmem
  rw [hbuilding] at hnot
  cases hnot

theorem Builds.next (hbuilds : Builds settings order history c id)
    (h : Run settings now history c) (hid : id ∈ started history) (draw : Nat)
    (hp : Possible history c e) :
    Builds settings order (⟨c, draw, e⟩ :: history) (step draw c e).1 id := by
  have hnew := hp.not_start hid
  -- of a call that is over nothing changes any more
  have hgone (hs : c.calls.get? id = none) : (step draw c e).1.calls.get? id = none ∧
      dialings (⟨c, draw, e⟩ :: history) id = dialings history id ∧
      letters (⟨c, draw, e⟩ :: history) id = letters history id ∧
      ∀ r, .finish id r ∉ (step draw c e).2 := by
    obtain ⟨hcalls, hfinish⟩ := h.gone draw hp hs hid
    exact ⟨hcalls, h.dialings_of_gone draw hp hs hnew, h.letters_of_gone draw hs hnew, hfinish⟩
  cases hbuilds with
  | probes failed a rest hs hsecluded hcached htried hdialings hletters =>
    have hstart := h.no_start hp hs rfl
    by_cases he : e.caller? = some id
    · exact htried.step h hs hsecluded hcached hdialings hletters draw hnew he
    · obtain ⟨hcalls, -⟩ := h.untouched draw hs (by simp [Rests]) he
      have hstill : Still c (step draw c e).1 := by
        refine still_of_idle draw (fun k hk => hsecluded.others k ?_) hstart
        rintro rfl
        exact he hk
      exact .probes failed a rest (hcalls.trans hs) (hsecluded.away h draw hp hstart he)
        (hstill.link ▸ hcached) htried ((h.dialings_away draw he).trans hdialings)
        ((h.letters_away draw he).trans hletters)
  | refused failed a f hs htried hdialings hletters hfinish =>
    obtain ⟨hs', hdialings', hletters', -⟩ := hgone hs
    exact .refused failed a f hs' htried (hdialings'.trans hdialings) (hletters'.trans hletters)
      (mem_trail_cons hfinish)
  | links due j conn hs hj hsecluded hreaches hopen hfirst hcorresponds =>
    have hstart := h.no_start hp hs rfl
    by_cases he : e.caller? = some id
    · refine h.builds_of_exchanges (fun hsome => ?_) (hreaches.ended fun r hr => ?_)
        (fun e' hj' => hopen e' (Option.some.inj (hj.symm.trans hj'))) hfirst
        ((h.life id).unfinished hs) (hcorresponds.step draw hs hj hnew hp.dialing he)
      · obtain ⟨hunshared, hsnapshot⟩ :=
          hsecluded.toUnshared.linked draw isLast_connect hs hnew he hsome
        exact ⟨hunshared, hsnapshot.trans hsecluded.snapshot⟩
      · obtain ⟨e', hj'⟩ := dialing_of_isDialing hs (hp.dialing r hr)
        exact hopen e' (Option.some.inj (hj.symm.trans hj'))
    · obtain ⟨hcalls, -⟩ := h.untouched draw hs (by simp [Rests]) he
      have hdialings := h.dialings_away draw he
      have hletters := h.letters_away draw he
      refine .links due j conn (hcalls.trans hs) ((h.job_away draw he).trans hj)
        (hsecluded.away h draw hp hstart he) ?_ ?_ ?_ ?_
      · exact hdialings ▸ hreaches
      · exact hdialings ▸ hopen
      · exact hletters ▸ hfirst
      · exact hletters ▸ hcorresponds
  | returned conn r hs hreaches hfirst hconcludes hfinish =>
    obtain ⟨hs', hdialings, hletters, -⟩ := hgone hs
    exact .returned conn r hs' (hdialings ▸ hreaches) (hletters ▸ hfirst) (hletters ▸ hconcludes)
      (mem_trail_cons hfinish)
  | abandoned hs hunfinished hunanswered hleft happroaches =>
    obtain ⟨hs', hdialings, hletters, hfinish⟩ := hgone hs
    refine .abandoned hs' (fun r hr => ?_) (hletters ▸ hunanswered) (hdialings ▸ hleft)
      (hdialings ▸ hletters ▸ happroaches)
    exact (List.mem_append.1 hr).elim (hunfinished r) (hfinish r)

theorem Run.builds (h : Run settings now history c) (hb : settings.bootstrap ≠ []) {r : Record}
    (hr : r ∈ history) (hevent : r.event = .start id .connect) :
    Builds settings (shuffle r.draw settings.bootstrap) history c id := by
  refine h.since_start
    (P := fun history c => Builds settings (shuffle r.draw settings.bootstrap) history c id)
    hr hevent ?_ ?_
  · exact fun earlier hrun hp => hrun.builds_start hb r.draw hp
  · exact fun draw hrun hp _ hid ih => ih.next hrun hid draw hp

end Building

end StreamClient.Client
