import StreamClient.Proofs.Client.Deeds
import StreamClient.Proofs.Link.Line

/-! A client at rest, that is one without a call under way: nobody holds the lock of its link. -/

namespace StreamClient.Client

open Link (Orderly)

section Moves

variable {c : Client} {id : CallId}

theorem link_join (c : Client) (id : CallId) (s : Subscription) (address : Address) :
    (c.join id s address).1.link = c.link := by
  rw [join]
  split
  · rfl
  · split <;> rfl

theorem link_lookup (draw : Nat) (c : Client) (id : CallId) (s : Subscription) (left : Nat) :
    (lookup draw c id s left).1.link = c.link := by
  unfold lookup
  split
  · exact link_join c id s _
  · split <;> rfl

theorem link_created (c : Client) (id : CallId) (r : Except Fault Reply) :
    (c.created id r).1.link = c.link := by
  cases r <;> rfl

theorem lined_follow {goal : Goal} {due : Option Nat} {t : Link.Turn Request Reply}
    {next : Client → Except Fault Reply → Move} (h : Orderly id t)
    (hnext : ∀ c' r, c'.link.Lined → c'.link.jobs.get? id = none → (next c' r).1.link.Lined) :
    (c.follow id goal due t next).1.link.Lined := by
  cases he : t.ending with
  | none =>
    simp only [follow, he]
    exact h.lined
  | some e =>
    cases e with
    | shut =>
      simp only [follow, he]
      exact h.lined
    | reply r =>
      simp only [follow, he]
      exact hnext { c with link := t.link } r h.lined (h.ended _ he)

theorem lined_settle (draw : Nat) (goal : Goal) (r : Except Fault Reply) (h : c.link.Lined)
    (hj : c.link.jobs.get? id = none) : (settle draw c id goal r).1.link.Lined := by
  cases goal <;> cases r
  case create.ok =>
    refine lined_follow (Link.submit_orderly _ _ h hj) fun c' r' h' _ => ?_
    rwa [link_created]
  case resolve.ok s left reply =>
    rw [settle, link_lookup]
    exact h
  all_goals exact h

theorem lined_engage (draw : Nat) (goal : Goal) (due : Option Nat)
    {t : Link.Turn Request Reply} (h : Orderly id t) : (engage draw c id goal due t).1.link.Lined :=
  lined_follow h fun _ r h' hj => lined_settle draw goal r h' hj

theorem lined_submit (draw : Nat) (goal : Goal) (q : Request) (h : c.link.Lined)
    (hj : c.link.jobs.get? id = none) : (submit draw c id goal q).1.link.Lined :=
  lined_engage draw goal none (Link.submit_orderly _ q h hj)

theorem lined_closeLink {t : Link.Turn Request Reply} (h : Orderly id t) :
    (c.closeLink id t).1.link.Lined := by
  cases he : t.ending <;> simp only [closeLink, he] <;> exact h.lined

theorem link_probe (c : Client) (id : CallId) (last : Option Fault) (addresses : List Address) :
    (c.probe id last addresses).1.link = c.link := by
  cases addresses <;> rfl

theorem link_stimulate (c : Client) (id : CallId) (e : Session.Stimulus) :
    (c.stimulate id e).1.link = c.link := by
  obtain ⟨calls, sessions, pools, hframe⟩ := stimulate_frame c id e
  rw [hframe]

theorem link_unsubscribe (c : Client) (id : CallId) : (c.unsubscribe id).1.link = c.link := by
  obtain ⟨⟨sessions, hframe⟩, -⟩ := unsubscribe_frame c id
  rw [hframe]

end Moves

section Events

variable {c : Client} {id : CallId}

theorem lined_start (draw : Nat) (hc : c.Coherent) (op : Op) (hcall : c.calls.get? id = none)
    (h : c.link.Lined) : (start draw c id op).1.link.Lined := by
  have hj : c.link.jobs.get? id = none := by
    have hf := hc.fits id
    rw [hcall] at hf
    exact hf
  rw [start]
  split
  · exact h
  · cases op with
    | connect =>
      rw [openCall, connect]
      split
      · exact h
      · rw [link_probe]
        exact h
    | createStream name o =>
      rw [openCall]
      split
      · exact h
      · exact lined_submit draw _ _ h hj
    | publish stream value o =>
      rw [openCall]
      split
      · exact lined_submit draw _ _ h hj
      · exact h
    | subscribe stream o =>
      rw [openCall, link_lookup]
      exact h
    | close =>
      rw [openCall, close]
      split
      · exact h
      · refine lined_closeLink (Link.shut_orderly (h.but id) fun hq => ?_)
        exact h.notMem (by simp [hj]) (Lock.queue_subset_line hq)
    | deleteStream name => exact lined_submit draw _ _ h hj
    | publishToSubject subject value o => exact lined_submit draw _ _ h hj
    | fetchMetadata => exact lined_submit draw _ _ h hj

theorem lined_dialed (draw : Nat) (hc : c.Coherent) (r : Except Fault Conn) (h : c.link.Lined) :
    (dialed draw c id r).1.link.Lined := by
  unfold dialed
  split
  · next rest conn hs =>
    have hj := (hc.free hs rfl (by simp [Rests])).job
    exact lined_submit draw .connect .fetchMetadata ⟨h.nodup, h.jobs⟩ hj
  · rw [link_probe]
    exact h
  · exact lined_engage draw _ _ (Link.dialed_orderly _ id _ hc.sound h)
  · exact h
  · exact h
  · exact h

theorem lined_run (draw : Nat) (who : Party) (h : c.link.Lined) :
    (run draw c who).1.link.Lined := by
  cases who with
  | session id =>
    rw [run, link_stimulate]
    exact h
  | caller id =>
    rw [run]
    split
    · exact lined_engage draw _ _ (Link.resume_orderly _ id h)
    · exact lined_closeLink (Link.resume_orderly _ id h)
    · exact h
    · exact h

theorem lined_lapse (draw : Nat) (hc : c.Coherent) (h : c.link.Lined) :
    (lapse draw c id).1.link.Lined := by
  rw [lapse]
  split
  · split
    · split
      · exact lined_engage draw _ _ (Link.answered_orderly _ id _ h)
      · exact h
    · exact h
  · next s left due hs =>
    split
    · exact lined_submit draw _ _ h (hc.free hs rfl (by simp [Rests])).job
    · exact h
  · exact h
  · split
    · split
      · show (c.unsubscribe id).1.link.Lined
        rw [link_unsubscribe]
        exact h
      · exact h
    · exact h
  · exact h

theorem lined_abandon (hc : c.Coherent) (h : c.link.Lined) : (c.abandon id).1.link.Lined := by
  rw [(abandon_frame hc id).1]
  exact Link.abandon_lined id hc.sound h

theorem lined_step (draw : Nat) (hc : c.Coherent) {e : Event} (he : c.Admits e)
    (h : c.link.Lined) : (step draw c e).1.link.Lined := by
  cases e with
  | start id op => exact lined_start draw hc op he.1 h
  | dialed id r => exact lined_dialed draw hc r h
  | answered who r =>
    cases who with
    | session id =>
      rw [step, answered, link_stimulate]
      exact h
    | caller id =>
      rw [step, answered]
      split
      · exact lined_engage draw _ _ (Link.answered_orderly _ id r h)
      · exact h
  | chosen id partition =>
    rw [step, chosen]
    split
    · next d hs => exact lined_submit draw _ _ h (hc.free hs rfl (by simp [Rests])).job
    · exact h
  | run who => exact lined_run draw who h
  | item id i =>
    rw [step, link_stimulate]
    exact h
  | ended id =>
    rw [step, link_stimulate]
    exact h
  | unsubscribe id =>
    rw [step, link_unsubscribe]
    exact h
  | abandon id => exact lined_abandon hc h
  | lapse id => exact lined_lapse draw hc h
  | tick now => exact h
  | expire => exact h

end Events

theorem Run.lined {settings : Settings} {now : Nat} {history : History} {c : Client}
    (h : Run settings now history c) : c.link.Lined := by
  induction h with
  | fresh => exact ⟨.nil, fun k hk => absurd hk (List.not_mem_nil)⟩
  | next draw hrun hp ih => exact lined_step draw hrun.keeps.coherent (hrun.keeps.admits hp) ih

theorem Run.unlocked {settings : Settings} {now : Nat} {history : History} {c : Client}
    (h : Run settings now history c) (hcalls : ∀ k, c.calls.get? k = none) : c.link.lock = {} := by
  refine h.lined.unlocked fun k => ?_
  have hf := h.keeps.coherent.fits k
  rw [hcalls k] at hf
  exact hf

end StreamClient.Client
