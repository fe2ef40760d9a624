import Mathlib.Data.List.Nodup
import StreamClient.Proofs.Link.Turns

/-! The line for the lock of a link: in it stand calls that are on the link, each once. So nobody
holds the lock of a link without calls. -/

namespace StreamClient

namespace Lock

/-- The owner, and behind it whoever waits. -/
def line (l : Lock) : List Nat := l.owner.toList ++ l.queue

theorem line_release (l : Lock) : l.release.line = l.queue := by
  cases h : l.queue <;> simp [release, line, h]

theorem line_of_owner {l : Lock} {id : Nat} (h : l.owner = some id) : l.line = id :: l.queue := by
  simp [line, h]

theorem queue_of_granted {l : Lock} {id : Nat} (h : (l.request id).2 = true) :
    (l.request id).1.queue = l.queue := by
  rcases l with ⟨_ | o, q⟩
  · rfl
  · by_cases ho : o = id <;> simp [request, ho] at h ⊢

theorem line_of_granted {l : Lock} {id : Nat} (h : (l.request id).2 = true) :
    (l.request id).1.line = id :: l.queue := by
  rw [line_of_owner ((request_owner l id).1 h), queue_of_granted h]

theorem line_of_denied {l : Lock} {id : Nat} (h : (l.request id).2 = false) :
    (l.request id).1.line = l.line ++ [id] := by
  rcases l with ⟨_ | o, q⟩
  · simp [request] at h
  · by_cases ho : o = id <;> simp [request, ho, line] at h ⊢

theorem owner_ne_of_denied {l : Lock} {id : Nat} (h : (l.request id).2 = false) :
    l.owner ≠ some id := by
  intro ho
  simp [request, ho] at h

theorem queue_subset_line {l : Lock} {k : Nat} (h : k ∈ l.queue) : k ∈ l.line :=
  List.mem_append_right _ h

theorem line_withdraw {l : Lock} (h : l.line.Nodup) (id : Nat) :
    (l.withdraw id).line = l.line.filter (· ≠ id) := by
  by_cases ho : l.owner = some id
  · rw [line_of_owner ho] at h ⊢
    have hq : id ∉ l.queue := (List.nodup_cons.1 h).1
    have hall : ∀ k ∈ l.queue, decide (k ≠ id) = true := fun k hk => by
      simpa using fun hki : k = id => hq (hki ▸ hk)
    rw [withdraw, if_pos ho, line_release, List.filter_cons_of_neg (by simp),
      List.filter_eq_self.2 hall]
  · rw [withdraw, if_neg ho, line, line, List.filter_append]
    congr 1
    cases hl : l.owner with
    | none => rfl
    | some o =>
      have hne : o ≠ id := by
        rintro rfl
        exact ho hl
      simp [hne]

theorem eq_of_line {l : Lock} (h : l.line = []) : l = {} := by
  rcases l with ⟨_ | o, q⟩
  · obtain rfl : q = [] := by simpa [line] using h
    rfl
  · simp [line] at h

end Lock

namespace Link

variable {Q A : Type}

/-- A call stands in the line: it waits for the lock, with an attempt left if it is to get a
connection, or it holds it. -/
def Job.isLined : Job Q → Bool
  | .seeking e => decide (0 < e.left)
  | .calling .. => false
  | _ => true

structure LinedBut (id : CallId) (l : Link Q) : Prop where
  nodup : l.lock.line.Nodup
  jobs : ∀ k ∈ l.lock.line, k ≠ id → (l.jobs.get? k).any Job.isLined = true

structure Lined (l : Link Q) : Prop where
  nodup : l.lock.line.Nodup
  jobs : ∀ k ∈ l.lock.line, (l.jobs.get? k).any Job.isLined = true

theorem Lined.but {l : Link Q} (h : l.Lined) (id : CallId) : l.LinedBut id :=
  ⟨h.nodup, fun k hk _ => h.jobs k hk⟩

theorem Lined.notMem {l : Link Q} (h : l.Lined) {id : CallId}
    (hj : (l.jobs.get? id).any Job.isLined = false) : id ∉ l.lock.line := fun hid => by
  have hlined := h.jobs id hid
  rw [hj] at hlined
  cases hlined

theorem LinedBut.cache {l : Link Q} {id : CallId} (h : l.LinedBut id) (cached : Option Conn) :
    ({ l with cached } : Link Q).LinedBut id :=
  ⟨h.nodup, h.jobs⟩

theorem LinedBut.shorten {l : Link Q} {id : CallId} {lock : Lock} (h : l.LinedBut id)
    (hline : lock.line.Sublist l.lock.line) : ({ l with lock } : Link Q).LinedBut id :=
  ⟨h.nodup.sublist hline, fun k hk hki => h.jobs k (hline.subset hk) hki⟩

/-- A turn of `id` that leaves the line in order; if it is over, `id` is not on the link any more. -/
structure Orderly (id : CallId) (t : Turn Q A) : Prop where
  lined : t.link.Lined
  ended : ∀ e, t.ending = some e → t.link.jobs.get? id = none

theorem Orderly.after {id : CallId} {t : Turn Q A} (h : Orderly id t) (orders : List (Order Q)) :
    Orderly id (t.after orders) :=
  ⟨h.lined, h.ended⟩

theorem orderly_idle {id : CallId} {l : Link Q} (h : l.Lined) :
    Orderly (A := A) id { link := l } :=
  ⟨h, by simp⟩

theorem LinedBut.put {l : Link Q} {id : CallId} {j : Job Q} (h : l.LinedBut id)
    (hj : id ∈ l.lock.line → j.isLined = true) (orders : List (Order Q)) :
    Orderly (A := A) id { link := l.put id j, orders } where
  lined := {
    nodup := h.nodup
    jobs := fun k hk => by
      rw [job_put]
      by_cases hki : k = id
      · subst hki
        simpa using hj hk
      · rw [if_neg hki]
        exact h.jobs k hk hki }
  ended e he := by simp at he

theorem LinedBut.forget {l : Link Q} {id : CallId} (h : l.LinedBut id) (hid : id ∉ l.lock.line)
    (orders : List (Order Q)) (ending : Option (Ending A)) :
    Orderly id { link := l.forget id, orders, ending } where
  lined := {
    nodup := h.nodup
    jobs := fun k hk => by
      have hki : k ≠ id := by
        rintro rfl
        exact hid hk
      rw [job_forget, if_neg hki]
      exact h.jobs k hk hki }
  ended _ _ := by simp

section Turns

variable {pick : Option Address} {id : CallId} {l : Link Q}

theorem LinedBut.request (h : l.LinedBut id) (hq : id ∉ l.lock.queue) :
    ({ l with lock := (l.lock.request id).1 } : Link Q).LinedBut id := by
  have hline : ∀ k, k ∈ (l.lock.request id).1.line → k ∈ l.lock.line ∨ k = id := fun k hk => by
    cases hg : (l.lock.request id).2 with
    | true =>
      rw [Lock.line_of_granted hg] at hk
      exact (List.mem_cons.1 hk).symm.imp_left Lock.queue_subset_line
    | false =>
      rw [Lock.line_of_denied hg] at hk
      simpa using hk
  refine ⟨?_, fun k hk hki => h.jobs k ((hline k hk).resolve_right hki) hki⟩
  show (l.lock.request id).1.line.Nodup
  cases hg : (l.lock.request id).2 with
  | true =>
    rw [Lock.line_of_granted hg, List.nodup_cons]
    exact ⟨hq, (List.nodup_append.1 h.nodup).2.1⟩
  | false =>
    -- whoever is refused neither owns the lock nor waits for it yet
    have hid : id ∉ l.lock.line := fun hid => by
      rcases List.mem_append.1 hid with ho | hw
      · exact Lock.owner_ne_of_denied hg (by simpa using ho)
      · exact hq hw
    rw [Lock.line_of_denied hg, List.nodup_append]
    refine ⟨h.nodup, List.nodup_singleton id, fun k hk k' hk' => ?_⟩
    rintro rfl
    exact hid (List.mem_singleton.1 hk' ▸ hk)

theorem LinedBut.unlock (h : l.LinedBut id) : l.unlock.LinedBut id := by
  refine h.shorten ?_
  rw [Lock.line_release]
  exact List.sublist_append_right _ _

theorem notMem_of_unlock (hg : (l.lock.request id).2 = true) (hq : id ∉ l.lock.queue) :
    id ∉ ({ l with lock := (l.lock.request id).1 } : Link Q).unlock.lock.line := by
  show id ∉ (l.lock.request id).1.release.line
  rw [Lock.line_release, Lock.queue_of_granted hg]
  exact hq

theorem pursue_orderly (pick : Option Address) (id : CallId) (q : Q) (n : Nat) :
    ∀ {l : Link Q} (last : Option Fault), l.LinedBut id → id ∉ l.lock.queue →
      (id ∈ l.lock.line → 0 < n) → Orderly id (pursue (A := A) pick id q l last n) := by
  induction n with
  | zero => exact fun last h _ hn => h.forget (fun hid => Nat.lt_irrefl 0 (hn hid)) _ _
  | succ n ih =>
    intro l last h hq _
    have hm := h.request hq
    cases hg : (l.lock.request id).2 with
    | false =>
      rw [pursue_of_denied hg]
      exact hm.put (fun _ => by simp [Job.isLined]) _
    | true =>
      have hout := notMem_of_unlock hg hq
      cases hc : l.cached with
      | some c =>
        rw [pursue_of_cached hg hc]
        exact hm.unlock.put (fun hid => absurd hid hout) _
      | none =>
        cases pick with
        | some a =>
          rw [pursue_of_known hg hc]
          exact hm.put (fun _ => rfl) _
        | none =>
          rw [pursue_of_unknown hg hc]
          have hnext := ih (some noAddress) hm.unlock
            (fun hid => hout (Lock.queue_subset_line hid)) fun hid => absurd hid hout
          exact hnext.after _

theorem proceed_orderly (pick : Option Address) (e : Errand Q) (h : l.LinedBut id)
    (hid : id ∉ l.lock.line) : Orderly id (proceed (A := A) pick l id e) :=
  pursue_orderly pick id e.request e.left e.last h (fun hw => hid (Lock.queue_subset_line hw))
    fun hw => absurd hw hid

theorem retire_orderly (pick : Option Address) (e : Errand Q) (c : Conn) (h : l.LinedBut id)
    (hq : id ∉ l.lock.queue) : Orderly id (retire (A := A) pick l id e c) := by
  have hm := h.request hq
  cases hg : (l.lock.request id).2 with
  | false =>
    simp only [retire, hg, Bool.false_eq_true, if_false]
    exact hm.put (fun _ => rfl) _
  | true =>
    have hout := notMem_of_unlock hg hq
    simp only [retire, hg, if_true]
    split
    · exact (proceed_orderly pick e (hm.unlock.cache none) hout).after _
    · exact (proceed_orderly pick e hm.unlock hout).after _

theorem shut_orderly (h : l.LinedBut id) (hq : id ∉ l.lock.queue) :
    Orderly id (shut (A := A) l id) := by
  have hm := h.request hq
  cases hg : (l.lock.request id).2 with
  | false =>
    simp only [shut, hg, Bool.false_eq_true, if_false]
    exact hm.put (fun _ => rfl) _
  | true =>
    simp only [shut, hg, if_true]
    exact (hm.unlock.cache none).forget (notMem_of_unlock hg hq) _ _

theorem submit_orderly (pick : Option Address) (q : Q) (h : l.Lined)
    (hj : l.jobs.get? id = none) : Orderly id (submit (A := A) pick l id q) :=
  proceed_orderly pick _ (h.but id) (h.notMem (by simp [hj]))

theorem notMem_queue_of_owner (h : l.lock.line.Nodup) (ho : l.lock.owner = some id) :
    id ∉ l.lock.queue := by
  rw [Lock.line_of_owner ho] at h
  exact (List.nodup_cons.1 h).1

theorem resume_orderly (pick : Option Address) (id : CallId) (h : l.Lined) :
    Orderly id (resume (A := A) pick l id) := by
  by_cases ho : l.lock.owner = some id
  · have hq := notMem_queue_of_owner h.nodup ho
    have hjob := h.jobs id (by simp [Lock.line, ho])
    rw [resume, if_pos ho]
    cases hj : l.jobs.get? id with
    | none => exact orderly_idle h
    | some j =>
      cases j with
      | seeking e =>
        have hleft : 0 < e.left := by simpa [hj, Job.isLined] using hjob
        exact pursue_orderly pick id e.request e.left e.last (h.but id) hq fun _ => hleft
      | retiring e c => exact retire_orderly pick e c (h.but id) hq
      | shutting => exact shut_orderly (h.but id) hq
      | dialing e => exact orderly_idle h
      | calling e c => exact orderly_idle h
  · rw [resume, if_neg ho]
    exact orderly_idle h

/-- Whoever dials has the lock; once it is given up, it stands in the line no more. -/
theorem notMem_of_dialing {e : Errand Q} (hs : l.Sound) (h : l.Lined)
    (hj : l.jobs.get? id = some (.dialing e)) : id ∉ l.unlock.lock.line := by
  show id ∉ l.lock.release.line
  rw [Lock.line_release]
  exact notMem_queue_of_owner h.nodup (hs id e hj).1

theorem dialed_orderly (pick : Option Address) (id : CallId) (r : Except Fault Conn)
    (hs : l.Sound) (h : l.Lined) : Orderly id (dialed (A := A) pick l id r) := by
  cases hj : l.jobs.get? id with
  | none => simpa only [dialed, hj] using orderly_idle h
  | some j =>
    cases j with
    | dialing e =>
      have hout := notMem_of_dialing hs h hj
      have hm := (h.but id).unlock
      simp only [dialed, hj]
      cases r with
      | ok c => exact (hm.cache (some c)).put (fun hid => absurd hid hout) _
      | error f =>
        dsimp only
        split
        · exact (proceed_orderly pick { e with last := some f } hm hout).after _
        · have hfinish : Orderly id (l.unlock.finish id (.error f) : Turn Q A) :=
            hm.forget hout _ _
          exact hfinish.after _
    | _ => simpa only [dialed, hj] using orderly_idle h

theorem answered_orderly (pick : Option Address) (id : CallId) (r : Except Fault A)
    (h : l.Lined) : Orderly id (answered pick l id r) := by
  cases hj : l.jobs.get? id with
  | none => simpa only [answered, hj] using orderly_idle h
  | some j =>
    cases j with
    | calling e c =>
      have hid : id ∉ l.lock.line := h.notMem (by simp [hj, Job.isLined])
      simp only [answered, hj]
      cases r with
      | ok a => exact (h.but id).forget hid _ _
      | error f =>
        dsimp only
        split
        · exact retire_orderly pick { e with last := some f } c (h.but id)
            fun hw => hid (Lock.queue_subset_line hw)
        · exact (h.but id).forget hid _ _
    | _ => simpa only [answered, hj] using orderly_idle h

theorem abandon_lined (id : CallId) (hs : l.Sound) (h : l.Lined) :
    (abandon (A := A) l id).link.Lined := by
  have hwithdraw : (({ l with lock := l.lock.withdraw id } : Link Q).forget id).Lined := by
    have hline := Lock.line_withdraw h.nodup id
    have hbut : ({ l with lock := l.lock.withdraw id } : Link Q).LinedBut id := by
      refine (h.but id).shorten ?_
      rw [hline]
      exact List.filter_sublist
    exact (hbut.forget (A := A) (by simp [hline]) [] none).lined
  cases hj : l.jobs.get? id with
  | none => simpa only [abandon, hj] using h
  | some j =>
    cases j with
    | calling e c =>
      simp only [abandon, hj]
      exact ((h.but id).forget (A := A) (h.notMem (by simp [hj, Job.isLined])) [] none).lined
    | dialing e =>
      simp only [abandon, hj]
      exact ((h.but id).unlock.forget (A := A) (notMem_of_dialing hs h hj) [] none).lined
    | seeking e => simpa only [abandon, hj] using hwithdraw
    | retiring e c => simpa only [abandon, hj] using hwithdraw
    | shutting => simpa only [abandon, hj] using hwithdraw

theorem Lined.unlocked (h : l.Lined) (hj : ∀ k, l.jobs.get? k = none) : l.lock = {} := by
  refine Lock.eq_of_line (List.eq_nil_iff_forall_not_mem.2 fun k hk => ?_)
  have hlined := h.jobs k hk
  rw [hj] at hlined
  cases hlined

end Turns

end Link
end StreamClient
