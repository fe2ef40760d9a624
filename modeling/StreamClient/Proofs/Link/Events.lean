import StreamClient.Proofs.Link.Advance
import StreamClient.Proofs.Link.Evolution

/-! The events of a link, and what each of them can do. -/

namespace StreamClient.Link

variable {Q A : Type}

inductive Event (Q A : Type) where
  | submit (id : CallId) (q : Q)
  | shut (id : CallId)
  | resume (id : CallId)
  | dialed (id : CallId) (r : Except Fault Conn)
  | answered (id : CallId) (r : Except Fault A)
  | abandon (id : CallId)

namespace Event

def id : Event Q A → CallId
  | submit id _ | shut id | resume id | dialed id _ | answered id _ | abandon id => id

def starts? : Event Q A → Option CallId
  | submit id _ | shut id => some id
  | _ => none

def lands? : Event Q A → Option CallId
  | dialed id _ | abandon id => some id
  | _ => none

def gain? : Event Q A → Option Conn
  | dialed _ (.ok c) => some c
  | _ => none

end Event

def step (pick : Option Address) (l : Link Q) : Event Q A → Turn Q A
  | .submit id q => l.submit pick id q
  | .shut id => l.shut id
  | .resume id => l.resume pick id
  | .dialed id r => l.dialed pick id r
  | .answered id r => l.answered pick id r
  | .abandon id => l.abandon id

def dialers (orders : List (Order Q)) : List CallId :=
  orders.filterMap fun
    | .dial id _ => some id
    | _ => none

def callers (orders : List (Order Q)) : List CallId :=
  orders.filterMap fun
    | .call id .. => some id
    | _ => none

def Job.dialsLeft : Job Q → Nat
  | seeking e | dialing e | calling e _ | retiring e _ => e.left
  | shutting => 0

/-- The calls to a broker that a call may still make, one of them after its open dial. -/
def Job.callsLeft : Job Q → Nat
  | dialing e => e.left + 1
  | seeking e | calling e _ | retiring e _ => e.left
  | shutting => 0

def Job.dials : Job Q → Nat
  | dialing _ => 1
  | _ => 0

def Job.errand? : Job Q → Option (Errand Q)
  | seeking e | dialing e | calling e _ | retiring e _ => some e
  | shutting => none

def worth (l : Link Q) (f : Job Q → Nat) (id : CallId) : Nat := ((l.jobs.get? id).map f).getD 0

theorem worth_of_some {l : Link Q} {f : Job Q → Nat} {id : CallId} {j : Job Q}
    (h : l.jobs.get? id = some j) : l.worth f id = f j := by simp [worth, h]

theorem worth_of_none {l : Link Q} {f : Job Q → Nat} {id : CallId} (h : l.jobs.get? id = none) :
    l.worth f id = 0 := by simp [worth, h]

def grant (l : Link Q) : Event Q A → CallId → Nat
  | .submit id _, k => if k = id then l.attempts else 0
  | _, _ => 0

/-- What an event uses up of the attempts of each call, and which dials it leaves open. -/
structure Spends (e : Event Q A) (l : Link Q) (t : Turn Q A) : Prop where
  dials : ∀ k, (dialers t.orders).count k + t.link.worth Job.dialsLeft k ≤
    l.worth Job.dialsLeft k + l.grant e k
  calls : ∀ k, (callers t.orders).count k + t.link.worth Job.callsLeft k ≤
    l.worth Job.callsLeft k + l.grant e k
  flying : ∀ k, (if e.lands? = some k then 0 else l.worth Job.dials k) +
    (dialers t.orders).count k = t.link.worth Job.dials k

section Spends

variable {e : Event Q A} {l : Link Q} {t : Turn Q A} {q : Q} {dials calls : Nat}
  {told : Option (Except Fault A)}

theorem dialers_asks (orders : List (Order Q)) : dialers (asks orders) = dialers orders := by
  induction orders with
  | nil => rfl
  | cons o rest ih => cases o <;> simpa [dialers, asks, List.filter_cons] using ih

theorem callers_asks (orders : List (Order Q)) : callers (asks orders) = callers orders := by
  induction orders with
  | nil => rfl
  | cons o rest ih => cases o <;> simpa [callers, asks, List.filter_cons] using ih

theorem Event.lands?_eq {k : CallId} (h : e.lands? = some k) : k = e.id := by
  cases e <;> simp_all [Event.lands?, Event.id]

theorem Event.starts?_eq {k : CallId} (h : e.starts? = some k) : k = e.id := by
  cases e <;> simp_all [Event.starts?, Event.id]

theorem spends_of_own (hothers : ∀ k, k ≠ e.id → t.link.jobs.get? k = l.jobs.get? k)
    (hasks : ∀ k, k ∈ dialers t.orders ∨ k ∈ callers t.orders → k = e.id)
    (hdials : (dialers t.orders).count e.id + t.link.worth Job.dialsLeft e.id ≤
      l.worth Job.dialsLeft e.id + l.grant e e.id)
    (hcalls : (callers t.orders).count e.id + t.link.worth Job.callsLeft e.id ≤
      l.worth Job.callsLeft e.id + l.grant e e.id)
    (hflying : (if e.lands? = some e.id then 0 else l.worth Job.dials e.id) +
      (dialers t.orders).count e.id = t.link.worth Job.dials e.id) : Spends e l t := by
  have hworth (f : Job Q → Nat) {k : CallId} (hk : k ≠ e.id) : t.link.worth f k = l.worth f k := by
    rw [worth, hothers k hk, worth]
  have hnone {k : CallId} (hk : k ≠ e.id) :
      (dialers t.orders).count k = 0 ∧ (callers t.orders).count k = 0 :=
    ⟨List.count_eq_zero_of_not_mem fun h => hk (hasks k (.inl h)),
      List.count_eq_zero_of_not_mem fun h => hk (hasks k (.inr h))⟩
  refine ⟨fun k => ?_, fun k => ?_, fun k => ?_⟩
  · by_cases hk : k = e.id
    · exact hk ▸ hdials
    · rw [(hnone hk).1, hworth _ hk]
      omega
  · by_cases hk : k = e.id
    · exact hk ▸ hcalls
    · rw [(hnone hk).2, hworth _ hk]
      omega
  · by_cases hk : k = e.id
    · exact hk ▸ hflying
    · rw [(hnone hk).1, hworth _ hk, if_neg fun h => hk (Event.lands?_eq h)]
      rfl

theorem Advances.counts {id : CallId} (h : Advances id q dials calls told t) :
    (∀ k, k ∈ dialers t.orders ∨ k ∈ callers t.orders → k = id) ∧
      (dialers t.orders).count id + t.link.worth Job.dialsLeft id ≤ dials ∧
      (callers t.orders).count id + t.link.worth Job.callsLeft id ≤ calls ∧
      (dialers t.orders).count id = t.link.worth Job.dials id := by
  rw [← dialers_asks, ← callers_asks]
  cases h with
  | waiting e _ hroom _ hj hasks =>
    rcases hj with hj | ⟨c, hj⟩
    · simpa [hasks, worth_of_some hj, dialers, callers, Job.dialsLeft, Job.callsLeft, Job.dials]
        using hroom
    · simpa [hasks, worth_of_some hj, dialers, callers, Job.dialsLeft, Job.callsLeft, Job.dials]
        using hroom
  | dialing e a _ hroom _ hj hasks =>
    simp [hasks, worth_of_some hj, dialers, callers, Job.dialsLeft, Job.callsLeft, Job.dials]
    omega
  | calling e c _ hroom _ hj hasks =>
    simp [hasks, worth_of_some hj, dialers, callers, Job.dialsLeft, Job.callsLeft, Job.dials]
    omega
  | returns r _ _ hj hasks =>
    simp [hasks, worth_of_none hj, dialers, callers]

theorem Advances.spends (h : Advances e.id q dials calls told t)
    (hothers : ∀ k, k ≠ e.id → t.link.jobs.get? k = l.jobs.get? k)
    (hdials : dials ≤ l.worth Job.dialsLeft e.id + l.grant e e.id)
    (hcalls : calls ≤ l.worth Job.callsLeft e.id + l.grant e e.id)
    (hopen : e.lands? = some e.id ∨ l.worth Job.dials e.id = 0) : Spends e l t := by
  obtain ⟨hasks, hd, hc, hf⟩ := h.counts
  refine spends_of_own hothers hasks (by omega) (by omega) ?_
  have hlanded : (if e.lands? = some e.id then 0 else l.worth Job.dials e.id) = 0 := by
    split
    · rfl
    · next hl => exact hopen.resolve_left hl
  rw [hlanded, hf, Nat.zero_add]

theorem Advances.spends_of_job {j : Job Q} (h : Advances e.id q dials calls told t)
    (hj : l.jobs.get? e.id = some j)
    (hothers : ∀ k, k ≠ e.id → t.link.jobs.get? k = l.jobs.get? k)
    (hdials : dials ≤ j.dialsLeft) (hcalls : calls ≤ j.callsLeft)
    (hopen : e.lands? = some e.id ∨ j.dials = 0) : Spends e l t := by
  have hworth (f : Job Q → Nat) : l.worth f e.id = f j := worth_of_some hj
  refine h.spends hothers ?_ ?_ ?_
  · rw [hworth]
    exact Nat.le_add_right_of_le hdials
  · rw [hworth]
    exact Nat.le_add_right_of_le hcalls
  · rw [hworth]
    exact hopen

theorem spends_of_still (hothers : ∀ k, k ≠ e.id → t.link.jobs.get? k = l.jobs.get? k)
    (hasks : asks t.orders = [])
    (hjob : t.link.jobs.get? e.id = l.jobs.get? e.id ∧ e.lands? = none ∨
      (t.link.jobs.get? e.id = none ∨ t.link.jobs.get? e.id = some .shutting) ∧
        (e.lands? = some e.id ∨ l.worth Job.dials e.id = 0)) : Spends e l t := by
  have hd : dialers t.orders = [] := by rw [← dialers_asks, hasks]; rfl
  have hc : callers t.orders = [] := by rw [← callers_asks, hasks]; rfl
  rcases hjob with ⟨hsame, hlands⟩ | ⟨hgone, hopen⟩
  · have hworth (f : Job Q → Nat) : t.link.worth f e.id = l.worth f e.id := by
      rw [worth, hsame, worth]
    refine spends_of_own hothers (by simp [hd, hc]) ?_ ?_ ?_
    · simp [hd, hworth]
    · simp [hc, hworth]
    · simp [hd, hworth, hlands]
  · have hworth : t.link.worth Job.dialsLeft e.id = 0 ∧ t.link.worth Job.callsLeft e.id = 0 ∧
        t.link.worth Job.dials e.id = 0 := by
      rcases hgone with h | h
      · simp [worth_of_none h]
      · simp [worth_of_some h, Job.dialsLeft, Job.callsLeft, Job.dials]
    refine spends_of_own hothers (by simp [hd, hc]) ?_ ?_ ?_
    · simp [hd, hworth.1]
    · simp [hc, hworth.2.1]
    · rcases hopen with h | h <;> simp [hd, hworth.2.2, h]

end Spends

structure Steps (e : Event Q A) (l : Link Q) (t : Turn Q A) : Prop extends Spends e l t where
  sound : t.link.Sound
  attempts : t.link.attempts = l.attempts
  ledger : ∀ x, t.link.cached.toList.count x + (closed t.orders).count x =
    l.cached.toList.count x + e.gain?.toList.count x
  evolves : ∃ cause, l.Evolves cause e.id t.link ∧ (∀ d, cause = .dialed d → e.gain? = some d) ∧
    ∀ d, cause = .failed d → ∃ e', l.jobs.get? e.id = some (.calling e' d)
  failing : ∀ j e', t.link.jobs.get? e.id = some j → j.errand? = some e' →
    ∀ f ∈ e'.last, f.isUnavailable = true

section Attempts

theorem attempts_pursue (pick : Option Address) (id : CallId) (q : Q) (n : Nat) :
    ∀ (l : Link Q) (last : Option Fault),
      (l.pursue pick id q last n : Turn Q A).link.attempts = l.attempts := by
  induction n with
  | zero => intro l last; rfl
  | succ n ih =>
    intro l last
    simp only [pursue]
    split
    · split
      · rfl
      · rfl
      · exact ih _ _
    · rfl

theorem attempts_retire (pick : Option Address) (l : Link Q) (id : CallId) (e : Errand Q)
    (c : Conn) :
    (l.retire pick id e c : Turn Q A).link.attempts = l.attempts := by
  simp only [retire]
  split
  · split
    · exact attempts_pursue pick id e.request e.left _ e.last
    · exact attempts_pursue pick id e.request e.left _ e.last
  · rfl

theorem attempts_step (pick : Option Address) (l : Link Q) (e : Event Q A) :
    (step pick l e).link.attempts = l.attempts := by
  cases e with
  | submit id q => exact attempts_pursue pick id q l.attempts l none
  | shut id => simp only [step, shut]; split <;> rfl
  | resume id =>
    simp only [step, resume]
    split
    · split
      · next e _ => exact attempts_pursue pick id e.request e.left l e.last
      · exact attempts_retire pick l id _ _
      · simp only [shut]; split <;> rfl
      · rfl
    · rfl
  | dialed id r =>
    simp only [step, dialed]
    split
    · split
      · rfl
      · split
        · exact attempts_pursue pick id _ _ l.unlock _
        · rfl
    · rfl
  | answered id r =>
    simp only [step, answered]
    split
    · split
      · rfl
      · split
        · exact attempts_retire pick l id _ _
        · rfl
    · rfl
  | abandon id => simp only [step, abandon]; split <;> rfl

end Attempts

section Steps

variable {e : Event Q A} {l : Link Q} {t : Turn Q A} {cause : Cause} {shutting : Bool}

theorem Takes.steps (h : Takes cause shutting e.id l t) (hs : Spends e l t)
    (hattempts : t.link.attempts = l.attempts) (hgain : e.gain?.toList = cause.gains)
    (hfailed : ∀ d, cause = .failed d → ∃ e', l.jobs.get? e.id = some (.calling e' d))
    (hfailing : ∀ j e', t.link.jobs.get? e.id = some j → j.errand? = some e' →
      ∀ f ∈ e'.last, f.isUnavailable = true) : Steps e l t :=
  { hs with
    sound := h.sound
    attempts := hattempts
    ledger := fun x => hgain ▸ h.ledger x
    evolves := by
      refine ⟨cause, h.toEvolves, fun d hd => ?_, hfailed⟩
      subst hd
      cases hg : e.gain? with
      | none => simp [hg, Cause.gains] at hgain
      | some c => simpa [hg, Cause.gains] using hgain
    failing := hfailing }

theorem Advances.failing {id : CallId} {q : Q} {dials calls : Nat} {told : Option (Except Fault A)}
    (h : Advances id q dials calls told t) :
    ∀ j e', t.link.jobs.get? id = some j → j.errand? = some e' →
      ∀ f ∈ e'.last, f.isUnavailable = true := by
  intro j e' hj he f hf
  cases h with
  | waiting e hs _ _ hjob _ =>
    rcases hjob with hjob | ⟨c, hjob⟩
    · obtain rfl := Option.some.inj (hj.symm.trans hjob)
      exact hs.last f (Option.some.inj he ▸ hf)
    · obtain rfl := Option.some.inj (hj.symm.trans hjob)
      exact hs.last f (Option.some.inj he ▸ hf)
  | dialing e a hs _ _ hjob _ =>
    obtain rfl := Option.some.inj (hj.symm.trans hjob)
    exact hs.last f (Option.some.inj he ▸ hf)
  | calling e c hs _ _ hjob _ =>
    obtain rfl := Option.some.inj (hj.symm.trans hjob)
    exact hs.last f (Option.some.inj he ▸ hf)
  | returns r _ _ hjob _ => exact absurd (hj.symm.trans hjob) (by simp)

structure Admits (l : Link Q) (e : Event Q A) : Prop where
  sound : l.Sound
  failing : ∀ k j e', l.jobs.get? k = some j → j.errand? = some e' →
    ∀ f ∈ e'.last, f.isUnavailable = true
  starts : ∀ id ∈ e.starts?, l.jobs.get? id = none
  dialed : ∀ id r, e = .dialed id r → ∃ e', l.jobs.get? id = some (.dialing e')

theorem Admits.serves {j : Job Q} {e' : Errand Q} {k : CallId} (h : Admits l e)
    (hj : l.jobs.get? k = some j) (he : j.errand? = some e') : e'.Serves e'.request :=
  ⟨rfl, h.failing k j e' hj he⟩

theorem steps_idle {turn : Turn Q A} (h : Admits l e) (ht : turn = { link := l })
    (hgain : e.gain? = none) (hlands : e.lands? = none) : Steps e l turn := by
  subst ht
  exact {
    spends_of_still (fun _ _ => rfl) rfl (.inl ⟨rfl, hlands⟩) with
    sound := h.sound
    attempts := rfl
    ledger := fun x => by simp [hgain]
    evolves := ⟨.quiet, .refl e.id l, by simp, by simp⟩
    failing := h.failing e.id }

theorem steps_submit (pick : Option Address) {id : CallId} {q : Q}
    (h : Admits l (.submit id q : Event Q A)) :
    Steps (.submit id q) l (l.submit pick id q : Turn Q A) := by
  have hj : l.jobs.get? id = none := h.starts id rfl
  have ht : Takes (A := A) .quiet false id l (l.submit pick id q) :=
    submit_takes pick q h.sound hj
  have hadv : Advances (A := A) id q l.attempts l.attempts none (l.submit pick id q) :=
    submit_advances pick l id q
  refine ht.steps (e := .submit id q) ?_ (attempts_step pick l (.submit id q)) rfl (by simp)
    hadv.failing
  exact hadv.spends (e := .submit id q) ht.others (by simp [grant, Event.id])
    (by simp [grant, Event.id])
    (.inr (worth_of_none hj))

theorem steps_shut {id : CallId} (h : Admits l e) (he : e = .shut id ∨ e = .resume id)
    (hj : l.jobs.get? id = none ∨ l.jobs.get? id = some .shutting) :
    Steps e l (l.shut id : Turn Q A) := by
  have hid : e.id = id := by rcases he with rfl | rfl <;> rfl
  have hgain : e.gain? = none := by rcases he with rfl | rfl <;> rfl
  have hopen : l.worth Job.dials id = 0 := by
    rcases hj with hj | hj
    · exact worth_of_none hj
    · exact worth_of_some hj
  have hattempts : (l.shut id : Turn Q A).link.attempts = l.attempts :=
    attempts_step none l (.shut id)
  have hasks : asks (l.shut id : Turn Q A).orders = [] := by
    simp only [shut]
    split <;> simp
  have hjob : (l.shut id : Turn Q A).link.jobs.get? id = none ∨
      (l.shut id : Turn Q A).link.jobs.get? id = some .shutting := by
    simp only [shut]
    split <;> simp
  have hfailing : ∀ j e', (l.shut id : Turn Q A).link.jobs.get? e.id = some j →
      j.errand? = some e' → ∀ f ∈ e'.last, f.isUnavailable = true := by
    intro j e' hj' he'
    rw [hid] at hj'
    rcases hjob with hnone | hshut
    · exact absurd (hj'.symm.trans hnone) (by simp)
    · obtain rfl := Option.some.inj (hj'.symm.trans hshut)
      cases he'
  have hretiring : ∀ e c, l.jobs.get? id ≠ some (.retiring e c) := by
    rcases hj with hj | hj <;> simp [hj]
  subst hid
  have hspends (hothers : ∀ k, k ≠ e.id →
      (l.shut e.id : Turn Q A).link.jobs.get? k = l.jobs.get? k) :
      Spends e l (l.shut e.id : Turn Q A) :=
    spends_of_still hothers hasks (.inr ⟨hjob, .inr hopen⟩)
  rcases shut_takes (A := A) h.sound hretiring with ⟨-, ht⟩ | ⟨-, ht⟩
  · exact ht.steps (hspends ht.others) hattempts (by simp [hgain, Cause.gains]) (by simp) hfailing
  · exact ht.steps (hspends ht.others) hattempts (by simp [hgain, Cause.gains]) (by simp) hfailing

theorem steps_resume (pick : Option Address) {id : CallId} (h : Admits l (.resume id : Event Q A)) :
    Steps (.resume id) l (l.resume pick id : Turn Q A) := by
  cases hj : l.jobs.get? id with
  | none =>
    exact steps_idle h (by simp [resume, hj]) rfl rfl
  | some j =>
    have hgoes {e : Errand Q} (he : j.errand? = some e) (hopen : j.dials = 0)
        (hleft : e.left ≤ j.dialsLeft ∧ e.left ≤ j.callsLeft) (hne : j ≠ .shutting)
        (hjob : l.jobs.get? id = some (.seeking e) ∨ ∃ c, l.jobs.get? id = some (.retiring e c)) :
        Steps (.resume id) l (l.resume pick id : Turn Q A) := by
      have ht : Takes (A := A) .quiet false id l (l.resume pick id) :=
        resume_takes pick h.sound hj hne
      have hadv : Advances (A := A) id e.request e.left e.left none (l.resume pick id) :=
        resume_advances pick hjob (h.serves hj he)
      refine ht.steps (e := .resume id) ?_ (attempts_step pick l (.resume id)) rfl (by simp)
        hadv.failing
      exact hadv.spends_of_job (e := .resume id) hj ht.others hleft.1 hleft.2 (.inr hopen)
    cases j with
    | seeking e => exact hgoes rfl rfl ⟨Nat.le_refl _, Nat.le_refl _⟩ (by simp) (.inl hj)
    | retiring e c => exact hgoes rfl rfl ⟨Nat.le_refl _, Nat.le_refl _⟩ (by simp) (.inr ⟨c, hj⟩)
    | shutting =>
      by_cases ho : l.lock.owner = some id
      · rw [show l.resume pick id = (l.shut id : Turn Q A) by simp [resume, ho, hj]]
        exact steps_shut h (.inr rfl) (.inr hj)
      · exact steps_idle h (by simp [resume, ho]) rfl rfl
    | dialing e => exact steps_idle h (by simp [resume, hj]) rfl rfl
    | calling e c => exact steps_idle h (by simp [resume, hj]) rfl rfl

theorem steps_dialed (pick : Option Address) {id : CallId} {r : Except Fault Conn}
    (h : Admits l (.dialed id r : Event Q A)) :
    Steps (.dialed id r) l (l.dialed pick id r : Turn Q A) := by
  obtain ⟨e, hj⟩ := h.dialed id r rfl
  have hadv := dialed_advances (A := A) pick r hj (h.serves hj rfl)
  have hspends (hothers : ∀ k, k ≠ id →
      (l.dialed pick id r : Turn Q A).link.jobs.get? k = l.jobs.get? k) :
      Spends (.dialed id r) l (l.dialed pick id r : Turn Q A) :=
    hadv.spends_of_job (e := .dialed id r) hj hothers (Nat.le_refl _) (Nat.le_refl _) (.inl rfl)
  have hattempts := attempts_step pick l (.dialed id r : Event Q A)
  cases r with
  | ok c =>
    have ht : Takes (A := A) (.dialed c) false id l (l.dialed pick id (.ok c)) :=
      dialed_takes_ok pick c h.sound hj
    exact ht.steps (hspends ht.others) hattempts rfl (by simp) hadv.failing
  | error f =>
    have ht : Takes (A := A) .quiet false id l (l.dialed pick id (.error f)) :=
      dialed_takes_error pick f h.sound hj
    exact ht.steps (hspends ht.others) hattempts rfl (by simp) hadv.failing

theorem steps_answered (pick : Option Address) {id : CallId} {r : Except Fault A}
    (h : Admits l (.answered id r : Event Q A)) :
    Steps (.answered id r) l (l.answered pick id r) := by
  by_cases hcalling : ∃ e c, l.jobs.get? id = some (.calling e c)
  · obtain ⟨e, c, hj⟩ := hcalling
    have ht := answered_takes pick r h.sound hj
    have hadv := answered_advances pick r hj (h.serves hj rfl)
    refine ht.steps (e := .answered id r) ?_ (attempts_step pick l (.answered id r)) ?_
      (fun d hd => ?_) hadv.failing
    · exact hadv.spends_of_job (e := .answered id r) hj ht.others (Nat.le_refl _) (Nat.le_refl _)
        (.inr rfl)
    · split <;> rfl
    · split at hd
      · obtain rfl := Cause.failed.inj hd
        exact ⟨e, hj⟩
      · cases hd
  · refine steps_idle h ?_ rfl rfl
    unfold answered
    split
    · next e c hj => exact absurd ⟨e, c, hj⟩ hcalling
    · rfl

theorem steps_abandon {id : CallId} (h : Admits l (.abandon id : Event Q A)) :
    Steps (.abandon id) l (l.abandon id : Turn Q A) := by
  have ht : Abandons (A := A) id l (l.abandon id) := abandon_abandons h.sound
  have hasks : asks (l.abandon id : Turn Q A).orders = [] := by
    simp only [abandon]
    split
    · rfl
    · rfl
    · rw [show (Order.withdraw id :: l.handover) = [.withdraw id] ++ l.handover from rfl,
        asks_append, asks_handover]
      rfl
    · simp only
      split
      · exact asks_handover l
      · rfl
  exact {
    spends_of_still (e := .abandon id) ht.others hasks (.inr ⟨.inl ht.ended, .inl rfl⟩) with
    sound := ht.sound
    attempts := attempts_step none l (.abandon id)
    ledger := fun x => by simp [ht.cached, ht.closed, Event.gain?]
    evolves := ⟨.gone, ht.toEvolves, by simp, by simp⟩
    failing := fun j e' hj => absurd (hj.symm.trans ht.ended) (by simp) }

theorem job_of_unknown (pick : Option Address) (hj : l.jobs.get? e.id = none)
    (hs : e.starts? = none) : (step pick l e).link.jobs.get? e.id = none := by
  cases e with
  | submit id q => cases hs
  | shut id => cases hs
  | resume id =>
    simp only [Event.id] at hj
    simp [step, resume, hj, Event.id]
  | dialed id r =>
    simp only [Event.id] at hj
    simp [step, dialed, hj, Event.id]
  | answered id r =>
    simp only [Event.id] at hj
    simp [step, answered, hj, Event.id]
  | abandon id =>
    simp only [Event.id] at hj
    simp [step, abandon, hj, Event.id]

theorem step_steps (pick : Option Address) (h : Admits l e) : Steps e l (step pick l e) := by
  cases e with
  | submit id q => exact steps_submit pick h
  | shut id => exact steps_shut h (.inl rfl) (.inl (h.starts id rfl))
  | resume id => exact steps_resume pick h
  | dialed id r => exact steps_dialed pick h
  | answered id r => exact steps_answered pick h
  | abandon id => exact steps_abandon h

end Steps

end StreamClient.Link
