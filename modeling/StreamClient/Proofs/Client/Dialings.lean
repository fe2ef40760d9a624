import StreamClient.Proofs.Client.Letters

/-! The dials of a call, one after another, and what came of each. -/

namespace StreamClient.Client

structure Dialing where
  address : Address
  result : Option (Except Fault Conn) := none
  deriving DecidableEq

def Effect.dialing? (id : CallId) : Effect → Option Dialing
  | .dial k address => if k = id then some { address } else none
  | _ => none

def begun (effects : List Effect) (id : CallId) : List Dialing :=
  (effects.filterMap (Effect.dialing? id)).reverse

def ended (id : CallId) : Event → List Dialing → List Dialing
  | .dialed k r, d :: earlier => if k = id then { d with result := some r } :: earlier else d :: earlier
  | _, dialings => dialings

/-- The dials of the call `id`, the latest in front. -/
def dialings : History → CallId → List Dialing
  | [], _ => []
  | r :: earlier, id => begun r.move.2 id ++ ended id r.event (dialings earlier id)

section Dialings

variable {settings : Settings} {now : Nat} {history : History} {c : Client} {draw : Nat} {e : Event}
  {id : CallId} {effects : List Effect} {d : Dialing} {a : Address}

theorem dialings_cons (c : Client) (draw : Nat) (e : Event) (history : History) (id : CallId) :
    dialings (⟨c, draw, e⟩ :: history) id =
      begun (step draw c e).2 id ++ ended id e (dialings history id) := rfl

theorem mem_begun : d ∈ begun effects id ↔ .dial id d.address ∈ effects ∧ d.result = none := by
  rw [begun, List.mem_reverse, List.mem_filterMap]
  constructor
  · rintro ⟨x, hx, heq⟩
    unfold Effect.dialing? at heq
    split at heq
    · split at heq
      · next hk =>
        subst hk
        obtain rfl := Option.some.inj heq
        exact ⟨hx, rfl⟩
      · cases heq
    · cases heq
  · rintro ⟨hx, hnone⟩
    obtain ⟨address, result⟩ := d
    dsimp only at hx hnone
    subst hnone
    exact ⟨_, hx, if_pos rfl⟩

theorem begun_eq_nil (h : ∀ a, .dial id a ∉ effects) : begun effects id = [] :=
  List.eq_nil_iff_forall_not_mem.2 fun d hd => h d.address (mem_begun.1 hd).1

theorem begun_of_works {k : CallId} (h : Works k effects) (hk : k ≠ id) :
    begun effects id = [] :=
  begun_eq_nil fun _ ha => hk (beq_iff_eq.1 (h _ ha)).symm

theorem begun_of_light (h : Light effects) : begun effects id = [] :=
  begun_eq_nil fun _ ha => by cases h _ ha

theorem begun_dial (id : CallId) (a : Address) : begun [.dial id a] id = [{ address := a }] := by
  simp [begun, Effect.dialing?]

theorem ended_of_ne (h : ∀ r, e ≠ .dialed id r) (dialings : List Dialing) :
    ended id e dialings = dialings := by
  unfold ended
  split
  · next k r d earlier =>
    refine if_neg ?_
    rintro rfl
    exact h r rfl
  · rfl

theorem Run.dialings_away (h : Run settings now history c) (draw : Nat)
    (he : e.caller? ≠ some id) : dialings (⟨c, draw, e⟩ :: history) id = dialings history id := by
  have hbegun : begun (step draw c e).2 id = [] := by
    cases h.step_asks draw e with
    | nobody _ hlight => exact begun_of_light hlight
    | call k hk _ hworks => exact begun_of_works hworks fun hid => he (hid ▸ hk)
    | partitioner k op question _ _ hm =>
      rw [hm]
      rfl
  rw [dialings_cons, hbegun, List.nil_append]
  apply ended_of_ne
  rintro r rfl
  exact he rfl

theorem Run.dialings_of_gone (h : Run settings now history c) (draw : Nat)
    (hp : Possible history c e) (hs : c.calls.get? id = none) (hstart : ∀ op, e ≠ .start id op) :
    dialings (⟨c, draw, e⟩ :: history) id = dialings history id := by
  by_cases he : e.caller? = some id
  · rw [dialings_cons, step_of_gone draw hs he hstart]
    apply ended_of_ne
    rintro r rfl
    have hdialing := isSome_of_isDialing hp.1
    rw [hs] at hdialing
    cases hdialing
  · exact h.dialings_away draw he

theorem Run.dialings_of_new (h : Run settings now history c) (hnew : id ∉ started history) :
    dialings history id = [] := by
  refine h.until_start (P := fun history => dialings history id = []) hnew rfl ?_
  intro earlier before e draw hrun hp hnew' ih
  have hs := hrun.keeps.call_of_new (mt mem_started_cons hnew')
  rw [hrun.dialings_of_gone draw hp hs (not_start_of_new hnew'), ih]

end Dialings

end StreamClient.Client
