/-! A fair lock: it passes to whoever has waited longest. -/

namespace StreamClient

structure Lock where
  owner : Option Nat := none
  queue : List Nat := []
  deriving DecidableEq, Repr, Inhabited

namespace Lock

/-- The lock after `id` asked for it, and whether `id` has it now. To ask again as the owner changes
nothing. -/
def request (l : Lock) (id : Nat) : Lock × Bool :=
  match l.owner with
  | none => ({ l with owner := some id }, true)
  | some o => if o = id then (l, true) else ({ l with queue := l.queue ++ [id] }, false)

def release (l : Lock) : Lock :=
  match l.queue with
  | [] => { owner := none, queue := [] }
  | n :: r => { owner := some n, queue := r }

def withdraw (l : Lock) (id : Nat) : Lock :=
  if l.owner = some id then l.release else { l with queue := l.queue.filter (· ≠ id) }

theorem request_owner (l : Lock) (id : Nat) :
    (l.request id).2 = true ↔ (l.request id).1.owner = some id := by
  rcases l with ⟨_ | o, q⟩
  · simp [request]
  · by_cases h : o = id <;> simp [request, h]

end Lock
end StreamClient
