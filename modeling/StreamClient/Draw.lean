/-!
Random choices as functions of a drawn number. A uniform draw makes every outcome equally likely.
-/

namespace StreamClient

variable {α : Type}

def choose (draw : Nat) (l : List α) : Option α := l[draw % l.length]?

/-- The first element goes to a place of its own choice among the others, which are shuffled likewise. -/
def shuffle (draw : Nat) : List α → List α
  | [] => []
  | a :: r => (shuffle (draw / (r.length + 1)) r).insertIdx (draw % (r.length + 1)) a

theorem choose_eq_none_iff (draw : Nat) (l : List α) : choose draw l = none ↔ l = [] := by
  cases l with
  | nil => simp [choose]
  | cons a r =>
    have h : draw % (a :: r).length < (a :: r).length := Nat.mod_lt _ (by simp)
    simp only [choose, List.getElem?_eq_getElem h, reduceCtorEq]

theorem mem_of_choose {draw : Nat} {l : List α} {a : α} (h : choose draw l = some a) : a ∈ l :=
  List.mem_of_getElem? h

theorem choose_lt {l : List α} {i : Nat} (h : i < l.length) : choose i l = some l[i] := by
  simp [choose, Nat.mod_eq_of_lt h]

theorem length_shuffle (draw : Nat) (l : List α) : (shuffle draw l).length = l.length := by
  induction l generalizing draw with
  | nil => rfl
  | cons a r ih =>
    have h : draw % (r.length + 1) ≤ r.length := Nat.le_of_lt_succ (Nat.mod_lt draw (Nat.succ_pos _))
    simp [shuffle, List.length_insertIdx, ih, h]

end StreamClient
