import Mathlib.Data.Finset.Card
import Mathlib.Data.List.Nodup
import StreamClient.Proofs.Table

/-! Lists that name a thing more than once: the last entry that is meant, and each entry at its first
mention. -/

namespace StreamClient

variable {α : Type}

/-- Among the entries for which `p` holds `a` is listed last. -/
def LastListed (p : α → Prop) (l : List α) (a : α) : Prop :=
  ∃ before after, l = before ++ a :: after ∧ p a ∧ ∀ x ∈ after, ¬ p x

section LastListed

variable {p : α → Prop} {l : List α} {a b : α}

theorem LastListed.holds (h : LastListed p l a) : p a := by
  obtain ⟨-, -, -, hp, -⟩ := h
  exact hp

theorem LastListed.mem (h : LastListed p l a) : a ∈ l := by
  obtain ⟨before, after, rfl, -, -⟩ := h
  simp

theorem find?_reverse_eq_some_iff [DecidablePred p] :
    l.reverse.find? (fun x => p x) = some a ↔ LastListed p l a := by
  rw [List.find?_eq_some_iff_append]
  constructor
  · rintro ⟨hp, after, before, hl, hafter⟩
    refine ⟨before.reverse, after.reverse, ?_, of_decide_eq_true hp, fun x hx => ?_⟩
    · simpa [List.append_assoc] using congrArg List.reverse hl
    · simpa using hafter x (List.mem_reverse.1 hx)
  · rintro ⟨before, after, rfl, hp, hafter⟩
    refine ⟨decide_eq_true hp, after.reverse, before.reverse, by simp, fun x hx => ?_⟩
    simpa using hafter x (List.mem_reverse.1 hx)

theorem exists_lastListed : (∃ a, LastListed p l a) ↔ ∃ a ∈ l, p a := by
  classical
  constructor
  · rintro ⟨a, ha⟩
    exact ⟨a, ha.mem, ha.holds⟩
  · rintro ⟨a, ha, hp⟩
    have hsome : (l.reverse.find? fun x => decide (p x)).isSome = true := by
      rw [List.find?_isSome]
      exact ⟨a, List.mem_reverse.2 ha, decide_eq_true hp⟩
    obtain ⟨b, hb⟩ := Option.isSome_iff_exists.1 hsome
    exact ⟨b, find?_reverse_eq_some_iff.1 hb⟩

end LastListed

section EraseDups

variable [DecidableEq α]

theorem pairwise_eraseDups (l : List α) :
    l.eraseDups.Pairwise fun a b => l.idxOf a < l.idxOf b := by
  induction l using List.reverseRecOn with
  | nil => exact .nil
  | append_singleton l x ih =>
    have hold : ∀ a ∈ l.eraseDups, (l ++ [x]).idxOf a = l.idxOf a := fun a ha =>
      List.idxOf_append_of_mem (List.mem_eraseDups.1 ha)
    have hfirst : l.eraseDups.Pairwise fun a b => (l ++ [x]).idxOf a < (l ++ [x]).idxOf b := by
      refine ih.imp_of_mem fun ha hb hlt => ?_
      rwa [hold _ ha, hold _ hb]
    rw [List.eraseDups_append]
    by_cases hx : x ∈ l
    · have hnothing : ([x].removeAll l).eraseDups = [] := by simp [List.removeAll, hx]
      rwa [hnothing, List.append_nil]
    · have hnew : ([x].removeAll l).eraseDups = [x] := by
        simp [List.removeAll, hx, List.eraseDups_cons]
      rw [hnew]
      refine List.pairwise_append.2 ⟨hfirst, List.pairwise_singleton _ x, fun a ha b hb => ?_⟩
      obtain rfl := List.mem_singleton.1 hb
      rw [hold a ha, List.idxOf_append_of_notMem hx]
      exact (List.idxOf_lt_length_iff.2 (List.mem_eraseDups.1 ha)).trans_le (Nat.le_add_right ..)

end EraseDups

namespace Table

variable {β κ : Type} [DecidableEq κ] {l : List α} {key : α → κ} {f : α → β} {k : κ} {v : β}

theorem get?_ofList_map :
    (ofList (l.map fun a => (key a, f a))).get? k =
      (l.reverse.find? fun a => key a = k).map f := by
  rw [get?_ofList, ← List.map_reverse, List.find?_map, Option.map_map]
  rfl

theorem get?_ofList_map_eq_some_iff :
    (ofList (l.map fun a => (key a, f a))).get? k = some v ↔
      ∃ a, LastListed (fun a => key a = k) l a ∧ f a = v := by
  rw [get?_ofList_map, Option.map_eq_some_iff]
  exact exists_congr fun a => and_congr_left' find?_reverse_eq_some_iff

theorem mem_keys_ofList {l : List (κ × β)} : k ∈ (ofList l).keys ↔ k ∈ l.map Prod.fst := by
  rw [mem_keys_iff, get?_ofList, Option.isSome_map, List.find?_isSome]
  simp

theorem size_ofList (l : List (κ × β)) : (ofList l).size = (l.map Prod.fst).toFinset.card := by
  have hkeys : (ofList l).keys.toFinset = (l.map Prod.fst).toFinset := by
    ext k
    rw [List.mem_toFinset, List.mem_toFinset, mem_keys_ofList]
  rw [← hkeys, List.toFinset_card_of_nodup (show (ofList l).keys.Nodup from (ofList l).nodup), keys,
    List.length_map, size]

end Table
end StreamClient
