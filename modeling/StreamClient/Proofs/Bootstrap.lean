import Mathlib.Data.List.Perm.Basic
import Mathlib.Data.String.Basic
import StreamClient.Draw
import StreamClient.Snapshot

/-! The list of bootstrap addresses: any order of it can be drawn, and the brokers to turn to are its
distinct entries, of which any can be chosen. -/

namespace StreamClient

section Shuffle

variable {α : Type}

theorem shuffle_perm (draw : Nat) (l : List α) : (shuffle draw l).Perm l := by
  induction l generalizing draw with
  | nil => exact .nil
  | cons a r ih =>
    have hle : draw % (r.length + 1) ≤ (shuffle (draw / (r.length + 1)) r).length := by
      rw [length_shuffle]
      exact Nat.le_of_lt_succ (Nat.mod_lt draw (Nat.succ_pos _))
    rw [shuffle]
    exact (List.perm_insertIdx a _ hle).trans ((ih _).cons a)

theorem insertIdx_length_append (before after : List α) (a : α) :
    (before ++ after).insertIdx before.length a = before ++ a :: after := by
  induction before with
  | nil => rfl
  | cons b before ih =>
    rw [List.cons_append, List.length_cons, List.insertIdx_succ_cons, ih, List.cons_append]

theorem exists_shuffle {order l : List α} (h : order.Perm l) : ∃ draw, shuffle draw l = order := by
  induction l generalizing order with
  | nil => exact ⟨0, h.eq_nil.symm⟩
  | cons a r ih =>
    obtain ⟨before, after, rfl⟩ := List.append_of_mem (h.symm.subset (List.mem_cons_self ..))
    have hrest : (before ++ after).Perm r := (List.perm_middle.symm.trans h).cons_inv
    obtain ⟨draw, hdraw⟩ := ih hrest
    have hlt : before.length < r.length + 1 := by
      rw [← hrest.length_eq, List.length_append]
      omega
    -- the place of `a` is the last digit of the number, and the others are drawn with the rest of it
    refine ⟨(r.length + 1) * draw + before.length, ?_⟩
    rw [shuffle, Nat.mul_add_mod, Nat.mod_eq_of_lt hlt, Nat.mul_add_div (Nat.succ_pos _),
      Nat.div_eq_of_lt hlt, Nat.add_zero, hdraw]
    exact insertIdx_length_append before after a

theorem exists_choose {a : α} {l : List α} (h : a ∈ l) : ∃ draw, choose draw l = some a := by
  obtain ⟨i, hi, rfl⟩ := List.mem_iff_getElem.1 h
  exact ⟨i, choose_lt hi⟩

end Shuffle

namespace Snapshot

theorem sorted_insertAddress (a : Address) {l : List Address} (h : l.Pairwise (· < ·)) :
    (insertAddress a l).Pairwise (· < ·) := by
  induction l with
  | nil => exact List.pairwise_singleton _ a
  | cons b r ih =>
    obtain ⟨hb, hr⟩ := List.pairwise_cons.1 h
    rw [insertAddress]
    split
    · next hlt =>
      refine List.pairwise_cons.2 ⟨fun x hx => ?_, h⟩
      rcases List.mem_cons.1 hx with rfl | hx
      · exact hlt
      · exact hlt.trans (hb x hx)
    · next hle =>
      split
      · exact h
      · next hne =>
        refine List.pairwise_cons.2 ⟨fun x hx => ?_, ih hr⟩
        rcases mem_insertAddress.1 hx with rfl | hx
        · exact lt_of_le_of_ne (not_lt.1 hle) (Ne.symm hne)
        · exact hb x hx

theorem sorted_distinctAddresses (l : List Address) : (distinctAddresses l).Pairwise (· < ·) := by
  induction l with
  | nil => exact .nil
  | cons a r ih => exact sorted_insertAddress a ih

theorem nodup_distinctAddresses (l : List Address) : (distinctAddresses l).Nodup :=
  (sorted_distinctAddresses l).imp ne_of_lt

theorem distinctAddresses_of_sorted {l : List Address} (h : l.Pairwise (· < ·)) :
    distinctAddresses l = l := by
  induction l with
  | nil => rfl
  | cons a r ih =>
    obtain ⟨ha, hr⟩ := List.pairwise_cons.1 h
    have hfirst : insertAddress a r = a :: r := by
      cases r with
      | nil => rfl
      | cons b r => rw [insertAddress, if_pos (ha b (List.mem_cons_self ..))]
    change insertAddress a (distinctAddresses r) = a :: r
    rw [ih hr, hfirst]

theorem addresses_initial (bootstrap : List Address) :
    (initial bootstrap).addresses = distinctAddresses bootstrap := by
  have hbrokers : (initial bootstrap).brokers.values.map Broker.address = [] := rfl
  rw [addresses, hbrokers, List.append_nil]
  exact distinctAddresses_of_sorted (sorted_distinctAddresses bootstrap)

end Snapshot
end StreamClient
