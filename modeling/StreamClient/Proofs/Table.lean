import Mathlib.Algebra.BigOperators.Group.List.Basic
import Mathlib.Algebra.Ring.Nat
import StreamClient.Table

/-! Sums over the entries of a table, and where its entries come from. -/

namespace StreamClient.Table

variable {κ α : Type} [DecidableEq κ]

def total (t : Table κ α) (f : α → Nat) : Nat := (t.entries.map fun e => f e.2).sum

def share (t : Table κ α) (f : α → Nat) (k : κ) : Nat := ((t.get? k).map f).getD 0

@[simp] theorem total_empty (f : α → Nat) : (∅ : Table κ α).total f = 0 := rfl

theorem share_of_some {t : Table κ α} {f : α → Nat} {k : κ} {v : α} (h : t.get? k = some v) :
    t.share f k = f v := by
  rw [share, h]
  rfl

theorem share_of_none {t : Table κ α} {f : α → Nat} {k : κ} (h : t.get? k = none) :
    t.share f k = 0 := by
  rw [share, h]
  rfl

theorem total_put (t : Table κ α) (f : α → Nat) (k : κ) (v : α) :
    (t.put k v).total f + t.share f k = t.total f + f v := by
  simp only [total, share, put, get?]
  induction t.entries with
  | nil => simp [putEntry]
  | cons e r ih =>
    obtain ⟨key, value⟩ := e
    by_cases h : key = k
    · simp [putEntry, h]
      omega
    · have hk : (k == key) = false := beq_eq_false_iff_ne.2 (Ne.symm h)
      simp only [putEntry, h, if_false, List.lookup_cons, hk, List.map_cons,
        List.sum_cons]
      omega

theorem total_erase (t : Table κ α) (f : α → Nat) (k : κ) :
    (t.erase k).total f + t.share f k = t.total f := by
  obtain ⟨entries, hn⟩ := t
  simp only [total, share, erase, get?]
  induction entries with
  | nil => simp
  | cons e r ih =>
    obtain ⟨key, value⟩ := e
    have hr := ih (List.nodup_cons.1 hn).2
    by_cases h : key = k
    · -- the keys differ, so nothing else goes
      have hnew : key ∉ r.map Prod.fst := (List.nodup_cons.1 hn).1
      have hlookup : r.lookup k = none := by
        rw [List.lookup_eq_none_iff]
        intro p hp
        exact bne_iff_ne.2 fun hkp => hnew (h.trans hkp ▸ List.mem_map_of_mem hp)
      simp only [hlookup, Option.map_none, Option.getD_none] at hr
      simp [h] at hr ⊢
      omega
    · have hk : (k == key) = false := beq_eq_false_iff_ne.2 (Ne.symm h)
      simp [List.lookup_cons, h, hk] at hr ⊢
      omega

theorem total_map (t : Table κ α) (g : κ → α → α) (f : α → Nat) :
    (t.map g).total f = (t.entries.map fun e => f (g e.1 e.2)).sum := by
  simp [total, map, Function.comp_def]

theorem get?_map {β : Type} (t : Table κ α) (g : κ → α → β) (k : κ) :
    (t.map g).get? k = (t.get? k).map (g k) := by
  simp only [get?, map]
  induction t.entries with
  | nil => rfl
  | cons e r ih =>
    obtain ⟨key, value⟩ := e
    by_cases h : k = key
    · simp [h]
    · have hk : (k == key) = false := beq_eq_false_iff_ne.2 h
      simp only [List.map_cons, List.lookup_cons, hk, ih]

theorem share_add_share_le (t : Table κ α) (f : α → Nat) {k k' : κ} (h : k ≠ k') :
    t.share f k + t.share f k' ≤ t.total f := by
  have herase := t.total_erase f k
  have hother : (t.erase k).share f k' = t.share f k' := by
    simp [share, get?_erase, Ne.symm h]
  have htwice := (t.erase k).total_erase f k'
  omega

theorem share_le (t : Table κ α) (f : α → Nat) (k : κ) : t.share f k ≤ t.total f := by
  have herase := t.total_erase f k
  omega

theorem get?_of_mem {t : Table κ α} {k : κ} {v : α} (h : (k, v) ∈ t.entries) :
    t.get? k = some v := by
  obtain ⟨l, r, hlr⟩ := List.append_of_mem h
  have hn := t.nodup
  rw [hlr, List.map_append, List.map_cons, List.nodup_append] at hn
  rw [get?, hlr, List.lookup_eq_some_iff]
  refine ⟨l, r, rfl, fun p hp => ?_⟩
  exact bne_iff_ne.2 (Ne.symm (hn.2.2 p.1 (List.mem_map_of_mem hp) k (List.mem_cons_self ..)))

theorem erase_of_none {t : Table κ α} {k : κ} (h : t.get? k = none) : t.erase k = t := by
  apply Table.ext
  refine List.filter_eq_self.2 fun e he => decide_eq_true ?_
  rintro rfl
  rw [get?_of_mem (k := e.1) (v := e.2) he] at h
  cases h

theorem exists_share_pos {t : Table κ α} {f : α → Nat} (h : 0 < t.total f) :
    ∃ k, 0 < t.share f k := by
  by_contra hnone
  refine Nat.ne_of_gt h (List.sum_eq_zero fun n hn => ?_)
  obtain ⟨e, he, rfl⟩ := List.mem_map.1 hn
  have hshare := share_of_some (f := f) (get?_of_mem (k := e.1) (v := e.2) he)
  rw [← hshare]
  exact Nat.eq_zero_of_not_pos fun hpos => hnone ⟨e.1, hpos⟩

theorem mem_values_iff {t : Table κ α} {v : α} : v ∈ t.values ↔ ∃ k, t.get? k = some v := by
  constructor
  · intro h
    obtain ⟨e, he, rfl⟩ := List.mem_map.1 h
    exact ⟨e.1, get?_of_mem he⟩
  · rintro ⟨k, hk⟩
    obtain ⟨l, r, hlr, -⟩ := List.lookup_eq_some_iff.1 hk
    refine List.mem_map.2 ⟨(k, v), ?_, rfl⟩
    rw [hlr]
    simp

theorem mem_of_get?_ofList {l : List (κ × α)} {k : κ} {v : α} (h : (ofList l).get? k = some v) :
    (k, v) ∈ l := by
  rw [get?_ofList, Option.map_eq_some_iff] at h
  obtain ⟨e, hfind, rfl⟩ := h
  have hkey : e.1 = k := by simpa using List.find?_some hfind
  exact hkey ▸ List.mem_reverse.1 (List.mem_of_find?_eq_some hfind)

end StreamClient.Table
