/-! Finite tables with one entry for a key, in the order in which the keys were first put in. -/

namespace StreamClient

@[ext]
structure Table (κ α : Type) [DecidableEq κ] where
  entries : List (κ × α) := []
  nodup : (entries.map Prod.fst).Nodup := by simp

namespace Table

variable {κ α : Type} [DecidableEq κ]

instance : EmptyCollection (Table κ α) := ⟨{}⟩

instance : Inhabited (Table κ α) := ⟨∅⟩

instance [DecidableEq α] : DecidableEq (Table κ α) := fun a b =>
  decidable_of_iff (a.entries = b.entries) Table.ext_iff.symm

instance [Repr κ] [Repr α] : Repr (Table κ α) := ⟨fun t n => reprPrec t.entries n⟩

def keys (t : Table κ α) : List κ := t.entries.map Prod.fst

def values (t : Table κ α) : List α := t.entries.map Prod.snd

def size (t : Table κ α) : Nat := t.entries.length

def get? (t : Table κ α) (k : κ) : Option α := t.entries.lookup k

def contains (t : Table κ α) (k : κ) : Bool := (t.get? k).isSome

/-- A new key goes to the end, a known one keeps its place. -/
def putEntry (k : κ) (v : α) : List (κ × α) → List (κ × α)
  | [] => [(k, v)]
  | e :: r => if e.1 = k then (k, v) :: r else e :: putEntry k v r

theorem mem_keys_putEntry {k x : κ} {v : α} {l : List (κ × α)} :
    x ∈ (putEntry k v l).map Prod.fst ↔ x = k ∨ x ∈ l.map Prod.fst := by
  induction l with
  | nil => simp [putEntry]
  | cons e r ih => grind [putEntry]

theorem nodup_putEntry {k : κ} {v : α} {l : List (κ × α)} (h : (l.map Prod.fst).Nodup) :
    ((putEntry k v l).map Prod.fst).Nodup := by
  induction l with
  | nil => simp [putEntry]
  | cons e r ih =>
    simp only [List.map_cons, List.nodup_cons] at h
    by_cases he : e.1 = k
    · simp only [putEntry, he, if_true, List.map_cons, List.nodup_cons]
      exact he ▸ h
    · simp only [putEntry, he, if_false, List.map_cons, List.nodup_cons]
      exact ⟨fun hm => (mem_keys_putEntry.1 hm).elim he h.1, ih h.2⟩

def put (t : Table κ α) (k : κ) (v : α) : Table κ α :=
  ⟨putEntry k v t.entries, nodup_putEntry t.nodup⟩

def erase (t : Table κ α) (k : κ) : Table κ α :=
  ⟨t.entries.filter fun e => e.1 ≠ k, t.nodup.sublist (List.filter_sublist.map _)⟩

def modify (t : Table κ α) (k : κ) (f : α → α) : Table κ α :=
  match t.get? k with
  | some v => t.put k (f v)
  | none => t

def map {β : Type} (f : κ → α → β) (t : Table κ α) : Table κ β :=
  ⟨t.entries.map fun e => (e.1, f e.1 e.2), by simpa [Function.comp_def] using t.nodup⟩

/-- The last entry of a key wins. -/
def ofList (l : List (κ × α)) : Table κ α := l.foldl (fun t e => t.put e.1 e.2) ∅

@[simp] theorem get?_empty (k : κ) : (∅ : Table κ α).get? k = none := rfl

theorem lookup_putEntry (k x : κ) (v : α) (l : List (κ × α)) :
    (putEntry k v l).lookup x = if x = k then some v else l.lookup x := by
  induction l with
  | nil => grind [putEntry]
  | cons e r ih =>
    obtain ⟨key, value⟩ := e
    grind [putEntry]

theorem get?_put (t : Table κ α) (k x : κ) (v : α) :
    (t.put k v).get? x = if x = k then some v else t.get? x := lookup_putEntry k x v t.entries

theorem get?_erase (t : Table κ α) (k x : κ) :
    (t.erase k).get? x = if x = k then none else t.get? x := by
  simp only [get?, erase]
  induction t.entries with
  | nil => simp
  | cons e r ih =>
    obtain ⟨key, value⟩ := e
    grind

theorem erase_put (t : Table κ α) (k : κ) (v : α) : (t.put k v).erase k = t.erase k := by
  apply Table.ext
  simp only [put, erase]
  induction t.entries with
  | nil => simp [putEntry]
  | cons e r ih => by_cases h : e.1 = k <;> simp_all [putEntry]

theorem mem_keys_iff (t : Table κ α) (k : κ) : k ∈ t.keys ↔ (t.get? k).isSome := by
  simp only [keys, get?]
  induction t.entries with
  | nil => simp
  | cons e r ih =>
    obtain ⟨key, value⟩ := e
    grind

theorem get?_ofList (l : List (κ × α)) (k : κ) :
    (ofList l).get? k = (l.reverse.find? fun e => e.1 = k).map Prod.snd := by
  suffices h : ∀ t : Table κ α, (l.foldl (fun t e => t.put e.1 e.2) t).get? k
      = ((l.reverse.find? fun e => e.1 = k).map Prod.snd).or (t.get? k) by
    simpa [ofList] using h ∅
  intro t
  induction l generalizing t with
  | nil => simp
  | cons e r ih =>
    simp only [List.foldl_cons, ih, List.reverse_cons, List.find?_append, get?_put]
    cases h : r.reverse.find? fun e => e.1 = k <;> by_cases hk : k = e.1 <;>
      simp [hk, eq_comm (a := e.1)]

end Table
end StreamClient
