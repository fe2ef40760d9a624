import StreamClient.Proofs.Pool.Shelf
import StreamClient.Sim.PoolBench

/-! Every run of steps against a pool is a run of the same steps against a shelf. -/

namespace StreamClient.Sim

/-- A shelf on its own, with the callers of a pool. -/
structure ShelfBench where
  shelf : Option Shelf
  now : Nat := 0
  seen : List Conn := []

namespace ShelfBench

def wait (b : ShelfBench) (millis : Nat) : ShelfBench × List Conn :=
  let now := Span.pauseEnd b.now millis
  match b.shelf with
  | none => ({ b with now }, [])
  | some q => ({ b with now, shelf := some (q.elapse now).1 }, (q.elapse now).2.map Prod.snd)

def sight (b : ShelfBench) (c : Conn) : ShelfBench :=
  if b.seen.contains c then b else { b with seen := c :: b.seen }

/-- A caller who finds the shelf empty calls the factory and has its outcome after its delay. -/
def act (b : ShelfBench) (q : Shelf) : PoolStep → PoolResult × List Conn × ShelfBench
  | .release c timed =>
    let (q, closes) := q.release b.now timed c
    (.nothing, closes, { b with shelf := some q }.sight c)
  | .acquire factory =>
    match q.take? with
    | some (c, q) => (.acquired c (!b.seen.contains c), [], { b with shelf := some q }.sight c)
    | none =>
      let c := b.seen.foldl max 0 + 1
      let (b, closes) := b.wait factory.delay
      match factory.fault with
      | some f => (.failed f, closes, b)
      | none => (.acquired c (!b.seen.contains c), closes, b.sight c)
  | .close => (.nothing, q.close.2, { b with shelf := some q.close.1 })
  | .drop => (.nothing, [], { b with shelf := none })
  | .sleep millis => (.nothing, (b.wait millis).2, (b.wait millis).1)
  | .describe =>
    (.text (Pool.text { address := q.address, capacity := q.capacity, keepAlive := q.keepAlive }),
      [], b)
  | .address => (.text q.address, [], b)

def step (b : ShelfBench) (s : PoolStep) : PoolReport × ShelfBench :=
  let (result, closes, b) :=
    match b.shelf, s with
    | some q, s => b.act q s
    | none, .sleep millis => (.nothing, (b.wait millis).2, (b.wait millis).1)
    | none, s => (.refused s.name, [], b)
  let (b, late) := b.wait 0
  ({ result
     idle := b.shelf.map fun q => q.entries.length
     closes := (closes ++ late).mergeSort
     time := b.now },
   b)

def run (b : ShelfBench) : List PoolStep → List PoolReport
  | [] => []
  | s :: r => (b.step s).1 :: (b.step s).2.run r

def after (b : ShelfBench) : List PoolStep → ShelfBench
  | [] => b
  | s :: r => (b.step s).2.after r

end ShelfBench

namespace PoolBench

def after (b : PoolBench) : List PoolStep → PoolBench
  | [] => b
  | s :: r => (b.step s).2.after r

/-- The pool of one bench behaves as the shelf of the other, if there still is one. -/
structure Shows (b : PoolBench) (q : ShelfBench) : Prop where
  now : q.now = b.now
  seen : q.seen = b.seen
  pool : Option.Rel (fun p s => p.Shows b.now s) b.pool q.shelf

theorem Shows.wait {b : PoolBench} {q : ShelfBench} (h : b.Shows q) (millis : Nat) :
    (b.wait millis).2 = (q.wait millis).2 ∧ (b.wait millis).1.Shows (q.wait millis).1 := by
  obtain ⟨p, now, seen⟩ := b
  obtain ⟨s, now', seen'⟩ := q
  obtain ⟨rfl, rfl, hpool⟩ := h
  cases hpool with
  | none => exact ⟨rfl, rfl, rfl, .none⟩
  | some hp =>
    have hle : now' ≤ Span.pauseEnd now' millis := Nat.le_add_right _ _
    obtain ⟨hcloses, hnext⟩ := hp.elapse hle
    exact ⟨congrArg _ hcloses, rfl, rfl, .some hnext⟩

theorem Shows.sight {b : PoolBench} {q : ShelfBench} (h : b.Shows q) (c : Conn) :
    (b.sight c).Shows (q.sight c) := by
  rw [PoolBench.sight, ShelfBench.sight, h.seen]
  split
  · exact h
  · exact ⟨h.now, rfl, h.pool⟩

theorem Shows.act {b : PoolBench} {q : ShelfBench} (h : b.Shows q) {p : Pool} {s : Shelf}
    (hp : p.Shows b.now s) (step : PoolStep) :
    (b.act p step).1 = (q.act s step).1 ∧ (b.act p step).2.1 = (q.act s step).2.1 ∧
      (b.act p step).2.2.Shows (q.act s step).2.2 := by
  have hput {p' : Pool} {s' : Shelf} (h' : p'.Shows b.now s') :
      { b with pool := some p' }.Shows { q with shelf := some s' } := ⟨h.now, h.seen, .some h'⟩
  cases step with
  | release c timed =>
    obtain ⟨hcloses, hnext⟩ := hp.release timed c
    simp only [PoolBench.act, ShelfBench.act, h.now] at hput ⊢
    exact ⟨trivial, hcloses, (hput hnext).sight c⟩
  | acquire factory =>
    have hwait := h.wait factory.delay
    rcases hp.take? with ⟨hpt, hst⟩ | ⟨c, p', s', hpt, hst, hnext⟩
    · cases hf : factory.fault with
      | some f =>
        simp only [PoolBench.act, ShelfBench.act, hpt, hst, hf]
        exact ⟨trivial, hwait⟩
      | none =>
        simp only [PoolBench.act, ShelfBench.act, hpt, hst, hf, h.seen, hwait.2.seen]
        exact ⟨trivial, hwait.1, hwait.2.sight _⟩
    · simp only [PoolBench.act, ShelfBench.act, hpt, hst, h.seen] at hput ⊢
      exact ⟨trivial, trivial, (hput hnext).sight c⟩
  | close =>
    obtain ⟨hcloses, hnext⟩ := hp.close
    simp only [PoolBench.act, ShelfBench.act]
    exact ⟨trivial, hcloses, hput hnext⟩
  | drop => exact ⟨rfl, rfl, h.now, h.seen, .none⟩
  | sleep millis =>
    simp only [PoolBench.act, ShelfBench.act]
    exact ⟨trivial, h.wait millis⟩
  | describe =>
    simp only [PoolBench.act, ShelfBench.act, ← hp.text]
    exact ⟨trivial, trivial, h⟩
  | address =>
    simp only [PoolBench.act, ShelfBench.act, hp.address]
    exact ⟨trivial, trivial, h⟩

theorem Shows.settle {b : PoolBench} {q : ShelfBench} (h : b.Shows q) :
    (b.wait 0).1.pool.map Pool.idleCount = (q.wait 0).1.shelf.map (fun s => s.entries.length) ∧
      (b.wait 0).2 = (q.wait 0).2 ∧ (b.wait 0).1.now = (q.wait 0).1.now ∧
      (b.wait 0).1.Shows (q.wait 0).1 := by
  obtain ⟨hcloses, hnext⟩ := h.wait 0
  refine ⟨?_, hcloses, hnext.now.symm, hnext⟩
  have hpool := hnext.pool
  generalize (b.wait 0).1.pool = pool at hpool ⊢
  generalize (q.wait 0).1.shelf = shelf at hpool ⊢
  cases hpool with
  | none => rfl
  | some hp => exact congrArg some hp.idleCount

theorem Shows.step {b : PoolBench} {q : ShelfBench} (h : b.Shows q) (s : PoolStep) :
    (b.step s).1 = (q.step s).1 ∧ (b.step s).2.Shows (q.step s).2 := by
  -- both are there, or both were dropped
  rcases hb : b.pool with _ | p <;> rcases hq : q.shelf with _ | q' <;>
    have hpool := h.pool <;> rw [hb, hq] at hpool <;> cases hpool
  · cases s with
    | sleep millis =>
      obtain ⟨hcloses, hnext⟩ := h.wait millis
      obtain ⟨hidle, hlate, hnow, hend⟩ := hnext.settle
      simp only [PoolBench.step, ShelfBench.step, hb, hq, hidle, hcloses, hlate, hnow]
      exact ⟨trivial, hend⟩
    | _ =>
      obtain ⟨hidle, hlate, hnow, hend⟩ := h.settle
      simp only [PoolBench.step, ShelfBench.step, hb, hq, hidle, hlate, hnow]
      exact ⟨trivial, hend⟩
  · rename_i hp
    obtain ⟨hresult, hcloses, hnext⟩ := h.act hp s
    obtain ⟨hidle, hlate, hnow, hend⟩ := hnext.settle
    simp only [PoolBench.step, ShelfBench.step, hb, hq, hresult, hidle, hcloses, hlate, hnow]
    exact ⟨trivial, hend⟩

theorem Shows.run {b : PoolBench} {q : ShelfBench} (h : b.Shows q) (steps : List PoolStep) :
    b.run steps = q.run steps ∧ (b.after steps).Shows (q.after steps) := by
  induction steps generalizing b q with
  | nil => exact ⟨rfl, h⟩
  | cons s rest ih =>
    obtain ⟨hreport, hnext⟩ := h.step s
    obtain ⟨hreports, hend⟩ := ih hnext
    exact ⟨congrArg₂ List.cons hreport hreports, hend⟩

/-- The pool is a queue with deadlines: its callers see the reports of a shelf, it holds what the
shelf holds in the same order, and however long the clock runs on from any state, the same
connections are closed at the same moments, each at its deadline. `keepAlive` is within the range of
the timer queue. -/
theorem runs_as_shelf (address : Address) (capacity : Nat) (keepAlive : Span)
    (steps : List PoolStep) :
    let b : PoolBench := { pool := some { address, capacity, keepAlive } }
    let q : ShelfBench := { shelf := some { address, capacity, keepAlive } }
    b.run steps = q.run steps ∧ (b.after steps).now = (q.after steps).now ∧
      Option.Rel
        (fun p s => p.conns = s.entries.map Prod.fst ∧
          ∀ millis, (p.elapse ((b.after steps).now + millis)).2 =
            (s.elapse ((b.after steps).now + millis)).2)
        (b.after steps).pool (q.after steps).shelf := by
  intro b q
  have hstart : b.Shows q := ⟨rfl, rfl, .some (Pool.shows_new address capacity keepAlive 0)⟩
  obtain ⟨hreports, hend⟩ := hstart.run steps
  refine ⟨hreports, hend.now.symm, ?_⟩
  have hpool := hend.pool
  generalize (b.after steps).pool = pool at hpool ⊢
  generalize (q.after steps).shelf = shelf at hpool ⊢
  cases hpool with
  | none => exact .none
  | some hp => exact .some ⟨hp.conns, fun millis => (hp.elapse (Nat.le_add_right _ _)).1⟩

end PoolBench
end StreamClient.Sim
