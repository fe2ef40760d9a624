import StreamClient.Sim.Clock

/-! What the steps of a plan are answered with. -/

namespace StreamClient.Sim

structure Report where
  result : Result
  trace : List Note
  closes : List Conn
  dropped : List Nat
  deliveries : Table String (List Delivery)
  terminated : List String
  time : Nat

namespace Report

def dials (r : Report) : List Address :=
  r.trace.filterMap fun
    | .dial a => some a
    | _ => none

def callCount (r : Report) : Nat :=
  r.trace.countP fun
    | .call .. => true
    | _ => false

def dialed (r : Report) : List Address := r.dials.mergeSort fun a b => decide (a ≤ b)

/-- The distinct addresses dialed, if there were enough dials to show all that can be chosen. -/
def sampledDials (r : Report) : Option (List Address) :=
  if r.dials.length < 100 then none else some (Snapshot.distinctAddresses r.dials)

end Report

namespace World

def fuel : Nat := 1000000000

def takeReport (w : World) (result : Result) : Report × World :=
  ({ result
     trace := w.logs.trace.reverse
     closes := w.logs.closes.mergeSort
     dropped := w.logs.dropped.mergeSort
     deliveries := w.logs.deliveries.foldr
       (fun (label, d) t => t.put label ((t.get? label).getD [] ++ [d])) ∅
     terminated := (w.handles.entries.filterMap fun (label, h) =>
       if w.client.isRunning h.id then none else some label).mergeSort fun a b => decide (a ≤ b)
     time := w.now },
   { w with logs := {} })

/-- Carries a step out; unless it is `hasty`, everything settles before the report. -/
def perform (w : World) (step : Step) (timing : Timing) (hasty : Bool) : Report × World :=
  let (t, w) := w.spawn step timing
  let w := World.run t fuel (w.urge [.proceed t])
  let w := if hasty then w else World.settle t fuel w
  let result := (w.result? t).getD .nothing
  { w with tasks := ∅ }.takeReport result

structure Action where
  step : Step
  timing : Timing := {}
  hasty : Bool := false

def performAll (w : World) : List Action → List Report
  | [] => []
  | a :: r =>
    let (report, w) := w.perform a.step a.timing a.hasty
    report :: w.performAll r

end World

def play (settings : Settings) (cluster : Cluster) (plan : List World.Action) : List Report :=
  let (built, w) := (World.create settings cluster 0).perform (.call .connect) {} false
  match built.result with
  | .call (.error _) => [built]
  | _ => built :: w.performAll plan

/-- The addresses that are dialed first when a client is built `count` times, or why a build failed. -/
def firstDials (settings : Settings) (cluster : Cluster) : (count draws : Nat) →
    Except CallError (List Address)
  | 0, _ => .ok []
  | n + 1, draws =>
    let (built, w) := (World.create settings cluster draws).perform (.call .connect) {} false
    match built.result with
    | .call (.error e) => .error e
    | _ => (firstDials settings cluster n w.draws).map fun l =>
      Snapshot.distinctAddresses (built.dials.take 1 ++ l)

end StreamClient.Sim
