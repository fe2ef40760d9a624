import StreamClient.Sim.World

/-!
The steps under way: each is a task, which may have parts. A task goes on only in the turn of the
callers, part after part.
-/

namespace StreamClient.Sim.World

open Client (Op)

def task? (w : World) (t : TaskId) : Option Task := w.tasks.get? t

def setWork (w : World) (t : TaskId) (work : Work) : World :=
  { w with tasks := w.tasks.modify t fun task => { task with work } }

def result? (w : World) (t : TaskId) : Option Result :=
  match w.task? t with
  | some { work := .finished r, .. } => some r
  | _ => none

def isFinished (w : World) (t : TaskId) : Bool := (w.result? t).isSome

def complete (w : World) (t : TaskId) (r : Result) : World := w.setWork t (.finished r)

def spawn (w : World) (step : Step) (timing : Timing) : TaskId × World :=
  let t := w.nextTask
  let work : Work := .delayed (Span.pauseEnd w.now timing.after)
  let task : Task := { step, giveUp := timing.giveUp, work }
  (t, { w with tasks := w.tasks.put t task, nextTask := t + 1 })

def spawnAll (w : World) : List (Step × Timing) → List TaskId × World
  | [] => ([], w)
  | (step, timing) :: r =>
    let (t, w) := w.spawn step timing
    let (ts, w) := w.spawnAll r
    (t :: ts, w)

def taskOf? (w : World) (id : CallId) : Option (TaskId × Task) :=
  w.tasks.entries.find? fun e =>
    match e.2.work with
    | .calling i => i = id
    | .sampling s => s.round = id
    | _ => false

def beginCall (w : World) (t : TaskId) (op : Op) (subscriber : Option Subscriber) : World :=
  let id := w.nextCall
  let w := { w with nextCall := id + 1 }
  let w :=
    match subscriber with
    | some s => { w with subscribers := w.subscribers.put id s }
    | none => w
  (w.setWork t (.calling id)).urge [.event (.start id op)]

end StreamClient.Sim.World
