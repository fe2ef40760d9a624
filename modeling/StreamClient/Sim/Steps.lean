import StreamClient.Sim.Effects

/-! How the tasks of a plan start, go on and end. -/

namespace StreamClient.Sim.World

def handle (w : World) (t : TaskId) (label : String) (f : Handle → World) : World :=
  match w.handles.get? label with
  | some h => f h
  | none => w.complete t (.missing .label)

def push (w : World) (t : TaskId) (n : Nat) (items : List Item) : World :=
  match w.cluster.feeds.get? n with
  | none => w.complete t (.missing .feed)
  | some f =>
    if items.isEmpty then w.complete t (.flag true)
    else if f.isOpen then
      let w := { w with cluster := w.cluster.setFeed n { f with items := f.items ++ items } }
      let w := if f.asleep then w else w.enqueue (.session f.reader)
      w.complete t (.flag true)
    else w.complete t (.flag false)

def applyChange (w : World) (c : Change) : World :=
  let k := w.cluster
  { w with
    cluster :=
      { k with
        topology := c.topology.getD k.topology
        refuse := c.refuse.getD k.refuse
        down := c.down.getD k.down
        script := c.script.foldl (fun s e => s.put e.1 e.2) k.script } }

def beginStep (w : World) (t : TaskId) : Step → World
  | .call op => w.beginCall t op none
  | .subscribe label stream o limit =>
    w.beginCall t (.subscribe stream o) (some { label := some label, limit })
  | .unsubscribe label => w.handle t label fun h =>
    (w.complete t .nothing).urge [.event (.unsubscribe h.id)]
  | .waitTerminated label => w.handle t label fun h =>
    if w.client.isRunning h.id then w.setWork t (.watching h.id) else w.complete t .nothing
  | .status label => w.handle t label fun h =>
    w.complete t (.status h.stream h.partition (!w.client.isRunning h.id))
  | .push n items => w.push t n items
  | .metadata saveAs =>
    let s := w.client.snapshot
    let saved := saveAs.elim w.saved fun name => w.saved.put name s
    { w with saved }.complete t (.snapshot s)
  | .saved name =>
    match w.saved.get? name with
    | some s => w.complete t (.snapshot s)
    | none => w.complete t (.missing .name)
  | .sleep millis =>
    if millis = 0 then w.complete t .nothing
    else w.setWork t (.resting (Span.pauseEnd w.now millis))
  | .describe => w.complete t (.text w.client.text)
  | .change c => (w.applyChange c).complete t .nothing
  | .concurrent steps =>
    let (ts, w) := w.spawnAll steps
    (w.setWork t (.joining ts)).urge (ts.map .proceed ++ [.join t])
  | .sample stream options count =>
    w.sampleRound t { stream, options, count, left := count, before := w.logs }

def begin (w : World) (t : TaskId) : World :=
  match w.task? t with
  | none => w
  | some task =>
    let limit := task.giveUp.map (w.now + ·)
    let w := { w with tasks := w.tasks.put t { task with limit } }
    (w.urge [.giveUp t]).beginStep t task.step

/-- A turn of a call: it takes the answer that came, or the lock, or what its session told. -/
def callTurn (id : CallId) : List Chore := [.collect (.caller id), .event (.run (.caller id))]

/-- A turn of a task. Only when it cannot go on any more is it given up. -/
def proceed (w : World) (t : TaskId) : World :=
  match w.task? t with
  | none => w
  | some task =>
    let w' := w.urge [.giveUp t]
    match task.work with
    | .delayed due => if due ≤ w.now then w.urge [.begin t] else w
    | .calling id => w'.urge (callTurn id)
    | .resting due => if due ≤ w.now then w.complete t .nothing else w'
    | .watching id => if w.client.isRunning id then w' else w.complete t .nothing
    | .joining parts => w'.urge (parts.map .proceed ++ [.join t])
    | .sampling s =>
      if s.ending && !w.client.isRunning s.round then w'.sampleRound t s
      else w'.urge (callTurn s.round)
    | .finished _ => w

def abandoned (task : Task) : List Chore :=
  match task.work with
  | .calling id => [.event (.abandon id)]
  | .sampling s => [.event (.abandon s.round)]
  | .joining parts => parts.map .drop
  | _ => []

def giveUp (w : World) (t : TaskId) : World :=
  match w.task? t with
  | some task =>
    if !w.isFinished t && task.limit.any (· ≤ w.now) then
      (w.complete t .gaveUp).urge (abandoned task)
    else w
  | none => w

def drop (w : World) (t : TaskId) : World :=
  match w.task? t with
  | some task =>
    if w.isFinished t then w else (w.setWork t (.finished .gaveUp)).urge (abandoned task)
  | none => w

def join (w : World) (t : TaskId) : World :=
  match w.task? t with
  | some { work := .joining parts, .. } =>
    if parts.all w.isFinished then w.complete t (.all (parts.filterMap w.result?)) else w
  | _ => w

end StreamClient.Sim.World
