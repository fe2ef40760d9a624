import StreamClient.Sim.Sample

/-! What the client asks for, carried out by the brokers and the callers. -/

namespace StreamClient.Sim.World

open Client (Consultation Outcome Party)

def hand (w : World) (ask : Ask) (slot : Slot) : World × List Chore :=
  let (cue, cluster) := w.cluster.cue slot
  let w := { w with cluster }
  let delay := (cue.map Cue.delay).getD 0
  if cue.any Cue.hang then (w, [])
  else if delay = 0 then (w, [.arrival (.answer ask cue)])
  else ({ w with pending := w.pending ++ [⟨Span.pauseEnd w.now delay, .answer ask cue⟩] }, [])

def withdraw (w : World) (party : Party) : World :=
  { w with pending := w.pending.filter fun p => p.arrival.party ≠ party }

def dropFeed (w : World) (id : CallId) : World :=
  match w.cluster.feedOf? id with
  | some (n, f) =>
    { w.withdraw (.session id) with
      cluster := w.cluster.setFeed n { f with isOpen := false, items := [] }
      logs := { w.logs with dropped := n :: w.logs.dropped } }
  | none => w

def consult (w : World) (id : CallId) (q : Consultation) : World × List Chore :=
  let (partition, counters) := q.partitioner.pick w.counters q.stream q.key q.snapshot
  let w := { w with counters }
  let w :=
    match q.partitioner with
    | .custom _ => w.note (.consulted q)
    | _ => w
  (w, [.event (.chosen id partition)])

def logDelivery (w : World) (s : Subscriber) (d : Delivery) : World :=
  match s.label with
  | some label =>
    { w with logs := { w.logs with deliveries := (label, d) :: w.logs.deliveries } }
  | none => w

/-- A message for a subscriber, which may cancel its subscription at once. -/
def deliver (w : World) (id : CallId) (m : Message) : World × List Chore :=
  match w.subscribers.get? id with
  | none => (w, [])
  | some s =>
    let s := { s with received := s.received + 1 }
    let w := { w with subscribers := w.subscribers.put id s }.logDelivery s (.message m)
    (w, if s.bound && s.limit.any (· ≤ s.received) then [.event (.unsubscribe id)] else [])

def report (w : World) (id : CallId) (e : CallError) : World :=
  match w.subscribers.get? id with
  | none => w
  | some s => w.logDelivery s (.error e)

def bind (w : World) (id : CallId) (label stream : String) (partition : Int32) : World :=
  { w with
    handles := w.handles.put label ⟨id, stream, partition⟩
    subscribers := w.subscribers.modify id fun s => { s with bound := true } }

def callEnded (w : World) (id : CallId) (r : Except CallError Outcome) : World :=
  match w.taskOf? id with
  | none => w
  | some (t, task) =>
    match task.work, task.step, r with
    | .sampling s, _, .ok _ => w.sampleAccepted t s
    | _, .subscribe label stream o _, .ok _ =>
      (w.bind id label stream o.partition).complete t (.call r)
    | _, .call .close, _ => w.complete t .nothing
    | _, _, _ => w.complete t (.call r)

def effect (w : World) : Client.Effect → World × List Chore
  | .dial id a => (w.note (.dial a)).hand (.dial id a) .dial
  | .call who conn q =>
    let a := w.cluster.address conn
    let w := w.note (.call conn a q)
    let w :=
      match who with
      | .session id => w.sampleServed id a
      | .caller _ => w
    w.hand (.call who conn q) (.call q.method)
  | .withdraw who => (w.withdraw who, [])
  | .close conn => ({ w with logs := { w.logs with closes := conn :: w.logs.closes } }, [])
  | .dropStream id => (w.dropFeed id, [])
  | .consult id q => w.consult id q
  | .wake (.caller _) | .terminated _ => ({ w with summoned := true }, [])
  | .wake (.session id) => (w.enqueue (.session id), [])
  | .deliver id m => w.deliver id m
  | .report id e => (w.report id e, [])
  | .finish id r => (w.callEnded id r, [])

def effects (w : World) : List Client.Effect → World × List Chore
  | [] => (w, [])
  | e :: r =>
    let (w, chores) := w.effect e
    let (w, more) := w.effects r
    (w, chores ++ more)

def sequel (w : World) : Client.Event → List Chore
  | .run (.session id) | .item id _ | .answered (.session id) _ => [.feed id]
  | .start id _ | .dialed id _ | .answered (.caller id) _ | .chosen id _ | .run (.caller id)
  | .lapse id => if w.client.lapsing.contains id then [.event (.lapse id)] else []
  | _ => []

def occur (w : World) (e : Client.Event) : World :=
  let (client, effects) := w.client.step (random w.draws) e
  let w := { w with client, draws := w.draws + 1 }
  let (w, chores) := w.effects effects
  w.urge (chores ++ w.sequel e)

end StreamClient.Sim.World
