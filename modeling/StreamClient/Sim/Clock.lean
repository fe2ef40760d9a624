import StreamClient.Sim.Steps

/-!
Turns of a world at one moment, and the clock, which stands still while anything can be done. The
callers of a plan take their turn together, one after another in the order of the plan, once no
worker is ready; when the clock has moved they come first.
-/

namespace StreamClient.Sim.World

open Client (Party)

def answer (w : World) (cue : Option Cue) : Ask → World
  | .dial id a =>
    let (r, cluster) := w.cluster.dial a cue
    { w with cluster }.occur (.dialed id r)
  | .call who conn q =>
    let (r, cluster) := w.cluster.call who conn q cue
    { w with cluster }.occur (.answered who r)

def takeItem (w : World) (id : CallId) (n : Nat) (f : Feed) : World :=
  let rest (items : List Item) : World :=
    { w with cluster := w.cluster.setFeed n { f with items } }
  match f.items with
  | [] => w
  | .message m :: r => (rest r).occur (.item id (.ok m))
  | .fault e :: r => (rest r).occur (.item id (.error e))
  | .wait millis :: r =>
    let w := { w with cluster := w.cluster.setFeed n { f with items := r, asleep := true } }
    if millis = 0 then w.urge [.arrival (.rouse id n)]
    else { w with pending := w.pending ++ [⟨Span.pauseEnd w.now millis, .rouse id n⟩] }
  | .finish :: _ => (w.dropFeed id).occur (.ended id)

/-- A session goes on with its stream, or ends if it was cancelled meanwhile. -/
def feed (w : World) (id : CallId) : World :=
  if (w.client.sessions.get? id).any Session.cancelled then w.occur (.run (.session id))
  else
    match w.cluster.feedOf? id with
    | some (n, f) => if f.asleep then w else w.takeItem id n f
    | none => w

def rouse (w : World) (reader : CallId) (n : Nat) : World :=
  match w.cluster.feeds.get? n with
  | some f =>
    { w with cluster := w.cluster.setFeed n { f with asleep := false } }.urge [.feed reader]
  | none => w

def arrive (w : World) : Arrival → World
  | .answer ask cue => w.answer cue ask
  | .rouse reader n => w.rouse reader n

def collect (w : World) (party : Party) : World :=
  let isDue (p : Pending) : Bool := decide (p.arrival.party = party) && decide (p.due ≤ w.now)
  { w with pending := w.pending.filter fun p => !isDue p }.urge
    ((w.pending.filter isDue).map fun (p : Pending) => .arrival p.arrival)

def chore (w : World) : Chore → World
  | .event e => w.occur e
  | .arrival a => w.arrive a
  | .collect party => w.collect party
  | .feed id => w.feed id
  | .begin t => w.begin t
  | .proceed t => w.proceed t
  | .giveUp t => w.giveUp t
  | .drop t => w.drop t
  | .join t => w.join t

/-- The next thing that can be done now, with `t` as the task of the callers: what is urgent, else
the turn of the worker that is ready longest, else the turn of the callers. -/
def next? (w : World) (t : TaskId) : Option World :=
  match w.agenda, w.ready with
  | c :: r, _ => some ({ w with agenda := r }.chore c)
  | [], k :: r => some ({ w with ready := r }.urge k.chores)
  | [], [] => if w.summoned then some ({ w with summoned := false }.urge [.proceed t]) else none

/-- When a timer is due next. What is due by now is with those who wait for it. -/
def due? (w : World) : Option Nat :=
  ((w.client.due?.toList ++ w.pending.map Pending.due ++ w.tasks.values.flatMap Task.dues).filter
    (w.now < ·)).min?

/-- Moves the clock on. The callers have their turn before the workers whose timers are due. -/
def advance (w : World) (t : TaskId) (time : Nat) : World :=
  let sessions := (w.pending.filter fun p => decide (p.due ≤ time)).filterMap fun p =>
    match p.arrival.party with
    | .session id => some (Worker.session id)
    | .caller _ => none
  let pools := if w.client.poolDue?.any (· ≤ time) then [Worker.pools] else []
  ((pools ++ sessions).foldl enqueue w).urge [.event (.tick time), .proceed t]

/-- Runs until a task has ended, moving the clock on when nothing else can be done. -/
def run (t : TaskId) : Nat → World → World
  | 0, w => w
  | fuel + 1, w =>
    if w.agenda.isEmpty && w.isFinished t then w
    else
      match w.next? t with
      | some w => run t fuel w
      | none =>
        match w.due? with
        | some time => run t fuel (w.advance t time)
        | none => w

def settle (t : TaskId) : Nat → World → World
  | 0, w => w
  | fuel + 1, w =>
    match w.next? t with
    | some w => settle t fuel w
    | none => w

end StreamClient.Sim.World
