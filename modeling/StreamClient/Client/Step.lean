import StreamClient.Client.Exchange

/-!
One event of a client. A step makes at most one random choice, for which it is given a drawn
number.
-/

namespace StreamClient.Client

def noBootstrap : Fault := .unavailable "no bootstrap broker reachable"

/-- Dials the next bootstrap address; `last` is why the one before failed. -/
def probe (c : Client) (id : CallId) (last : Option Fault) : List Address → Move
  | [] => c.finish id (.error (.rpc (last.getD noBootstrap)))
  | a :: rest => (c.put id (.probing rest), [.dial id a])

def connect (draw : Nat) (c : Client) (id : CallId) : Move :=
  if c.settings.bootstrap.isEmpty then c.finish id (.error .noBrokers)
  else c.probe id none (shuffle draw c.settings.bootstrap)

def closePools (c : Client) : Move :=
  ({ c with pools := c.pools.map fun _ p => p.close.1 },
   c.pools.values.flatMap fun p => p.close.2.map .close)

/-- Closes the idle connections and the cached one. Running sessions go on. -/
def close (c : Client) (id : CallId) : Move :=
  if c.closed then c.finish id (.ok .done)
  else
    let (c, closes) := { c with closed := true }.closePools
    (c.closeLink id (c.link.shut id)).after closes

def openCall (draw : Nat) (c : Client) (id : CallId) : Op → Move
  | .connect => c.connect draw id
  | .createStream name o =>
    match o.creation name with
    | .error e => c.finish id (.error e)
    | .ok creation => c.submit draw id (.create name) (.createStream creation)
  | .deleteStream name => c.submit draw id (.delete name) (.deleteStream name)
  | .publish stream value o =>
    match o.partition with
    | some p => c.submit draw id .publish (.publish stream p (o.payload value) o.deadline)
    | none =>
      (c.put id (.choosing ⟨stream, o.payload value, o.deadline⟩),
       [.consult id ⟨o.partitioner, stream, o.key, value, o.ackPolicy, c.snapshot⟩])
  | .publishToSubject subject value o =>
    c.submit draw id .publish (.publishToSubject subject (o.payload value) o.deadline)
  | .subscribe stream o => c.lookup draw id (o.subscription stream) (c.settings.lookups - 1)
  | .fetchMetadata => c.submit draw id .fetch .fetchMetadata
  | .close => c.close id

/-- On a closed client every call fails, except for another close. -/
def start (draw : Nat) (c : Client) (id : CallId) (op : Op) : Move :=
  if c.closed && op != .close then c.finish id (.error .closed) else c.openCall draw id op

def dialed (draw : Nat) (c : Client) (id : CallId) (r : Except Fault Conn) : Move :=
  match c.calls.get? id, r with
  | some (.probing _), .ok conn =>
    { c with link := { c.link with cached := some conn } }.submit draw id .connect .fetchMetadata
  | some (.probing rest), .error f => c.probe id (some f) rest
  | some (.linking goal due), r => c.engage draw id goal due (c.link.dialed (c.pick draw) id r)
  | some (.joining s address), .ok conn => c.launch id s address conn
  | some (.joining _ _), .error f => c.finish id (.error (.rpc f))
  | _, _ => c.stay

def answered (draw : Nat) (c : Client) (r : Except Fault Reply) : Party → Move
  | .caller id =>
    match c.calls.get? id with
    | some (.linking goal due) => c.engage draw id goal due (c.link.answered (c.pick draw) id r)
    | _ => c.stay
  | .session id => c.stimulate id (.replied (r.map fun _ => ()))

def chosen (draw : Nat) (c : Client) (id : CallId) (partition : Int32) : Move :=
  match c.calls.get? id with
  | some (.choosing d) =>
    c.submit draw id .publish (.publish d.stream partition d.payload d.deadline)
  | _ => c.stay

def run (draw : Nat) (c : Client) : Party → Move
  | .caller id =>
    match c.calls.get? id with
    | some (.linking goal due) => c.engage draw id goal due (c.link.resume (c.pick draw) id)
    | some .closing => c.closeLink id (c.link.resume (c.pick draw) id)
    | some (.greeting s (some verdict) _) => c.greeted id s verdict
    | _ => c.stay
  | .session id => c.stimulate id .wake

def noAck (d : Span) : Fault := ⟨.deadlineExceeded, "no ack within " ++ d.text⟩

def lapse (draw : Nat) (c : Client) (id : CallId) : Move :=
  match c.calls.get? id with
  | some (.linking goal (some due)) =>
    match (c.asked id).bind Request.deadline with
    | some d =>
      if due ≤ c.now then
        (c.engage draw id goal none (c.link.answered (c.pick draw) id (.error (noAck d)))).after
          [.withdraw (.caller id)]
      else c.stay
    | none => c.stay
  | some (.pausing s left due) =>
    if due ≤ c.now then c.submit draw id (.resolve s left) .fetchMetadata else c.stay
  | some (.greeting s (some verdict) _) => c.greeted id s verdict
  | some (.greeting s none (some due)) =>
    match c.settings.handshakeTimeout with
    | some d =>
      if due ≤ c.now then
        let (c, effects) := c.unsubscribe id
        (c.greeted id s (.error (noHandshake d))).after effects
      else c.stay
    | none => c.stay
  | _ => c.stay

def abandon (c : Client) (id : CallId) : Move :=
  let gone : Client := { c with calls := c.calls.erase id }
  match c.calls.get? id with
  | some (.probing _) | some (.joining ..) => (gone, [.withdraw (.caller id)])
  | some (.linking ..) | some .closing =>
    let t : Link.Turn Request Reply := c.link.abandon id
    ({ gone with link := t.link }, t.orders.map ofOrder)
  | _ => (gone, [])

/-- The clock never runs back. -/
def tick (c : Client) (now : Nat) : Move := ({ c with now := max c.now now }, [])

def expire (c : Client) : Move :=
  ({ c with pools := c.pools.map fun _ p => (p.expire c.now).1 },
   c.pools.values.flatMap fun p => (p.expire c.now).2.map .close)

def step (draw : Nat) (c : Client) : Event → Move
  | .start id op => c.start draw id op
  | .dialed id r => c.dialed draw id r
  | .answered who r => c.answered draw r who
  | .chosen id partition => c.chosen draw id partition
  | .run who => c.run draw who
  | .item id i => c.stimulate id (.item i)
  | .ended id => c.stimulate id .ended
  | .unsubscribe id => c.unsubscribe id
  | .abandon id => c.abandon id
  | .lapse id => c.lapse draw id
  | .tick now => c.tick now
  | .expire => c.expire

end StreamClient.Client
