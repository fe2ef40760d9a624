import StreamClient.Client.Move

/-! How the sessions of a client start, go on and end. -/

namespace StreamClient.Client

def noHandshake (timeout : Span) : Fault :=
  ⟨.deadlineExceeded, "no handshake within " ++ timeout.text⟩

def endedUnheard : Fault := ⟨.cancelled, "subscription ended before the handshake"⟩

def launch (c : Client) (id : CallId) (s : Subscription) (address : Address) (conn : Conn) : Move :=
  let due := c.settings.handshakeTimeout.map fun d => c.now + d.ceilMillis
  let session : Session := { subscription := s, conn, pool := address }
  ({ c with sessions := c.sessions.put id session }.put id (.greeting s none due),
   [.wake (.session id)])

def greeted (c : Client) (id : CallId) (s : Subscription) (verdict : Except Fault Unit) : Move :=
  c.finish id (match verdict with
    | .ok _ => .ok .done
    | .error f => .error (.ofHandshake s.stream s.partition f))

def greet (c : Client) (id : CallId) (verdict : Except Fault Unit) : Move :=
  match c.calls.get? id with
  | some (.greeting s none due) =>
    (c.put id (.greeting s (some verdict) due), [.wake (.caller id)])
  | _ => c.stay

def act (c : Client) (id : CallId) (conn : Conn) : Session.Action → Move
  | .ask s => (c, [.call (.session id) conn (.subscribe s)])
  | .withdraw => (c, [.withdraw (.session id)])
  | .dropStream => (c, [.dropStream id])
  | .greet r => c.greet id r
  | .deliver m => (c, [.deliver id m])

def actAll (c : Client) (id : CallId) (conn : Conn) : List Session.Action → Move
  | [] => c.stay
  | a :: r =>
    let (c, effects) := c.act id conn a
    (c.actAll id conn r).after effects

def giveBack (c : Client) (address : Address) (conn : Conn) : Move :=
  match c.pools.get? address with
  | some p =>
    let (p, closes) := p.release c.now true conn
    ({ c with pools := c.pools.put address p }, closes.map .close)
  | none => (c, [.close conn])

/-- Ends a session: the connection goes back, then the subscriber is told, and then it counts as
terminated. -/
def terminate (c : Client) (id : CallId) (s : Session) (report : Option CallError) : Move :=
  let (c, closes) := { c with sessions := c.sessions.erase id }.giveBack s.pool s.conn
  let (c, told) := c.greet id (.error endedUnheard)
  (c, closes ++ report.toList.map (.report id) ++ [.terminated id] ++ told)

def stimulate (c : Client) (id : CallId) (e : Session.Stimulus) : Move :=
  match c.sessions.get? id with
  | none => c.stay
  | some s =>
    match s.turn (c.isHeard id) e with
    | .goOn s actions =>
      { c with sessions := c.sessions.put id s }.actAll id s.conn actions
    | .over actions report =>
      let (c, effects) := c.actAll id s.conn actions
      (c.terminate id s report).after effects

def unsubscribe (c : Client) (id : CallId) : Move :=
  match c.sessions.get? id with
  | some s =>
    if s.cancelled then c.stay
    else
      ({ c with sessions := c.sessions.put id { s with cancelled := true } }, [.wake (.session id)])
  | none => c.stay

end StreamClient.Client
