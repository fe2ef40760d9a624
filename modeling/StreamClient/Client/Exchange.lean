import StreamClient.Client.Subscribing

/-! Calls on the shared connection, and what follows from their answers. -/

namespace StreamClient.Client

def ofOrder : Link.Order Request → Effect
  | .dial id address => .dial id address
  | .call id conn request => .call (.caller id) conn request
  | .withdraw id => .withdraw (.caller id)
  | .close conn => .close conn
  | .wake id => .wake (.caller id)

/-- When the answer to a call that the link makes now is no longer waited for. -/
def answerDue (now : Nat) (orders : List (Link.Order Request)) : Option Nat :=
  orders.findSome? fun
    | .call _ _ request => request.deadline.map fun d => now + d.ceilMillis
    | _ => none

def asked (c : Client) (id : CallId) : Option Request :=
  match c.link.jobs.get? id with
  | some (.calling e _) => some e.request
  | _ => none

/-- Carries out a turn of the link for a call that had `due`; `next` says what follows if the call
is over. -/
def follow (c : Client) (id : CallId) (goal : Goal) (due : Option Nat) (t : Link.Turn Request Reply)
    (next : Client → Except Fault Reply → Move) : Move :=
  let effects := t.orders.map ofOrder
  let c := { c with link := t.link }
  match t.ending with
  | none =>
    let due := (answerDue c.now t.orders).or (if (c.asked id).isSome then due else none)
    (c.put id (.linking goal due), effects)
  | some (.reply r) => (next c r).after effects
  | some .shut => (c.finish id (.ok .done)).after effects

def created (c : Client) (id : CallId) : Except Fault Reply → Move
  | .ok reply => (c.install reply.topology).finish id (.ok .done)
  | .error _ => c.finish id (.ok .done)

def settle (draw : Nat) (c : Client) (id : CallId) (goal : Goal) (r : Except Fault Reply) : Move :=
  match goal, r with
  | .connect, .ok reply | .fetch, .ok reply =>
    let c := c.install reply.topology
    c.finish id (.ok (.refreshed c.snapshot))
  | .connect, .error f | .fetch, .error f | .resolve .., .error f => c.finish id (.error (.rpc f))
  | .create _, .ok _ =>
    c.follow id .created none (c.link.submit (c.pick draw) id .fetchMetadata)
      fun c r => c.created id r
  | .create name, .error f => c.finish id (.error (.ofCreate name f))
  | .created, r => c.created id r
  | .delete _, .ok _ => c.finish id (.ok .done)
  | .delete name, .error f => c.finish id (.error (.ofDelete name f))
  | .publish, .ok reply => c.finish id (.ok (.acked reply.ack))
  | .publish, .error f => c.finish id (.error (.ofPublish f))
  | .resolve s left, .ok reply => (c.install reply.topology).lookup draw id s left

def engage (draw : Nat) (c : Client) (id : CallId) (goal : Goal) (due : Option Nat)
    (t : Link.Turn Request Reply) : Move :=
  c.follow id goal due t fun c r => c.settle draw id goal r

def submit (draw : Nat) (c : Client) (id : CallId) (goal : Goal) (q : Request) : Move :=
  c.engage draw id goal none (c.link.submit (c.pick draw) id q)

def closeLink (c : Client) (id : CallId) (t : Link.Turn Request Reply) : Move :=
  let effects := t.orders.map ofOrder
  let c := { c with link := t.link }
  match t.ending with
  | none => (c.put id .closing, effects)
  | some _ => (c.finish id (.ok .done)).after effects

end StreamClient.Client
