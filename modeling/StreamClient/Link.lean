import StreamClient.Fault
import StreamClient.Lock
import StreamClient.Pool
import StreamClient.Table

/-!
The shared connection that calls run on. A call uses the cached connection, or dials one under the
lock. If the broker cannot be reached the connection is retired and the call tries again, a limited
number of times.
-/

namespace StreamClient

abbrev CallId := Nat

namespace Link

variable {Q A : Type}

structure Errand (Q : Type) where
  request : Q
  /-- Attempts that are left, with the present one while it waits for the lock. -/
  left : Nat
  last : Option Fault := none
  deriving DecidableEq, Repr

inductive Job (Q : Type) where
  /-- In the queue for the lock, to get a connection. -/
  | seeking (e : Errand Q)
  | dialing (e : Errand Q)
  | calling (e : Errand Q) (conn : Conn)
  /-- In the queue for the lock, to retire a connection that failed. -/
  | retiring (e : Errand Q) (conn : Conn)
  | shutting
  deriving DecidableEq, Repr

inductive Order (Q : Type) where
  | dial (id : CallId) (address : Address)
  | call (id : CallId) (conn : Conn) (request : Q)
  | withdraw (id : CallId)
  | close (conn : Conn)
  /-- The lock passed to `id`, which is to be resumed. -/
  | wake (id : CallId)
  deriving DecidableEq, Repr

inductive Ending (A : Type) where
  | reply (r : Except Fault A)
  | shut

end Link

structure Link (Q : Type) where
  attempts : Nat
  cached : Option Conn := none
  lock : Lock := {}
  jobs : Table CallId (Link.Job Q) := ∅
  deriving DecidableEq, Repr

namespace Link

variable {Q A : Type}

/-- The link after one event, what it asks for, and how the call that the event was for ended, if it
did. -/
structure Turn (Q A : Type) where
  link : Link Q
  orders : List (Order Q) := []
  ending : Option (Ending A) := none

def Turn.after (t : Turn Q A) (orders : List (Order Q)) : Turn Q A :=
  { t with orders := orders ++ t.orders }

/-- At least one attempt is always made. -/
def start (attempts : Nat) : Link Q := { attempts := max attempts 1 }

def noAddress : Fault := .unavailable "no broker address known"

def noAttempt : Fault := .unavailable "no attempt was made"

def put (l : Link Q) (id : CallId) (j : Job Q) : Link Q := { l with jobs := l.jobs.put id j }

def forget (l : Link Q) (id : CallId) : Link Q := { l with jobs := l.jobs.erase id }

def unlock (l : Link Q) : Link Q := { l with lock := l.lock.release }

def handover (l : Link Q) : List (Order Q) := l.lock.release.owner.toList.map .wake

def finish (l : Link Q) (id : CallId) (r : Except Fault A) : Turn Q A :=
  { link := l.forget id, ending := some (.reply r) }

/-- Begins the next attempt of a call, if one is left; `pick` is the address to dial if nothing is
cached. -/
def pursue (pick : Option Address) (id : CallId) (q : Q) (l : Link Q) (last : Option Fault) :
    Nat → Turn Q A
  | 0 => l.finish id (.error (last.getD noAttempt))
  | n + 1 =>
    let (lock, granted) := l.lock.request id
    let l := { l with lock }
    if granted then
      match l.cached, pick with
      | some c, _ =>
        { link := l.unlock.put id (.calling ⟨q, n, last⟩ c)
          orders := l.handover ++ [.call id c q] }
      | none, some a => { link := l.put id (.dialing ⟨q, n, last⟩), orders := [.dial id a] }
      | none, none => (pursue pick id q l.unlock (some noAddress) n).after l.handover
    else { link := l.put id (.seeking ⟨q, n + 1, last⟩) }

def proceed (pick : Option Address) (l : Link Q) (id : CallId) (e : Errand Q) : Turn Q A :=
  l.pursue pick id e.request e.last e.left

/-- Closes a connection that failed if it is still the cached one, and goes on. A lock that is free
is taken without suspending, so the next attempt is part of the same turn: it waits only if somebody
was in the queue, to whom the lock passed. -/
def retire (pick : Option Address) (l : Link Q) (id : CallId) (e : Errand Q) (c : Conn) : Turn Q A :=
  let (lock, granted) := l.lock.request id
  let l := { l with lock }
  if granted then
    if l.cached = some c then
      ({ l.unlock with cached := none }.proceed pick id e).after (l.handover ++ [Order.close c])
    else (l.unlock.proceed pick id e).after l.handover
  else { link := l.put id (.retiring e c) }

def submit (pick : Option Address) (l : Link Q) (id : CallId) (q : Q) : Turn Q A :=
  l.proceed pick id { request := q, left := l.attempts }

def shut (l : Link Q) (id : CallId) : Turn Q A :=
  let (lock, granted) := l.lock.request id
  let l := { l with lock }
  if granted then
    { link := { l.unlock with cached := none }.forget id
      orders := l.handover ++ l.cached.toList.map .close
      ending := some .shut }
  else { link := l.put id .shutting }

def resume (pick : Option Address) (l : Link Q) (id : CallId) : Turn Q A :=
  if l.lock.owner = some id then
    match l.jobs.get? id with
    | some (.seeking e) => l.proceed pick id e
    | some (.retiring e c) => l.retire pick id e c
    | some .shutting => l.shut id
    | _ => { link := l }
  else { link := l }

def dialed (pick : Option Address) (l : Link Q) (id : CallId) (r : Except Fault Conn) : Turn Q A :=
  match l.jobs.get? id with
  | some (.dialing e) =>
    match r with
    | .ok c =>
      { link := { l.unlock with cached := some c }.put id (.calling e c)
        orders := l.handover ++ [.call id c e.request] }
    | .error f =>
      if f.isUnavailable then (l.unlock.proceed pick id { e with last := some f }).after l.handover
      else (l.unlock.finish id (.error f)).after l.handover
  | _ => { link := l }

def answered (pick : Option Address) (l : Link Q) (id : CallId) (r : Except Fault A) : Turn Q A :=
  match l.jobs.get? id with
  | some (.calling e c) =>
    match r with
    | .ok a => l.finish id (.ok a)
    | .error f =>
      if f.isUnavailable then l.retire pick id { e with last := some f } c
      else l.finish id (.error f)
  | _ => { link := l }

/-- Drops `id` wherever it is. A connection is neither closed nor forgotten by this. -/
def abandon (l : Link Q) (id : CallId) : Turn Q A :=
  match l.jobs.get? id with
  | none => { link := l }
  | some (.calling ..) => { link := l.forget id, orders := [.withdraw id] }
  | some (.dialing _) =>
    { link := l.unlock.forget id, orders := .withdraw id :: l.handover }
  | some _ =>
    { link := { l with lock := l.lock.withdraw id }.forget id
      orders := if l.lock.owner = some id then l.handover else [] }

end Link
end StreamClient
