import StreamClient.CallError
import StreamClient.Pool
import StreamClient.Request

/-!
A running subscription. It owns a connection, waits for the broker to accept it and then hands over
one message after another. A cancelled session ends at its next turn, whatever that turn would have
brought.
-/

namespace StreamClient

namespace Session

inductive Phase where
  | fresh
  | opening
  /-- The stream is open; its first item tells whether the broker accepted. -/
  | greeting
  | streaming
  deriving DecidableEq, Repr

end Session

structure Session where
  subscription : Subscription
  conn : Conn
  pool : Address
  phase : Session.Phase := .fresh
  cancelled : Bool := false
  deriving DecidableEq, Repr

namespace Session

inductive Stimulus where
  /-- First turn, or a turn after a cancellation. -/
  | wake
  | replied (r : Except Fault Unit)
  | item (i : Except Fault Message)
  | ended

inductive Action where
  | ask (s : Subscription)
  | withdraw
  | dropStream
  /-- Whether the broker accepted, for the caller that waits for it. -/
  | greet (r : Except Fault Unit)
  | deliver (m : Message)

inductive Turn where
  | goOn (s : Session) (actions : List Action)
  /-- The session is over; the subscriber is told why once the connection was given back. -/
  | over (actions : List Action) (report : Option CallError)

def endedEarly : Fault := .unavailable "subscribe stream ended before the handshake"

def leftovers (s : Session) : List Action :=
  match s.phase with
  | .fresh => []
  | .opening => [.withdraw]
  | .greeting | .streaming => [.dropStream]

def failure (s : Session) (f : Fault) : Option CallError :=
  CallError.ofDelivery s.subscription.stream s.subscription.partition f

/-- One turn; `heard` says whether a caller still waits for the handshake. -/
def turn (heard : Bool) (s : Session) (e : Stimulus) : Turn :=
  if s.cancelled then .over s.leftovers none
  else
    match s.phase, e with
    | .fresh, .wake => .goOn { s with phase := .opening } [.ask s.subscription]
    | .opening, .replied (.ok _) => .goOn { s with phase := .greeting } []
    | .opening, .replied (.error f) => .over [.greet (.error f)] none
    | .greeting, .item (.ok _) =>
      if heard then .goOn { s with phase := .streaming } [.greet (.ok ())]
      else .over [.dropStream] none
    | .greeting, .item (.error f) => .over [.greet (.error f), .dropStream] none
    | .greeting, .ended => .over [.greet (.error endedEarly), .dropStream] none
    | .streaming, .item (.ok m) => .goOn s [.deliver m]
    | .streaming, .item (.error f) => .over [.dropStream] (s.failure f)
    | .streaming, .ended => .over [.dropStream] none
    | _, _ => .goOn s []

end Session
end StreamClient
