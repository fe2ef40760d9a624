import StreamClient.Quoted
import StreamClient.Span
import StreamClient.Topology

/-! What a client is built with. -/

namespace StreamClient

structure Settings where
  bootstrap : List Address
  /-- Idle connections kept for one broker; 0 is no limit. -/
  maxIdle : Nat := 2
  /-- How long an idle connection is kept, within the range of the timer queue; zero is for ever. -/
  keepAlive : Span := .ofSeconds 30
  /-- Attempts of a call before an unreachable broker is reported; 0 counts as 1. -/
  attempts : Nat := 10
  /-- Lookups of an unknown partition before it is given up; 0 counts as 1. -/
  lookups : Nat := 5
  /-- Wait between two lookups. -/
  lookupDelay : Span := .ofMillis 50
  handshakeTimeout : Option Span := none
  deriving DecidableEq, Repr

namespace Settings

def text (s : Settings) : String :=
  "ClientBuilder \x7b bootstrap_brokers: " ++ Quoted.list s.bootstrap ++ ", .. \x7d"

end Settings
end StreamClient
