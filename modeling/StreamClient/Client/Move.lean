import StreamClient.Client.Basic
import StreamClient.Draw

/-! A move of a client: its next state and what it asks for. -/

namespace StreamClient.Client

abbrev Move := Client × List Effect

def Move.after (m : Move) (effects : List Effect) : Move := (m.1, effects ++ m.2)

def stay (c : Client) : Move := (c, [])

def put (c : Client) (id : CallId) (stage : Stage) : Client :=
  { c with calls := c.calls.put id stage }

def finish (c : Client) (id : CallId) (result : Except CallError Outcome) : Move :=
  ({ c with calls := c.calls.erase id }, [.finish id result])

def pick (c : Client) (draw : Nat) : Option Address := choose draw c.snapshot.addresses

def install (c : Client) (t : Topology) : Client :=
  { c with snapshot := .ofTopology c.settings.bootstrap t }

end StreamClient.Client
