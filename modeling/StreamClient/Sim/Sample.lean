import StreamClient.Sim.Tasks

/-! Subscribing many times over, to see which brokers serve. -/

namespace StreamClient.Sim.World

/-- Whether each address served between half and one and a half times its share. -/
def isBalanced (served addresses : List Address) : Bool :=
  addresses.all fun a =>
    let share := 2 * addresses.length * served.count a
    decide (served.length ≤ share) && decide (share ≤ 3 * served.length)

def sampleRound (w : World) (t : TaskId) (s : Sampling) : World :=
  match s.left with
  | 0 =>
    let addresses := Snapshot.distinctAddresses s.served
    { w with logs := s.before }.complete t (.sampled addresses (isBalanced s.served addresses))
  | left + 1 =>
    let id := w.nextCall
    let s := { s with left, round := id, ending := false, server := none }
    ({ w with nextCall := id + 1 }.setWork t (.sampling s)).urge
      [.event (.start id (.subscribe s.stream s.options))]

def sampleAccepted (w : World) (t : TaskId) (s : Sampling) : World :=
  let s := { s with ending := true, served := s.server.toList ++ s.served }
  if w.client.isRunning s.round then
    (w.setWork t (.sampling s)).urge [.event (.unsubscribe s.round)]
  else w.sampleRound t s

def sampleServed (w : World) (id : CallId) (a : Address) : World :=
  match w.taskOf? id with
  | some (t, { work := .sampling s, .. }) => w.setWork t (.sampling { s with server := some a })
  | _ => w

end StreamClient.Sim.World
