import DefiniteIntegral.Server.Hub

/-! What is done about a request that has a result, step by step: the client is answered, an update
comes to the registrations one after another, and then those that could not take it end, one after
another. The registrations stay what they are while an update comes to them, and are open to others
before and after. Between any two steps other tasks can do theirs, and messages can be read;
`Server.handleText` does all the steps of a task at once. -/

namespace DefiniteIntegral

/-- How far the task of a request has come. -/
inductive Task (μ : Type)
  /-- The client is to be answered. -/
  | answer (reply : QueueId) (message update : μ)
  | announce (update : μ)
  /-- An update comes to the registrations ahead. Some could not take it, and others could. -/
  | visit (update : μ) (ahead : List (ConnectionId × QueueId)) (failed : List ConnectionId)
    (count : Nat)
  /-- The registrations that could not take the update are to end. -/
  | remove (failed : List ConnectionId) (count : Nat)
deriving Repr

namespace Task

variable {μ : Type}

/-- Whether a task keeps others from making and ending registrations. -/
def Holds : Task μ → Prop
  | visit .. => True
  | _ => False

/-- The registrations that an update is still to come to. -/
def ahead : Task μ → List (ConnectionId × QueueId)
  | visit _ ahead _ _ => ahead
  | _ => []

/-- Whether nothing is left of a task. -/
def IsDone : Task μ → Prop
  | remove [] _ => True
  | _ => False

/-- One step of a task: the hub and the task before it, and after it. No registration ends while
they are held by some task. In which order an update comes to them is open. -/
inductive Step (held : Prop) : Hub μ → Task μ → Hub μ → Task μ → Prop
  | answer (hub : Hub μ) (reply : QueueId) (message update : μ) :
    Step held hub (.answer reply message update) (hub.send reply message) (.announce update)
  | start (hub : Hub μ) (update : μ) {order : List (ConnectionId × QueueId)}
      (horder : order.Perm hub.connections) :
    Step held hub (.announce update) hub (.visit update order [] 0)
  | serve {hub : Hub μ} {update : μ} {entry : ConnectionId × QueueId} {queue : Queue μ}
      (hpush : (hub.queues entry.2).push? update = some queue)
      (ahead : List (ConnectionId × QueueId)) (failed : List ConnectionId) (count : Nat) :
    Step held hub (.visit update (entry :: ahead) failed count)
      { hub with queues := hub.queues.put entry.2 queue } (.visit update ahead failed (count + 1))
  | miss {hub : Hub μ} {update : μ} {entry : ConnectionId × QueueId}
      (hpush : (hub.queues entry.2).push? update = none)
      (ahead : List (ConnectionId × QueueId)) (failed : List ConnectionId) (count : Nat) :
    Step held hub (.visit update (entry :: ahead) failed count) hub
      (.visit update ahead (failed ++ [entry.1]) count)
  | finish (hub : Hub μ) (update : μ) (failed : List ConnectionId) (count : Nat) :
    Step held hub (.visit update [] failed count) hub (.remove failed count)
  | remove (hub : Hub μ) (hfree : ¬ held) (connection : ConnectionId)
      (failed : List ConnectionId) (count : Nat) :
    Step held hub (.remove (connection :: failed) count) (hub.disconnect connection)
      (.remove failed count)

end Task

end DefiniteIntegral
