import DefiniteIntegral.Server.Queue

/-! Queues that are registered for broadcasts. A queue that cannot take a broadcast loses its
registration. -/

namespace DefiniteIntegral

/-- What a reader finds. -/
inductive Reception (μ : Type)
  | message (m : μ)
  | empty
  /-- Nothing, and nobody can write any more. -/
  | closed
deriving DecidableEq, Repr

/-- The number of a queue. -/
abbrev QueueId := Nat

/-- The number of a registration. -/
abbrev ConnectionId := Nat

/-- All queues by their numbers. -/
abbrev Queues (μ : Type) := QueueId → Queue μ

/-- The queues with one of them replaced. -/
def Queues.put {μ : Type} (queues : Queues μ) (id : QueueId) (queue : Queue μ) : Queues μ :=
  fun other => if other = id then queue else queues other

/-- What a broadcast does: the queues after it, the registrations that could not be served, and the
number of those that could. -/
structure Delivery (μ : Type) where
  queues : Queues μ
  failed : List ConnectionId
  count : Nat

/-- A message for every registration of a list, in its order. -/
def deliver {μ : Type} (message : μ) (queues : Queues μ) :
    List (ConnectionId × QueueId) → Delivery μ
  | [] => ⟨queues, [], 0⟩
  | (connection, id) :: rest =>
    match (queues id).push? message with
    | some queue =>
      let later := deliver message (queues.put id queue) rest
      { later with count := later.count + 1 }
    | none =>
      let later := deliver message queues rest
      { later with failed := connection :: later.failed }

/-- Queues, and which of them are registered. A registration has a number that is never used
again. -/
structure Hub (μ : Type) where
  queues : Queues μ
  connections : List (ConnectionId × QueueId)
  nextQueue : QueueId
  nextConnection : ConnectionId

namespace Hub

variable {μ : Type}

/-- A hub without queues. -/
def empty : Hub μ :=
  ⟨fun _ => .gone, [], 0, 0⟩

/-- The hub with a new queue, and its number. -/
def openQueue (hub : Hub μ) (capacity : Nat) : QueueId × Hub μ :=
  (hub.nextQueue,
    { hub with
      queues := hub.queues.put hub.nextQueue (.ofCapacity capacity)
      nextQueue := hub.nextQueue + 1 })

/-- The hub with a queue registered, and the number of the registration. -/
def connect (hub : Hub μ) (id : QueueId) : ConnectionId × Hub μ :=
  (hub.nextConnection,
    { hub with
      connections := hub.connections ++ [(hub.nextConnection, id)]
      nextConnection := hub.nextConnection + 1 })

/-- Whether a registration is in force. -/
def isConnected (hub : Hub μ) (connection : ConnectionId) : Bool :=
  hub.connections.any fun entry => entry.1 = connection

/-- The hub without a registration. -/
def disconnect (hub : Hub μ) (connection : ConnectionId) : Hub μ :=
  { hub with connections := hub.connections.filter fun entry => entry.1 ≠ connection }

/-- The number of registrations. -/
def size (hub : Hub μ) : Nat :=
  hub.connections.length

/-- The hub after a message has been offered to one queue. -/
def send (hub : Hub μ) (id : QueueId) (message : μ) : Hub μ :=
  match (hub.queues id).push? message with
  | some queue => { hub with queues := hub.queues.put id queue }
  | none => hub

/-- A message for all registrations: how many took it, and the hub without those that did not. -/
def broadcast (hub : Hub μ) (message : μ) : Nat × Hub μ :=
  let delivery := deliver message hub.queues hub.connections
  (delivery.count,
    { hub with
      queues := delivery.queues
      connections := hub.connections.filter fun entry => entry.1 ∉ delivery.failed })

/-- What the reader of a queue finds next; none if it has left. -/
def receive (hub : Hub μ) (id : QueueId) : Option (Reception μ) × Hub μ :=
  let queue := hub.queues id
  if !queue.hasReader then (none, hub)
  else match queue.messages with
    | message :: messages =>
      (some (.message message), { hub with queues := hub.queues.put id { queue with messages } })
    | [] =>
      if queue.hasOwner ∨ hub.connections.any (fun entry => entry.2 = id) then (some .empty, hub)
      else (some .closed, hub)

/-- The hub after the reader of a queue has left. -/
def dropReader (hub : Hub μ) (id : QueueId) : Hub μ :=
  { hub with queues := hub.queues.put id (hub.queues id).leave }

/-- The hub after the owner of a queue has let go of it. -/
def dropOwner (hub : Hub μ) (id : QueueId) : Hub μ :=
  { hub with queues := hub.queues.put id { hub.queues id with hasOwner := false } }

end Hub

end DefiniteIntegral
