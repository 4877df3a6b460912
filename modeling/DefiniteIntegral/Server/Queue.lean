/-! Bounded queues of messages with one reader. A queue takes a message only while it has room and
its reader is there. -/

namespace DefiniteIntegral

/-- A bounded queue with one reader. -/
structure Queue (μ : Type) where
  capacity : Nat
  messages : List μ
  /-- Whether the reader is still there. -/
  hasReader : Bool
  /-- Whether there is someone else than a hub who can write to it. -/
  hasOwner : Bool
deriving DecidableEq, Repr

namespace Queue

variable {μ : Type}

/-- A new queue. -/
def ofCapacity (capacity : Nat) : Queue μ :=
  ⟨capacity, [], true, true⟩

/-- A queue that has neither reader nor owner. -/
def gone : Queue μ :=
  ⟨0, [], false, false⟩

/-- The queue with one more message at its end, if it has a reader and room. -/
def push? (message : μ) (queue : Queue μ) : Option (Queue μ) :=
  if queue.hasReader ∧ queue.messages.length < queue.capacity then
    some { queue with messages := queue.messages ++ [message] }
  else none

/-- The queue after its reader has left. The messages are lost. -/
def leave (queue : Queue μ) : Queue μ :=
  { queue with messages := [], hasReader := false }

end Queue

end DefiniteIntegral
