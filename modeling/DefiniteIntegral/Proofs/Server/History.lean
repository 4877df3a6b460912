import DefiniteIntegral.Proofs.Server.Broadcast
import Mathlib.Data.Set.Card

/-! # Histories of a hub

Operations on a hub one after another, and what can be seen of each of them from outside: which
messages a queue gained, what its reader got, and which registrations came to an end. -/

namespace DefiniteIntegral

variable {μ : Type}

/-! ## Operations -/

/-- What can be done to a hub. -/
inductive Operation (μ : Type)
  | openQueue (capacity : Nat)
  | connect (queue : QueueId)
  | disconnect (connection : ConnectionId)
  | send (queue : QueueId) (message : μ)
  | broadcast (message : μ)
  | receive (queue : QueueId)
  | dropReader (queue : QueueId)

/-- The queue that an operation registers. -/
def Operation.connected? : Operation μ → Option QueueId
  | connect queue => some queue
  | _ => none

theorem Operation.connected?_eq_some_iff {operation : Operation μ} {queue : QueueId} :
    operation.connected? = some queue ↔ operation = .connect queue := by
  cases operation <;> simp [connected?]

/-- The hub after one operation. -/
def Hub.apply (hub : Hub μ) : Operation μ → Hub μ
  | .openQueue capacity => (hub.openQueue capacity).2
  | .connect queue => (hub.connect queue).2
  | .disconnect connection => hub.disconnect connection
  | .send queue message => hub.send queue message
  | .broadcast message => (hub.broadcast message).2
  | .receive queue => (hub.receive queue).2
  | .dropReader queue => hub.dropReader queue

/-- The hub after operations one after another. -/
def Hub.run (hub : Hub μ) (operations : List (Operation μ)) : Hub μ :=
  operations.foldl apply hub

/-! ## Events -/

/-- One operation of a run, its place among the others, and the hub that it met. -/
structure Event (μ : Type) where
  place : Nat
  hub : Hub μ
  operation : Operation μ

namespace Event

variable (event : Event μ)

/-- The hub that an operation left. -/
def after : Hub μ :=
  event.hub.apply event.operation

/-- The messages that an operation put at the end of a queue. -/
def gained (queue : QueueId) : List μ :=
  (event.after.queues queue).messages.drop (event.hub.queues queue).messages.length

/-- The message that the reader of a queue got from an operation. -/
def read? (queue : QueueId) : Option μ :=
  match event.operation with
  | .receive other =>
    match (event.hub.receive other).1 with
    | some (.message message) => if other = queue then some message else none
    | _ => none
  | _ => none

/-- The message of a broadcast, with its place in the run. -/
def broadcast? : Option (Nat × μ) :=
  match event.operation with
  | .broadcast message => some (event.place, message)
  | _ => none

/-- The messages that an operation put into a queue; with those of a broadcast goes its place. -/
def arrivals (queue : QueueId) : List (Option Nat × μ) :=
  (event.gained queue).map (event.broadcast?.map Prod.fst, ·)

/-- Whether an operation ends a registration: by name, or as a broadcast to a queue that is full or
without a reader. -/
def ends (connection : ConnectionId) (queue : QueueId) : Bool :=
  match event.operation with
  | .disconnect other => connection = other
  | .broadcast _ =>
    (event.hub.queues queue).capacity ≤ (event.hub.queues queue).messages.length ||
      !(event.hub.queues queue).hasReader
  | _ => false

end Event

/-! ## Traces -/

/-- The events of operations one after another, numbered from a place. -/
def Hub.trace (hub : Hub μ) (place : Nat) : List (Operation μ) → List (Event μ)
  | [] => []
  | operation :: operations =>
    ⟨place, hub, operation⟩ :: (hub.apply operation).trace (place + 1) operations

/-- All messages that a queue gained, in their order. -/
def arrivals (queue : QueueId) (trace : List (Event μ)) : List (Option Nat × μ) :=
  trace.flatMap (Event.arrivals · queue)

/-- The messages of a list that are from broadcasts, with the places of these. -/
def fromBroadcasts (messages : List (Option Nat × μ)) : List (Nat × μ) :=
  messages.filterMap fun (place?, message) => place?.map (·, message)

/-- What the reader of a queue got. -/
def readings (queue : QueueId) (trace : List (Event μ)) : List μ :=
  trace.filterMap (Event.read? · queue)

/-! ## What one operation does to a queue -/

section Queues

variable {hub : Hub μ} {message : μ} {queue other : QueueId}

theorem Hub.send_eq :
    hub.send queue message =
      { hub with
        queues :=
          if (hub.queues queue).accepts then
            hub.queues.put queue ((hub.queues queue).append message)
          else hub.queues } := by
  by_cases haccepts : (hub.queues queue).accepts <;> simp [send, Queue.push?_eq, haccepts]

theorem Hub.receive_eq :
    (hub.receive queue).2 =
      { hub with
        queues :=
          if (hub.queues queue).hasReader then
            hub.queues.put queue
              { hub.queues queue with messages := (hub.queues queue).messages.tail }
          else hub.queues } := by
  simp only [receive]
  cases hreader : (hub.queues queue).hasReader with
  | false => rfl
  | true =>
      cases hmessages : (hub.queues queue).messages with
      | cons message messages => rfl
      | nil =>
          have hqueue : (⟨(hub.queues queue).capacity, [], true, (hub.queues queue).hasOwner⟩ :
              Queue μ) = hub.queues queue := by
            rw [← hreader, ← hmessages]
          simp only [List.tail_nil, hqueue, Queues.put_queue, Bool.not_true, Bool.false_eq_true,
            ↓reduceIte]
          split <;> rfl

theorem Hub.queues_send_of_not_accepts (h : queue = other → ¬ (hub.queues queue).accepts) :
    (hub.send other message).queues queue = hub.queues queue := by
  rw [send_eq]
  dsimp only
  split
  · rename_i haccepts
    refine Queues.put_of_ne hub.queues _ ?_
    rintro rfl
    exact h rfl haccepts
  · rfl

theorem Hub.queues_receive_of_left
    (h : queue = other → (hub.queues queue).hasReader = false) :
    (hub.receive other).2.queues queue = hub.queues queue := by
  rw [receive_eq]
  dsimp only
  split
  · rename_i hreader
    refine Queues.put_of_ne hub.queues _ ?_
    rintro rfl
    exact Bool.eq_false_iff.mp (h rfl) hreader
  · rfl

/-- A queue whose reader has left only loses what is in it. -/
theorem Hub.queues_apply_of_left {operation : Operation μ}
    (hleft : (hub.queues queue).hasReader = false)
    (hnew : ∀ capacity, operation = .openQueue capacity → queue ≠ hub.nextQueue) :
    (hub.apply operation).queues queue = hub.queues queue ∨
      (hub.apply operation).queues queue = (hub.queues queue).leave := by
  have hnot : ¬ (hub.queues queue).accepts := by simp [Queue.accepts, hleft]
  cases operation with
  | openQueue capacity => exact Or.inl (Queues.put_of_ne hub.queues _ (hnew capacity rfl))
  | connect other => exact Or.inl rfl
  | disconnect connection => exact Or.inl rfl
  | send other message => exact Or.inl (queues_send_of_not_accepts fun _ => hnot)
  | broadcast message => exact Or.inl (queues_broadcast_of_not_accepts fun _ => hnot)
  | receive other => exact Or.inl (queues_receive_of_left fun _ => hleft)
  | dropReader other =>
      rcases eq_or_ne queue other with rfl | hne
      · exact Or.inr (Queues.put_self hub.queues _ _)
      · exact Or.inl (Queues.put_of_ne hub.queues _ hne)

/-- A reader that has left does not come back. -/
theorem Hub.hasReader_apply {operation : Operation μ} (hopened : queue < hub.nextQueue)
    (hleft : (hub.queues queue).hasReader = false) :
    ((hub.apply operation).queues queue).hasReader = false := by
  rcases queues_apply_of_left hleft fun _ _ => Nat.ne_of_lt hopened with hqueue | hqueue
  · rw [hqueue, hleft]
  · rw [hqueue]
    rfl

end Queues

/-! ## What one operation does to the registrations -/

section Registrations

variable {hub : Hub μ} {operation : Operation μ} {later : List QueueId}

@[simp] theorem Hub.send_connections (queue : QueueId) (message : μ) :
    (hub.send queue message).connections = hub.connections := by
  rw [send_eq]

@[simp] theorem Hub.receive_connections (queue : QueueId) :
    (hub.receive queue).2.connections = hub.connections := by
  rw [receive_eq]

theorem Hub.nextConnection_apply :
    (hub.apply operation).nextConnection =
      hub.nextConnection + operation.connected?.toList.length := by
  cases operation with
  | send queue message =>
      rw [apply, send_eq]
      rfl
  | receive queue =>
      rw [apply, receive_eq]
      rfl
  | _ => rfl

/-- Who is registered after an operation: those from before whom it does not end, and the one whom
it registers. -/
theorem Hub.Consistent.mem_connections_apply (h : hub.Consistent later) (place : Nat)
    {entry : ConnectionId × QueueId} :
    entry ∈ (hub.apply operation).connections ↔
      entry ∈ hub.connections ∧ ¬ Event.ends ⟨place, hub, operation⟩ entry.1 entry.2 ∨
        entry.1 = hub.nextConnection ∧ operation.connected? = some entry.2 := by
  cases operation with
  | openQueue capacity => simp [apply, openQueue, Event.ends, Operation.connected?]
  | connect queue =>
      simp [apply, connect, Event.ends, Operation.connected?, Prod.ext_iff, eq_comm]
  | disconnect connection => simp [apply, disconnect, Event.ends, Operation.connected?]
  | send queue message => simp [apply, Event.ends, Operation.connected?]
  | broadcast message =>
      refine h.separate.mem_connections_broadcast.trans ?_
      simp [Event.ends, Operation.connected?, Queue.accepts, and_comm (b := _ < _)]
  | receive queue => simp [apply, Event.ends, Operation.connected?]
  | dropReader queue => simp [apply, dropReader, Event.ends, Operation.connected?]

theorem Hub.connections_apply_sublist :
    (hub.apply operation).connections.Sublist
      (hub.connections ++ (operation.connected?.map (hub.nextConnection, ·)).toList) := by
  cases operation with
  | connect queue => exact List.Sublist.refl _
  | disconnect connection => exact List.filter_sublist.trans (List.sublist_append_left _ _)
  | broadcast message => exact List.filter_sublist.trans (List.sublist_append_left _ _)
  | _ => simp [apply, openQueue, dropReader, Operation.connected?]

theorem Hub.nextQueue_apply :
    (hub.apply operation).nextQueue =
      hub.nextQueue + if operation matches .openQueue _ then 1 else 0 := by
  cases operation with
  | send queue message =>
      rw [apply, send_eq]
      rfl
  | receive queue =>
      rw [apply, receive_eq]
      rfl
  | _ => rfl

/-- A new registration gets a new number. -/
theorem Hub.Enumerated.apply (h : hub.Enumerated) : (hub.apply operation).Enumerated where
  connections_nodup := by
    refine (connections_apply_sublist.map Prod.fst).nodup ?_
    rw [List.map_append, List.nodup_append]
    refine ⟨h.connections_nodup, ?_, ?_⟩
    · cases operation.connected? <;> simp
    · rintro connection hmem other hother rfl
      obtain ⟨entry, hentry, rfl⟩ := List.mem_map.mp hmem
      have hlt := h.lt_nextConnection entry hentry
      cases hconnected : operation.connected? <;> simp [hconnected] at hother
      exact Nat.ne_of_lt hlt hother
  lt_nextConnection := by
    intro entry hmem
    rw [nextConnection_apply]
    rcases List.mem_append.mp (connections_apply_sublist.subset hmem) with hentry | hentry
    · exact Nat.lt_add_right _ (h.lt_nextConnection entry hentry)
    · cases hconnected : operation.connected? <;> simp [hconnected] at hentry
      simp [hentry]

/-- Registering one queue after another that are all different keeps a hub consistent. -/
theorem Hub.Consistent.apply (h : hub.Consistent (operation.connected?.toList ++ later)) :
    (hub.apply operation).Consistent later where
  connections_nodup := h.enumerated.apply.connections_nodup
  lt_nextConnection := h.enumerated.apply.lt_nextConnection
  queues_nodup := by
    refine ((connections_apply_sublist.map Prod.snd).append_right later).nodup ?_
    have hmap : (operation.connected?.map (hub.nextConnection, ·)).toList.map Prod.snd =
        operation.connected?.toList := by
      cases operation.connected? <;> rfl
    rw [List.map_append, hmap, List.append_assoc]
    exact h.queues_nodup
  unopened := by
    intro queue hle
    rw [nextQueue_apply] at hle
    have hgone := h.unopened queue (Nat.le_of_add_right_le hle)
    have hnew : ∀ capacity, operation = .openQueue capacity → queue ≠ hub.nextQueue := by
      rintro capacity rfl
      exact Nat.ne_of_gt hle
    rcases queues_apply_of_left (hgone ▸ rfl) hnew with hqueue | hqueue
    · exact hqueue.trans hgone
    · rw [hqueue, hgone]
      rfl

/-- A queue that loses its registration is not registered. -/
theorem Hub.Consistent.not_registered_of_ends
    (h : hub.Consistent (operation.connected?.toList ++ later)) {place : Nat}
    {entry : ConnectionId × QueueId} (hmem : entry ∈ hub.connections)
    (hends : Event.ends ⟨place, hub, operation⟩ entry.1 entry.2) :
    entry.2 ∉ (hub.apply operation).connections.map Prod.snd := by
  intro hregistered
  obtain ⟨⟨connection, queue⟩, hother, rfl⟩ := List.mem_map.mp hregistered
  rcases (h.mem_connections_apply place).mp hother with ⟨hold, hnot⟩ | ⟨-, hconnected⟩
  · rw [h.separate.connection_unique hold hmem] at hnot
    exact hnot hends
  · refine h.not_mem_later hmem (List.mem_append_left _ ?_)
    rw [hconnected]
    exact List.mem_singleton_self _

end Registrations

/-! ## What can be seen of one operation -/

namespace Event

variable {event : Event μ} {later : List QueueId} {connection : ConnectionId} {queue : QueueId}

theorem map_snd_arrivals : (event.arrivals queue).map Prod.snd = event.gained queue := by
  simp [arrivals]

theorem fromBroadcasts_arrivals_of_broadcast {message : μ}
    (h : event.operation = .broadcast message) :
    fromBroadcasts (event.arrivals queue) = (event.gained queue).map (event.place, ·) := by
  simp [fromBroadcasts, arrivals, broadcast?, h, List.filterMap_map]

theorem fromBroadcasts_arrivals_of_not_broadcast (h : event.broadcast? = none) :
    fromBroadcasts (event.arrivals queue) = [] := by
  simp [fromBroadcasts, arrivals, h]

theorem broadcast?_eq_some_iff {stamped : Nat × μ} :
    event.broadcast? = some stamped ↔
      event.operation = .broadcast stamped.2 ∧ event.place = stamped.1 := by
  obtain ⟨place, hub, operation⟩ := event
  obtain ⟨stamp, message⟩ := stamped
  cases operation <;> simp [broadcast?, and_comm]

/-- A broadcast is put into the registered queues that can take it. -/
theorem gained_ne_nil_iff (h : event.hub.Consistent later) {message : μ}
    (hoperation : event.operation = .broadcast message) :
    event.gained queue ≠ [] ↔
      queue ∈ event.hub.connections.map Prod.snd ∧ (event.hub.queues queue).accepts := by
  rw [gained, after, hoperation, Hub.apply]
  by_cases htakes : queue ∈ event.hub.connections.map Prod.snd ∧ (event.hub.queues queue).accepts
  · refine iff_of_true ?_ htakes
    simp [h.separate.queues_broadcast_of_accepts htakes.1 htakes.2, Queue.append]
  · refine iff_of_false ?_ htakes
    simp [Hub.queues_broadcast_of_not_accepts (not_and.mp htakes)]

/-- A queue without a registration gets no broadcasts. -/
theorem fromBroadcasts_arrivals_of_not_registered
    (h : queue ∉ event.hub.connections.map Prod.snd) :
    fromBroadcasts (event.arrivals queue) = [] := by
  cases hbroadcast : event.broadcast? with
  | none => exact fromBroadcasts_arrivals_of_not_broadcast hbroadcast
  | some stamped =>
      obtain ⟨hoperation, -⟩ := broadcast?_eq_some_iff.mp hbroadcast
      rw [fromBroadcasts_arrivals_of_broadcast hoperation, gained, after, hoperation, Hub.apply,
        Hub.queues_broadcast_of_not_accepts fun hmem => absurd hmem h, List.drop_length]
      rfl

/-- A registered queue gets a broadcast unless that ends the registration. -/
theorem fromBroadcasts_arrivals_of_registered (h : event.hub.Consistent later)
    (hmem : (connection, queue) ∈ event.hub.connections) :
    fromBroadcasts (event.arrivals queue) =
      if event.ends connection queue then [] else event.broadcast?.toList := by
  cases hbroadcast : event.broadcast? with
  | none =>
      rw [fromBroadcasts_arrivals_of_not_broadcast hbroadcast]
      split <;> rfl
  | some stamped =>
      obtain ⟨hoperation, hplace⟩ := broadcast?_eq_some_iff.mp hbroadcast
      have hends : event.ends connection queue = !(event.hub.queues queue).accepts := by
        simp only [ends, hoperation, Queue.accepts, Bool.not_and, ← decide_not, Nat.not_lt]
        exact Bool.or_comm _ _
      have hregistered : queue ∈ event.hub.connections.map Prod.snd := List.mem_map_of_mem hmem
      rw [fromBroadcasts_arrivals_of_broadcast hoperation, gained, after, hoperation, Hub.apply,
        hends]
      by_cases haccepts : (event.hub.queues queue).accepts
      · simp [h.separate.queues_broadcast_of_accepts hregistered haccepts, haccepts, Queue.append,
          hplace]
      · simp [Hub.queues_broadcast_of_not_accepts fun _ => haccepts, haccepts]

theorem fromBroadcasts_arrivals_sublist (h : event.hub.Consistent later) :
    (fromBroadcasts (event.arrivals queue)).Sublist event.broadcast?.toList := by
  by_cases hregistered : queue ∈ event.hub.connections.map Prod.snd
  · obtain ⟨entry, hmem, rfl⟩ := List.mem_map.mp hregistered
    rw [fromBroadcasts_arrivals_of_registered h hmem]
    split
    · exact List.nil_sublist _
    · exact List.Sublist.refl _
  · rw [fromBroadcasts_arrivals_of_not_registered hregistered]
    exact List.nil_sublist _

theorem read?_of_receive {other : QueueId} (h : event.operation = .receive other) :
    event.read? queue =
      if other = queue ∧ (event.hub.queues queue).hasReader then
        (event.hub.queues queue).messages.head?
      else none := by
  simp only [read?, h, Hub.receive]
  rcases eq_or_ne other queue with rfl | hne
  · cases hreader : (event.hub.queues other).hasReader with
    | false => simp
    | true =>
        cases hmessages : (event.hub.queues other).messages with
        | nil =>
            simp only [Bool.not_true, Bool.false_eq_true, ↓reduceIte, List.head?_nil]
            rw [apply_ite Prod.fst]
            split
            · rename_i hmessage
              split at hmessage <;> cases hmessage
            · simp
        | cons message messages => simp
  · simp only [hne, false_and, ↓reduceIte]
    split <;> rfl

theorem read?_eq_none_of_left (h : (event.hub.queues queue).hasReader = false) :
    event.read? queue = none := by
  cases hoperation : event.operation with
  | receive other => simp [read?_of_receive hoperation, h]
  | _ => simp [read?, hoperation]

/-- A queue that an operation does not touch keeps its messages. -/
theorem messages_append_gained_of_eq (h : event.after.queues queue = event.hub.queues queue)
    (hread : event.read? queue = none) :
    (event.hub.queues queue).messages ++ event.gained queue =
      (event.read? queue).toList ++ (event.after.queues queue).messages := by
  simp [gained, h, hread]

variable (event) in
/-- What is in a queue stays there in its order until it is read, unless the reader leaves. -/
theorem messages_append_gained (h : event.hub.Consistent later)
    (hleave : event.operation = .dropReader queue → event.hub.nextQueue ≤ queue) :
    (event.hub.queues queue).messages ++ event.gained queue =
      (event.read? queue).toList ++ (event.after.queues queue).messages := by
  obtain ⟨place, hub, operation⟩ := event
  cases operation with
  | openQueue capacity =>
      rcases eq_or_ne queue hub.nextQueue with rfl | hne
      · have hgone : hub.queues hub.nextQueue = .gone := h.unopened _ le_rfl
        simp [gained, after, Hub.apply, Hub.openQueue, read?, hgone, Queue.gone, Queue.ofCapacity]
      · exact messages_append_gained_of_eq (Queues.put_of_ne hub.queues _ hne) rfl
  | connect other => exact messages_append_gained_of_eq rfl rfl
  | disconnect connection => exact messages_append_gained_of_eq rfl rfl
  | send other message =>
      by_cases haccepts : (hub.queues other).accepts
      · rcases eq_or_ne queue other with rfl | hne
        · simp [gained, after, Hub.apply, Hub.send_eq, haccepts, read?, Queue.append]
        · refine messages_append_gained_of_eq ?_ rfl
          exact Hub.queues_send_of_not_accepts fun heq => absurd heq hne
      · refine messages_append_gained_of_eq ?_ rfl
        exact Hub.queues_send_of_not_accepts fun heq => heq ▸ haccepts
  | broadcast message =>
      by_cases haccepts : queue ∈ hub.connections.map Prod.snd ∧ (hub.queues queue).accepts
      · simp [gained, after, Hub.apply, read?, Queue.append,
          h.separate.queues_broadcast_of_accepts haccepts.1 haccepts.2]
      · refine messages_append_gained_of_eq ?_ rfl
        exact Hub.queues_broadcast_of_not_accepts (not_and.mp haccepts)
  | receive other =>
      by_cases hreads : other = queue ∧ (hub.queues queue).hasReader
      · obtain ⟨rfl, hreader⟩ := hreads
        rw [read?_of_receive rfl, if_pos ⟨rfl, hreader⟩]
        cases hmessages : (hub.queues other).messages <;>
          simp [gained, after, Hub.apply, Hub.receive_eq, hreader, hmessages]
      · refine messages_append_gained_of_eq ?_ (by rw [read?_of_receive rfl, if_neg hreads])
        refine Hub.queues_receive_of_left fun heq => Bool.eq_false_iff.mpr ?_
        exact not_and.mp hreads heq.symm
  | dropReader other =>
      rcases eq_or_ne queue other with rfl | hne
      · have hgone : hub.queues queue = .gone := h.unopened queue (hleave rfl)
        simp [gained, after, Hub.apply, Hub.dropReader, hgone, Queue.leave, Queue.gone, read?]
      · exact messages_append_gained_of_eq (Queues.put_of_ne hub.queues _ hne) rfl

end Event

end DefiniteIntegral
