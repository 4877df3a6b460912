import DefiniteIntegral.Proofs.Server.Delivery
import DefiniteIntegral.Server.State

/-! # Updates of a server

What the queues of a server get while it runs: each registered client gets every update until its
registration ends, and all clients get the updates in one order. -/

namespace DefiniteIntegral

/-! ## Steps -/

/-- What can happen to a server: something is done to its hub, or the client of a queue sends the
text of a request. -/
inductive Step
  | hub (operation : Operation Message)
  | request (entropy : UInt64) (text : String) (reply : QueueId)

/-- The queue that a step registers. -/
def Step.connected? : Step → Option QueueId
  | hub operation => operation.connected?
  | request _ _ _ => none

namespace Server

/-- The server after a step. -/
def perform (server : Server) : Step → Server
  | .hub operation => { server with hub := server.hub.apply operation }
  | .request entropy text reply => server.handleText entropy text reply

/-- The server after steps one after another. -/
def run (server : Server) (steps : List Step) : Server :=
  steps.foldl perform server

/-- What a step does to the hub: a request with an answer is an answer to one queue and an update to
all, and any other is an answer only. -/
def operations (server : Server) : Step → List (Operation Message)
  | .hub operation => [operation]
  | .request entropy text reply =>
    match server.integrateText entropy text with
    | .ok data => [.send reply (.result data), .broadcast (.update data)]
    | .error e => [.send reply (.error e.message)]

/-- What steps one after another do to the hub. -/
def history (server : Server) : List Step → List (Operation Message)
  | [] => []
  | step :: steps => server.operations step ++ (server.perform step).history steps

variable {server : Server} {step : Step} {steps : List Step}

theorem perform_hub : (server.perform step).hub = server.hub.run (server.operations step) := by
  cases step with
  | hub operation => rfl
  | request entropy text reply =>
      rw [perform, handleText, operations]
      cases server.integrateText entropy text <;> rfl

theorem run_hub : (server.run steps).hub = server.hub.run (server.history steps) := by
  induction steps generalizing server with
  | nil => rfl
  | cons step steps ih =>
      rw [history, Hub.run_append, ← perform_hub]
      exact ih

theorem connectedQueues_operations :
    connectedQueues (server.operations step) = step.connected?.toList := by
  cases step with
  | hub operation => exact connectedQueues_cons.trans (List.append_nil _)
  | request entropy text reply =>
      rw [operations]
      split <;> rfl

theorem connectedQueues_history :
    connectedQueues (server.history steps) = steps.filterMap Step.connected? := by
  induction steps generalizing server with
  | nil => rfl
  | cons step steps ih =>
      rw [history, filterMap_cons_toList, ← connectedQueues_operations, ← ih]
      exact List.filterMap_append

/-! ## Delivery -/

/-- Whatever happens to a server on which no queue is registered twice. A registered queue gets the
broadcasts from its registration to the end of that, all of them in their order. Whoever is
registered at the end is so by a registration that nothing has ended. A broadcast tells how many
queues it was put into. A reader gets what is put into its queue, in that order, and whichever two
broadcasts two readers got, they got them in the same order. -/
theorem broadcasts_delivered {config : Config} {steps : List Step}
    (h : (steps.filterMap Step.connected?).Nodup) :
    let operations := (start config).history steps
    let trace := Hub.empty.trace 0 operations
    ((start config).run steps).hub = Hub.empty.run operations ∧
    (∀ registration : Registration operations,
      fromBroadcasts (arrivals registration.queue trace) =
        registration.inForce.filterMap Event.broadcast?) ∧
    (∀ connection,
      ((start config).run steps).hub.isConnected connection ↔
        ∃ registration : Registration operations, registration.connection = connection ∧
          ∀ event ∈ registration.aftermath,
            ¬ event.ends registration.connection registration.queue) ∧
    (∀ event ∈ trace, ∀ message, event.operation = .broadcast message →
      {queue | event.gained queue ≠ []}.encard = (event.hub.broadcast message).1) ∧
    (∀ queue, readings queue trace = (received queue trace).map Prod.snd) ∧
    ∀ queue other first second,
      [first, second].Sublist (fromBroadcasts (received queue trace)) →
        first ∈ fromBroadcasts (received other trace) →
        second ∈ fromBroadcasts (received other trace) →
        [first, second].Sublist (fromBroadcasts (received other trace)) := by
  intro operations trace
  have hnodup : (connectedQueues operations).Nodup := connectedQueues_history ▸ h
  have hempty := Hub.consistent_empty (μ := Message) hnodup
  refine ⟨run_hub, fun registration => Registration.fromBroadcasts_arrivals hnodup, ?_, ?_, ?_, ?_⟩
  · intro connection
    rw [run_hub]
    exact Hub.isConnected_run_iff hnodup
  · intro event hmem message hoperation
    obtain ⟨later, hevent⟩ := hempty.of_mem_trace hmem
    exact Event.encard_gained hevent hoperation
  · intro queue
    rw [received, List.map_take]
    exact List.prefix_iff_eq_take.mp (readings_isPrefix hempty)
  · intro queue other first second
    exact received_order hempty

/-- A client that stalls next to one that reads: the second broadcast finds the queue of the first
full, which ends its registration, and the other one gets both. -/
theorem broadcasts_delivered_full_queue :
    let steps : List Step := [.hub (.openQueue 1), .hub (.openQueue 2), .hub (.connect 0),
      .hub (.connect 1), .hub (.broadcast (.error "a")), .hub (.broadcast (.error "b"))]
    let trace := Hub.empty.trace 0 ((start .standard).history steps)
    (steps.filterMap Step.connected?).Nodup ∧
    fromBroadcasts (arrivals 0 trace) = [(4, .error "a")] ∧
    fromBroadcasts (arrivals 1 trace) = [(4, .error "a"), (5, .error "b")] := by
  intro steps trace
  have hnodup : (steps.filterMap Step.connected?).Nodup := by decide
  obtain ⟨-, hframes, -⟩ := @broadcasts_delivered .standard steps hnodup
  exact ⟨hnodup,
    hframes ⟨[.openQueue 1, .openQueue 2], 0,
      [.connect 1, .broadcast (.error "a"), .broadcast (.error "b")], rfl⟩,
    hframes ⟨[.openQueue 1, .openQueue 2, .connect 0], 1,
      [.broadcast (.error "a"), .broadcast (.error "b")], rfl⟩⟩

end Server

end DefiniteIntegral
