import DefiniteIntegral.Proofs.Outcome
import DefiniteIntegral.Proofs.Server.History
import DefiniteIntegral.Server.State

/-! # One request

What the text of a request does to a server on which every registration has a queue of its own. The
client that sent it is answered before everybody gets the update, so the answer can take the last
room of its queue; and of a fault it alone hears. -/

namespace DefiniteIntegral

variable {μ : Type}

/-! ## An answer and an update -/

namespace Hub

/-- The hub after an answer for one queue and an update for all. -/
def respond (hub : Hub μ) (reply : QueueId) (answer update : μ) : Hub μ :=
  ((hub.send reply answer).broadcast update).2

variable {hub : Hub μ} {message answer update : μ} {connection : ConnectionId}
  {queue reply : QueueId}

theorem queues_send_of_accepts (h : (hub.queues reply).accepts) :
    (hub.send reply message).queues reply = (hub.queues reply).append message := by
  simp [send_eq, h]

theorem queues_send_of_ne (h : queue ≠ reply) :
    (hub.send reply message).queues queue = hub.queues queue :=
  queues_send_of_not_accepts fun heq => absurd heq h

theorem queues_respond_of_not_registered (hne : queue ≠ reply)
    (h : queue ∉ hub.connections.map Prod.snd) :
    (hub.respond reply answer update).queues queue = hub.queues queue := by
  rw [respond, queues_broadcast_of_not_accepts, queues_send_of_ne hne]
  intro hmem
  rw [send_connections] at hmem
  exact absurd hmem h

theorem connections_respond_sublist :
    (hub.respond reply answer update).connections.Sublist hub.connections := by
  have hsublist : (hub.respond reply answer update).connections.Sublist
      (hub.send reply answer).connections := List.filter_sublist
  rwa [send_connections] at hsublist

namespace Separate

theorem send (h : hub.Separate) : (hub.send reply message).Separate := by
  constructor
  · rw [send_connections]
    exact h.connections_nodup
  · rw [send_connections]
    exact h.queues_nodup

theorem isConnected_broadcast_iff (h : hub.Separate)
    (hmem : (connection, queue) ∈ hub.connections) :
    (hub.broadcast message).2.isConnected connection ↔ (hub.queues queue).accepts := by
  rw [isConnected_iff]
  constructor
  · rintro ⟨other, hother⟩
    obtain ⟨hother, haccepts⟩ := h.mem_connections_broadcast.mp hother
    rwa [h.queue_unique hmem hother]
  · intro haccepts
    exact ⟨queue, h.mem_connections_broadcast.mpr ⟨hmem, haccepts⟩⟩

/-- A broadcast is put into the queue of a registration, or ends it. -/
theorem broadcast_cases (h : hub.Separate) (message : μ)
    (hmem : (connection, queue) ∈ hub.connections) :
    if (hub.queues queue).accepts then
      (hub.broadcast message).2.queues queue = (hub.queues queue).append message ∧
        (hub.broadcast message).2.isConnected connection
    else
      (hub.broadcast message).2.queues queue = hub.queues queue ∧
        ¬ (hub.broadcast message).2.isConnected connection := by
  rw [h.isConnected_broadcast_iff hmem]
  split
  · rename_i haccepts
    exact ⟨h.queues_broadcast_of_accepts (List.mem_map_of_mem hmem) haccepts, haccepts⟩
  · rename_i hfull
    exact ⟨queues_broadcast_of_not_accepts fun _ => hfull, hfull⟩

/-- A queue other than that of the sender is offered the update only. -/
theorem respond_other (h : hub.Separate) (answer update : μ)
    (hmem : (connection, queue) ∈ hub.connections) (hne : queue ≠ reply) :
    if (hub.queues queue).accepts then
      (hub.respond reply answer update).queues queue = (hub.queues queue).append update ∧
        (hub.respond reply answer update).isConnected connection
    else
      (hub.respond reply answer update).queues queue = hub.queues queue ∧
        ¬ (hub.respond reply answer update).isConnected connection := by
  rw [← send_connections reply answer] at hmem
  rw [← queues_send_of_ne hne]
  exact h.send.broadcast_cases update hmem

theorem respond_sender (h : hub.Separate) (answer update : μ)
    (hmem : (connection, reply) ∈ hub.connections) (hreader : (hub.queues reply).hasReader) :
    (2 ≤ (hub.queues reply).room →
      (hub.respond reply answer update).queues reply =
          ((hub.queues reply).append answer).append update ∧
        (hub.respond reply answer update).isConnected connection) ∧
    ((hub.queues reply).room = 1 →
      (hub.respond reply answer update).queues reply = (hub.queues reply).append answer ∧
        ¬ (hub.respond reply answer update).isConnected connection) ∧
    ((hub.queues reply).room = 0 →
      (hub.respond reply answer update).queues reply = hub.queues reply ∧
        ¬ (hub.respond reply answer update).isConnected connection) := by
  rw [← send_connections reply answer] at hmem
  -- The update meets the queue as the answer has left it.
  have hcases := h.send.broadcast_cases update hmem
  refine ⟨fun hroom => ?_, fun hroom => ?_, fun hroom => ?_⟩
  · have haccepts : (hub.queues reply).accepts := Queue.accepts_iff.mpr ⟨hreader, by omega⟩
    have hagain : ((hub.queues reply).append answer).accepts :=
      Queue.accepts_iff.mpr ⟨hreader, by rw [Queue.room_append]; omega⟩
    rwa [queues_send_of_accepts haccepts, if_pos hagain] at hcases
  · have haccepts : (hub.queues reply).accepts := Queue.accepts_iff.mpr ⟨hreader, by omega⟩
    have hfull : ¬ ((hub.queues reply).append answer).accepts := fun hagain => by
      have hpos := (Queue.accepts_iff.mp hagain).2
      rw [Queue.room_append] at hpos
      omega
    rwa [queues_send_of_accepts haccepts, if_neg hfull] at hcases
  · have hfull : ¬ (hub.queues reply).accepts := fun haccepts =>
      Nat.ne_of_gt (Queue.accepts_iff.mp haccepts).2 hroom
    rwa [queues_send_of_not_accepts fun _ => hfull, if_neg hfull] at hcases

theorem respond (h : hub.Separate) (reply : QueueId) (answer update : μ) :
    (hub.respond reply answer update).Separate where
  connections_nodup := (connections_respond_sublist.map Prod.fst).nodup h.connections_nodup
  queues_nodup := (connections_respond_sublist.map Prod.snd).nodup h.queues_nodup

/-- As long as there is room for both, answers and updates pile up in the queue of a sender. -/
theorem iterate_respond (h : hub.Separate) (answer update : μ)
    (hmem : (connection, reply) ∈ hub.connections) (hreader : (hub.queues reply).hasReader)
    (n : Nat) (hroom : 2 * n ≤ (hub.queues reply).room) :
    let later := (fun hub : Hub μ => hub.respond reply answer update)^[n] hub
    later.Separate ∧ (connection, reply) ∈ later.connections ∧
      later.queues reply =
        { hub.queues reply with
          messages :=
            (hub.queues reply).messages ++ (List.replicate n [answer, update]).flatten } := by
  induction n generalizing hub with
  | zero => exact ⟨h, hmem, by simp⟩
  | succ n ih =>
      obtain ⟨hqueue, hconnected⟩ := (h.respond_sender answer update hmem hreader).1 (by omega)
      have hstill : (connection, reply) ∈ (hub.respond reply answer update).connections := by
        obtain ⟨queue, hqueue⟩ := isConnected_iff.mp hconnected
        rwa [h.queue_unique (connections_respond_sublist.subset hqueue) hmem] at hqueue
      have hroom' : 2 * n ≤ ((hub.respond reply answer update).queues reply).room := by
        rw [hqueue, Queue.room_append, Queue.room_append]
        omega
      obtain ⟨hseparate, hlater, hmessages⟩ :=
        ih (h.respond reply answer update) hstill (by rw [hqueue]; exact hreader) hroom'
      refine ⟨hseparate, hlater, ?_⟩
      rw [Function.iterate_succ_apply, hmessages, hqueue]
      simp [Queue.append, List.replicate_succ]

/-- A queue other than that of the sender gains the update or nothing. -/
theorem messages_respond (h : hub.Separate) (answer update : μ) (hne : queue ≠ reply) :
    ∃ gained, gained.Sublist [update] ∧
      ((hub.respond reply answer update).queues queue).messages =
        (hub.queues queue).messages ++ gained := by
  by_cases hmem : queue ∈ hub.connections.map Prod.snd
  · obtain ⟨⟨connection, _⟩, hentry, rfl⟩ := List.mem_map.mp hmem
    have hother := h.respond_other answer update hentry hne
    split at hother
    · exact ⟨[update], List.Sublist.refl _, by rw [hother.1]; rfl⟩
    · exact ⟨[], List.nil_sublist _, by rw [hother.1, List.append_nil]⟩
  · exact ⟨[], List.nil_sublist _,
      by rw [queues_respond_of_not_registered hne hmem, List.append_nil]⟩

end Separate

end Hub

/-! ## The text of a request -/

namespace Server

variable {server : Server} {entropy : UInt64} {text : String}

theorem handleText_of_error {fault : Error Float} (reply : QueueId)
    (h : server.integrateText entropy text = .error fault) :
    server.handleText entropy text reply =
      { server with hub := server.hub.send reply (.error fault.message) } := by
  rw [handleText, h]

theorem handleText_of_ok {data : Result Float} (reply : QueueId)
    (h : server.integrateText entropy text = .ok data) :
    server.handleText entropy text reply =
      { server with hub := server.hub.respond reply (.result data) (.update data) } := by
  rw [handleText, h]
  rfl

/-- What the text of a request does. If there is no answer to it, the queue of the sender gains the
fault if it can, and nothing else happens. If there is one, the queue of the sender gains that and
the update, or that alone, or nothing, as it has room, and without room for both the registration
ends; every other registration gains the update or ends; and nothing else happens. Nobody but the
sender gets an answer. -/
theorem handleText_effect (h : server.hub.Separate) {sender : ConnectionId} {reply : QueueId}
    (hsender : (sender, reply) ∈ server.hub.connections) (entropy : UInt64) (text : String) :
    let queue := server.hub.queues reply
    let after := server.handleText entropy text reply
    (∀ fault, server.integrateText entropy text = .error fault →
      after =
        if queue.accepts then
          { server with
            hub :=
              { server.hub with
                queues := server.hub.queues.put reply (queue.append (.error fault.message)) } }
        else server) ∧
    (∀ data, server.integrateText entropy text = .ok data →
      (queue.hasReader →
        (2 ≤ queue.room →
          after.hub.queues reply = (queue.append (.result data)).append (.update data) ∧
            after.hub.isConnected sender) ∧
        (queue.room = 1 →
          after.hub.queues reply = queue.append (.result data) ∧
            ¬ after.hub.isConnected sender) ∧
        (queue.room = 0 →
          after.hub.queues reply = queue ∧ ¬ after.hub.isConnected sender)) ∧
      (∀ client id, (client, id) ∈ server.hub.connections → client ≠ sender →
        if (server.hub.queues id).accepts then
          after.hub.queues id = (server.hub.queues id).append (.update data) ∧
            after.hub.isConnected client
        else
          after.hub.queues id = server.hub.queues id ∧ ¬ after.hub.isConnected client) ∧
      (∀ id, id ∉ server.hub.connections.map Prod.snd →
        after.hub.queues id = server.hub.queues id) ∧
      after.hub.connections.Sublist server.hub.connections ∧
      { after with hub := server.hub } = server) ∧
    ∀ id, id ≠ reply →
      ∃ gained, (after.hub.queues id).messages = (server.hub.queues id).messages ++ gained ∧
        ∀ data, .result data ∉ gained := by
  intro queue after
  cases hanswer : server.integrateText entropy text with
  | error fault =>
      have hafter : after = _ := handleText_of_error reply hanswer
      rw [hafter]
      refine ⟨?_, nofun, ?_⟩
      · rintro _ ⟨⟩
        rw [Hub.send_eq]
        split <;> rfl
      · intro id hne
        exact ⟨[], by rw [Hub.queues_send_of_ne hne, List.append_nil], by simp⟩
  | ok data =>
      have hafter : after = _ := handleText_of_ok reply hanswer
      rw [hafter]
      refine ⟨nofun, ?_, ?_⟩
      · rintro _ ⟨⟩
        refine ⟨h.respond_sender _ _ hsender, ?_, ?_, Hub.connections_respond_sublist, rfl⟩
        · intro client id hclient hne
          refine h.respond_other _ _ hclient ?_
          rintro rfl
          exact hne (h.connection_unique hclient hsender)
        · intro id hid
          refine Hub.queues_respond_of_not_registered ?_ hid
          rintro rfl
          exact hid (List.mem_map_of_mem hsender)
      · intro id hne
        obtain ⟨gained, hgained, hmessages⟩ :=
          h.messages_respond (.result data) (.update data) hne
        refine ⟨gained, hmessages, fun answer hmem => ?_⟩
        simpa using hgained.subset hmem

/-- Two clients with room for one message each. A request of the first that has an answer ends its
registration, and one for too few points does not. -/
theorem handleText_effect_one_place :
    let server : Server :=
      { start .standard with
        hub := Hub.empty.run [.openQueue 1, .openQueue 1, .connect 0, .connect 1] }
    let text := "[\"x\", 0, 1, 10, \"trapezoidal\"]"
    let few := "[\"x\", 0, 1, 5, \"trapezoidal\"]"
    (∃ data, server.integrateText 0 text = .ok data ∧
      (server.handleText 0 text 0).hub.queues 0 = (Queue.ofCapacity 1).append (.result data) ∧
      ¬ (server.handleText 0 text 0).hub.isConnected 0 ∧
      (server.handleText 0 text 0).hub.queues 1 = (Queue.ofCapacity 1).append (.update data) ∧
      (server.handleText 0 text 0).hub.isConnected 1) ∧
    (server.handleText 0 few 0).hub.queues 0 =
      (Queue.ofCapacity 1).append
        (.error "Invalid request: num_points 5 is out of range [10, 10000]") ∧
    (server.handleText 0 few 0).hub.isConnected 0 := by
  intro server text few
  have hseparate : server.hub.Separate := ⟨by decide, by decide⟩
  have hsender : (0, 0) ∈ server.hub.connections := by decide
  constructor
  · obtain ⟨-, hanswer, -⟩ := handleText_effect hseparate hsender 0 text
    obtain ⟨data, hdata⟩ : ∃ data, server.integrateText 0 text = .ok data := by
      have hok : (server.integrateText 0 text).toBool := by decide +kernel
      cases houtcome : server.integrateText 0 text with
      | ok data => exact ⟨data, rfl⟩
      | error fault => simp [houtcome, Except.toBool] at hok
    obtain ⟨hroom, hothers, -⟩ := hanswer data hdata
    obtain ⟨hqueue, hended⟩ := (hroom rfl).2.1 rfl
    obtain ⟨hother, hstays⟩ := hothers 1 1 (by decide) (by decide)
    exact ⟨data, hdata, hqueue, hended, hother, hstays⟩
  · obtain ⟨hfault, -⟩ := handleText_effect hseparate hsender 0 few
    have htold : (verdict (server.integrateText 0 few)).mapError Error.message =
        .error "Invalid request: num_points 5 is out of range [10, 10000]" := by decide +kernel
    obtain ⟨fault, hverdict, hmessage⟩ := mapError_eq_error_iff.mp htold
    have hfew := verdict_eq_error_iff.mp hverdict
    rw [hfault fault hfew, hmessage]
    exact ⟨rfl, rfl⟩

end Server

end DefiniteIntegral
