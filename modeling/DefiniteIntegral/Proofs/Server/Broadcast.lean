import DefiniteIntegral.Server.Hub
import Mathlib.Data.List.Nodup

/-! # One broadcast

What a broadcast does to a hub: a queue takes a copy for each of its registrations as long as it has
room and a reader. If the registrations have queues of their own, every queue that has room and a
reader gains the message once, and the other registrations are dropped. -/

namespace DefiniteIntegral

variable {μ : Type}

/-! ## Queues -/

/-- Whether a queue can take a message: it has room, and its reader is there. -/
def Queue.accepts (queue : Queue μ) : Bool :=
  queue.hasReader && decide (queue.messages.length < queue.capacity)

/-- A queue with one more message at its end. -/
def Queue.append (queue : Queue μ) (message : μ) : Queue μ :=
  { queue with messages := queue.messages ++ [message] }

/-- How many messages a queue has room for. -/
def Queue.room (queue : Queue μ) : Nat :=
  queue.capacity - queue.messages.length

/-- How many messages a queue would take one after another: none once its reader has left. -/
def Queue.space (queue : Queue μ) : Nat :=
  if queue.hasReader then queue.room else 0

/-- A queue with copies of a message at its end. -/
def Queue.fill (queue : Queue μ) (copies : Nat) (message : μ) : Queue μ :=
  { queue with messages := queue.messages ++ List.replicate copies message }

namespace Queue

variable {queue : Queue μ} {message : μ}

theorem push?_eq (queue : Queue μ) (message : μ) :
    queue.push? message = if queue.accepts then some (queue.append message) else none := by
  simp [push?, accepts, append]

theorem accepts_iff : queue.accepts ↔ queue.hasReader ∧ 0 < queue.room := by
  rw [accepts, Bool.and_eq_true, decide_eq_true_iff, room, Nat.sub_pos_iff_lt]

theorem accepts_iff_space : queue.accepts ↔ 0 < queue.space := by
  rw [accepts_iff, space]
  split <;> simp [*]

theorem room_append : (queue.append message).room = queue.room - 1 := by
  simp only [append, room, List.length_append, List.length_singleton]
  omega

theorem space_append : (queue.append message).space = queue.space - 1 := by
  have hreader : (queue.append message).hasReader = queue.hasReader := rfl
  rw [space, space, hreader, room_append]
  split <;> simp

@[simp] theorem fill_zero : queue.fill 0 message = queue := by
  simp [fill]

theorem fill_one : queue.fill 1 message = queue.append message := rfl

theorem fill_append (copies : Nat) :
    (queue.append message).fill copies message = queue.fill (copies + 1) message := by
  simp [fill, append, List.replicate_succ]

end Queue

@[simp] theorem Queues.put_self (queues : Queues μ) (id : QueueId) (queue : Queue μ) :
    queues.put id queue id = queue := by
  simp [put]

theorem Queues.put_of_ne (queues : Queues μ) {id other : QueueId} (queue : Queue μ)
    (h : other ≠ id) : queues.put id queue other = queues other := by
  simp [put, h]

@[simp] theorem Queues.put_queue (queues : Queues μ) (id : QueueId) :
    queues.put id (queues id) = queues := by
  funext other
  rcases eq_or_ne other id with rfl | hne
  · exact queues.put_self other (queues other)
  · exact queues.put_of_ne (queues id) hne

/-! ## Delivering to a list of registrations -/

section Deliver

variable {message : μ} {queues : Queues μ} {entries : List (ConnectionId × QueueId)}

/-- The registrations whose queue can take a message. -/
def ready (queues : Queues μ) (entries : List (ConnectionId × QueueId)) :
    List (ConnectionId × QueueId) :=
  entries.filter fun entry => (queues entry.2).accepts

/-- A queue that no registration of a list has plays no part in who of the list is ready. -/
theorem ready_put {id : QueueId} {queue : Queue μ} (h : id ∉ entries.map Prod.snd) :
    ready (queues.put id queue) entries = ready queues entries := by
  apply List.filter_congr
  intro entry hentry
  have hne : entry.2 ≠ id := fun he => h (he ▸ List.mem_map_of_mem hentry)
  rw [Queues.put_of_ne queues queue hne]

theorem deliver_cons_of_accepts {entry : ConnectionId × QueueId}
    (h : (queues entry.2).accepts) :
    deliver message queues (entry :: entries) =
      let later := deliver message (queues.put entry.2 ((queues entry.2).append message)) entries
      { later with count := later.count + 1 } := by
  simp only [deliver, Queue.push?_eq, h, ↓reduceIte]

theorem deliver_cons_of_not_accepts {entry : ConnectionId × QueueId}
    (h : ¬ (queues entry.2).accepts) :
    deliver message queues (entry :: entries) =
      let later := deliver message queues entries
      { later with failed := entry.1 :: later.failed } := by
  simp only [deliver, Queue.push?_eq, h, Bool.false_eq_true, ↓reduceIte]

/-- A queue takes a copy for each of its registrations, as long as it would take one. -/
theorem queues_deliver (id : QueueId) :
    (deliver message queues entries).queues id =
      (queues id).fill (min ((entries.map Prod.snd).count id) (queues id).space) message := by
  induction entries generalizing queues with
  | nil => simp [deliver]
  | cons entry entries ih =>
      by_cases haccepts : (queues entry.2).accepts
      · rw [deliver_cons_of_accepts haccepts]
        dsimp only
        rw [ih]
        rcases eq_or_ne id entry.2 with rfl | hne
        · have hspace := Queue.accepts_iff_space.mp haccepts
          rw [Queues.put_self, Queue.fill_append, Queue.space_append, List.map_cons,
            List.count_cons_self]
          congr 1
          omega
        · simp [Queues.put_of_ne queues _ hne, hne.symm]
      · rw [deliver_cons_of_not_accepts haccepts]
        dsimp only
        rw [ih]
        rcases eq_or_ne id entry.2 with rfl | hne
        · have hspace : (queues entry.2).space = 0 := by
            simpa [Queue.accepts_iff_space] using haccepts
          simp [hspace]
        · simp [hne.symm]

/-- A queue that is not there, or cannot take the message, stays as it is. -/
theorem deliver_queues_of_not_accepts {id : QueueId}
    (h : id ∈ entries.map Prod.snd → ¬ (queues id).accepts) :
    (deliver message queues entries).queues id = queues id := by
  rw [queues_deliver]
  by_cases hmem : id ∈ entries.map Prod.snd
  · have hspace : (queues id).space = 0 := by
      simpa [Queue.accepts_iff_space] using h hmem
    simp [hspace]
  · simp [List.count_eq_zero_of_not_mem hmem]

/-- A queue that can take the message gains it once. -/
theorem deliver_queues_of_accepts (h : (entries.map Prod.snd).Nodup) {id : QueueId}
    (hmem : id ∈ entries.map Prod.snd) (haccepts : (queues id).accepts) :
    (deliver message queues entries).queues id = (queues id).append message := by
  have hspace := Queue.accepts_iff_space.mp haccepts
  rw [queues_deliver, List.count_eq_one_of_mem h hmem, Nat.min_eq_left hspace, Queue.fill_one]

/-- Delivering takes nothing out of a queue. -/
theorem messages_isPrefix_deliver {id : QueueId} :
    (queues id).messages <+: ((deliver message queues entries).queues id).messages := by
  rw [queues_deliver]
  exact List.prefix_append _ _

theorem deliver_count (h : (entries.map Prod.snd).Nodup) :
    (deliver message queues entries).count = (ready queues entries).length := by
  induction entries generalizing queues with
  | nil => rfl
  | cons entry entries ih =>
      obtain ⟨hnotin, hnodup⟩ := List.nodup_cons.mp h
      by_cases haccepts : (queues entry.2).accepts
      · simp only [deliver_cons_of_accepts haccepts, ih hnodup, ready_put hnotin]
        simp [ready, haccepts]
      · simp only [deliver_cons_of_not_accepts haccepts, ih hnodup]
        simp [ready, haccepts]

theorem mem_deliver_failed (h : (entries.map Prod.snd).Nodup) {connection : ConnectionId} :
    connection ∈ (deliver message queues entries).failed ↔
      ∃ id, (connection, id) ∈ entries ∧ ¬ (queues id).accepts := by
  induction entries generalizing queues with
  | nil => simp [deliver]
  | cons entry entries ih =>
      obtain ⟨hnotin, hnodup⟩ := List.nodup_cons.mp h
      by_cases haccepts : (queues entry.2).accepts
      · simp only [deliver_cons_of_accepts haccepts, ih hnodup, List.mem_cons]
        constructor
        · rintro ⟨id, hmem, hid⟩
          have hne : id ≠ entry.2 := fun he => hnotin (he ▸ List.mem_map_of_mem hmem)
          exact ⟨id, Or.inr hmem, by rwa [Queues.put_of_ne queues _ hne] at hid⟩
        · rintro ⟨id, rfl | hmem, hid⟩
          · exact absurd haccepts hid
          · have hne : id ≠ entry.2 := fun he => hnotin (he ▸ List.mem_map_of_mem hmem)
            exact ⟨id, hmem, by rwa [Queues.put_of_ne queues _ hne]⟩
      · simp only [deliver_cons_of_not_accepts haccepts, List.mem_cons, ih hnodup]
        constructor
        · rintro (rfl | ⟨id, hmem, hid⟩)
          · exact ⟨entry.2, Or.inl rfl, haccepts⟩
          · exact ⟨id, Or.inr hmem, hid⟩
        · rintro ⟨id, rfl | hmem, hid⟩
          · exact Or.inl rfl
          · exact Or.inr ⟨id, hmem, hid⟩

end Deliver

/-! ## Delivering to a hub -/

namespace Hub

/-- Every registration has a number and a queue of its own. -/
structure Separate (hub : Hub μ) : Prop where
  connections_nodup : (hub.connections.map Prod.fst).Nodup
  queues_nodup : (hub.connections.map Prod.snd).Nodup

namespace Separate

variable {hub : Hub μ} {message : μ} {connection other : ConnectionId} {queue : QueueId}

/-- A registration has one queue. -/
theorem queue_unique (h : hub.Separate) {other : QueueId}
    (hqueue : (connection, queue) ∈ hub.connections)
    (hother : (connection, other) ∈ hub.connections) : queue = other :=
  congrArg Prod.snd (List.inj_on_of_nodup_map h.connections_nodup hqueue hother rfl)

/-- A queue has one registration. -/
theorem connection_unique (h : hub.Separate) (hconnection : (connection, queue) ∈ hub.connections)
    (hother : (other, queue) ∈ hub.connections) : connection = other :=
  congrArg Prod.fst (List.inj_on_of_nodup_map h.queues_nodup hconnection hother rfl)

/-- A broadcast keeps the registrations whose queue can take it. -/
theorem mem_connections_broadcast (h : hub.Separate) {entry : ConnectionId × QueueId} :
    entry ∈ (hub.broadcast message).2.connections ↔
      entry ∈ hub.connections ∧ (hub.queues entry.2).accepts := by
  simp only [broadcast, List.mem_filter, decide_eq_true_eq, mem_deliver_failed h.queues_nodup]
  apply and_congr_right
  intro hmem
  constructor
  · intro hnot
    by_contra haccepts
    exact hnot ⟨entry.2, hmem, haccepts⟩
  · rintro haccepts ⟨queue, hqueue, hnot⟩
    rw [h.queue_unique hqueue hmem] at hnot
    exact hnot haccepts

theorem queues_broadcast_of_accepts (h : hub.Separate)
    (hmem : queue ∈ hub.connections.map Prod.snd) (haccepts : (hub.queues queue).accepts) :
    (hub.broadcast message).2.queues queue = (hub.queues queue).append message :=
  deliver_queues_of_accepts h.queues_nodup hmem haccepts

end Separate

theorem isConnected_iff {hub : Hub μ} {connection : ConnectionId} :
    hub.isConnected connection ↔ ∃ queue, (connection, queue) ∈ hub.connections := by
  simp [isConnected]

theorem queues_broadcast_of_not_accepts {hub : Hub μ} {message : μ} {queue : QueueId}
    (h : queue ∈ hub.connections.map Prod.snd → ¬ (hub.queues queue).accepts) :
    (hub.broadcast message).2.queues queue = hub.queues queue :=
  deliver_queues_of_not_accepts h

/-- Every registration has a number of its own, below the next one that is given. -/
structure Enumerated (hub : Hub μ) : Prop where
  connections_nodup : (hub.connections.map Prod.fst).Nodup
  lt_nextConnection : ∀ entry ∈ hub.connections, entry.1 < hub.nextConnection

/-- What holds of every hub of a run that registers no queue twice. The list has the queues that are
still to be registered. -/
structure Consistent (hub : Hub μ) (later : List QueueId) : Prop where
  connections_nodup : (hub.connections.map Prod.fst).Nodup
  lt_nextConnection : ∀ entry ∈ hub.connections, entry.1 < hub.nextConnection
  queues_nodup : (hub.connections.map Prod.snd ++ later).Nodup
  unopened : ∀ queue, hub.nextQueue ≤ queue → hub.queues queue = .gone

namespace Consistent

variable {hub : Hub μ} {later : List QueueId}

theorem enumerated (h : hub.Consistent later) : hub.Enumerated :=
  ⟨h.connections_nodup, h.lt_nextConnection⟩

theorem separate (h : hub.Consistent later) : hub.Separate :=
  ⟨h.connections_nodup, h.queues_nodup.of_append_left⟩

/-- A registered queue is not registered again. -/
theorem not_mem_later (h : hub.Consistent later) {entry : ConnectionId × QueueId}
    (hmem : entry ∈ hub.connections) : entry.2 ∉ later := fun hlater =>
  (List.nodup_append.mp h.queues_nodup).2.2 entry.2 (List.mem_map_of_mem hmem) entry.2 hlater rfl

end Consistent

end Hub

end DefiniteIntegral
