import DefiniteIntegral.Proofs.Server.History

/-! # Delivery of broadcasts

A registration gets the broadcasts from its start to its end, all of them in their order, whatever
else happens to the hub. -/

namespace DefiniteIntegral

variable {μ : Type}

/-! ## Runs and traces -/

/-- The queues that operations register, in their order. -/
def connectedQueues (operations : List (Operation μ)) : List QueueId :=
  operations.filterMap Operation.connected?

section Runs

variable {hub : Hub μ} {place : Nat} {operation : Operation μ}
  {operations earlier later : List (Operation μ)} {connection : ConnectionId} {queue : QueueId}
  {queues : List QueueId} {event : Event μ}

theorem filterMap_cons_toList {α β : Type} (f : α → Option β) (x : α) (xs : List α) :
    (x :: xs).filterMap f = (f x).toList ++ xs.filterMap f := by
  rw [List.filterMap_cons]
  cases f x <;> rfl

/-- What only some steps set is, after a run, what the last one of these has set. -/
theorem get_foldl {σ α β : Type} {step : σ → α → σ} {get : σ → β} {set? : α → Option β}
    (h : ∀ s x, get (step s x) = (set? x).getD (get s)) (s : σ) (xs : List α) :
    get (xs.foldl step s) = (xs.filterMap set?).getLast?.getD (get s) := by
  induction xs generalizing s with
  | nil => rfl
  | cons x xs ih =>
      rw [List.foldl_cons, ih, h, filterMap_cons_toList, List.getLast?_append]
      cases set? x <;> simp

theorem connectedQueues_cons :
    connectedQueues (operation :: operations) =
      operation.connected?.toList ++ connectedQueues operations :=
  filterMap_cons_toList _ _ _

theorem Hub.run_append : hub.run (earlier ++ later) = (hub.run earlier).run later :=
  List.foldl_append

theorem Hub.trace_append :
    hub.trace place (earlier ++ later) =
      hub.trace place earlier ++ (hub.run earlier).trace (place + earlier.length) later := by
  induction earlier generalizing hub place with
  | nil => rfl
  | cons operation earlier ih =>
      rw [List.cons_append, trace, trace, ih, List.cons_append, List.length_cons,
        Nat.add_right_comm]
      rfl

theorem Hub.enumerated_empty : (Hub.empty : Hub μ).Enumerated where
  connections_nodup := List.nodup_nil
  lt_nextConnection := by simp [empty]

theorem Hub.Enumerated.run (h : hub.Enumerated) (operations : List (Operation μ)) :
    (hub.run operations).Enumerated := by
  induction operations generalizing hub with
  | nil => exact h
  | cons operation operations ih => exact ih h.apply

theorem Hub.Consistent.run (h : hub.Consistent (connectedQueues (earlier ++ later))) :
    (hub.run earlier).Consistent (connectedQueues later) := by
  induction earlier generalizing hub with
  | nil => exact h
  | cons operation earlier ih =>
      rw [List.cons_append, connectedQueues_cons] at h
      exact ih h.apply

theorem Hub.Consistent.of_mem_trace (h : hub.Consistent (connectedQueues operations))
    {event : Event μ} (hmem : event ∈ hub.trace place operations) :
    ∃ later, event.hub.Consistent later := by
  induction operations generalizing hub place with
  | nil => cases hmem
  | cons operation operations ih =>
      rw [connectedQueues_cons] at h
      rcases List.mem_cons.mp hmem with rfl | hmem
      · exact ⟨_, h⟩
      · exact ih h.apply hmem

theorem Hub.consistent_empty {queues : List QueueId} (h : queues.Nodup) :
    (Hub.empty : Hub μ).Consistent queues where
  connections_nodup := enumerated_empty.connections_nodup
  lt_nextConnection := enumerated_empty.lt_nextConnection
  queues_nodup := h
  unopened := fun _ _ => rfl

theorem arrivals_cons {event : Event μ} {trace : List (Event μ)} :
    arrivals queue (event :: trace) = event.arrivals queue ++ arrivals queue trace :=
  List.flatMap_cons

theorem arrivals_append {first second : List (Event μ)} :
    arrivals queue (first ++ second) = arrivals queue first ++ arrivals queue second :=
  List.flatMap_append

theorem readings_cons {event : Event μ} {trace : List (Event μ)} :
    readings queue (event :: trace) = (event.read? queue).toList ++ readings queue trace :=
  filterMap_cons_toList _ _ _

theorem fromBroadcasts_append {first second : List (Option Nat × μ)} :
    fromBroadcasts (first ++ second) = fromBroadcasts first ++ fromBroadcasts second :=
  List.filterMap_append

/-! ## Frames -/

/-- A queue that is not registered and never will be gets no broadcasts. -/
theorem fromBroadcasts_arrivals_eq_nil (h : hub.Consistent (connectedQueues operations))
    (hnow : queue ∉ hub.connections.map Prod.snd) (hlater : queue ∉ connectedQueues operations) :
    fromBroadcasts (arrivals queue (hub.trace place operations)) = [] := by
  induction operations generalizing hub place with
  | nil => rfl
  | cons operation operations ih =>
      rw [connectedQueues_cons] at h hlater
      have hnew := fun hmem => hlater (List.mem_append_left _ hmem)
      have hthen : queue ∉ (hub.apply operation).connections.map Prod.snd := by
        intro hmem
        obtain ⟨entry, hentry, rfl⟩ := List.mem_map.mp hmem
        rcases (h.mem_connections_apply place).mp hentry with ⟨hold, -⟩ | ⟨-, hconnected⟩
        · exact hnow (List.mem_map_of_mem hold)
        · exact hnew (Option.mem_toList.mpr hconnected)
      have hnever := fun hmem => hlater (List.mem_append_right _ hmem)
      rw [Hub.trace, arrivals_cons, fromBroadcasts_append, ih h.apply hthen hnever,
        Event.fromBroadcasts_arrivals_of_not_registered hnow]
      rfl

/-- A registered queue gets the broadcasts up to the end of its registration. -/
theorem fromBroadcasts_arrivals_of_mem (h : hub.Consistent (connectedQueues operations))
    (hmem : (connection, queue) ∈ hub.connections) :
    fromBroadcasts (arrivals queue (hub.trace place operations)) =
      ((hub.trace place operations).takeWhile (!Event.ends · connection queue)).filterMap
        Event.broadcast? := by
  induction operations generalizing hub place with
  | nil => rfl
  | cons operation operations ih =>
      rw [connectedQueues_cons] at h
      rw [Hub.trace, arrivals_cons, fromBroadcasts_append,
        Event.fromBroadcasts_arrivals_of_registered h hmem]
      by_cases hends : Event.ends ⟨place, hub, operation⟩ connection queue
      · have hgone := h.not_registered_of_ends hmem hends
        have hlater := fun hlater => h.not_mem_later hmem (List.mem_append_right _ hlater)
        rw [if_pos hends, fromBroadcasts_arrivals_eq_nil h.apply hgone hlater,
          List.takeWhile_cons_of_neg (by simp [hends])]
        rfl
      · have hstill := (h.mem_connections_apply place).mpr (Or.inl ⟨hmem, hends⟩)
        rw [if_neg hends, ih h.apply hstill, List.takeWhile_cons_of_pos (by simp [hends]),
          filterMap_cons_toList]

/-! ## Registrations -/

theorem Hub.Consistent.not_mem_run (h : hub.Consistent (connectedQueues operations))
    {entry : ConnectionId × QueueId} (hold : entry.1 < hub.nextConnection)
    (hnot : entry ∉ hub.connections) : entry ∉ (hub.run operations).connections := by
  induction operations generalizing hub with
  | nil => exact hnot
  | cons operation operations ih =>
      rw [connectedQueues_cons] at h
      refine ih h.apply ?_ ?_
      · rw [nextConnection_apply]
        exact Nat.lt_add_right _ hold
      · intro hmem
        rcases (h.mem_connections_apply 0).mp hmem with ⟨hin, -⟩ | ⟨hnew, -⟩
        · exact hnot hin
        · exact Nat.ne_of_lt hold hnew

/-- A registration is in force as long as nothing has ended it. -/
theorem Hub.Consistent.mem_run_iff (h : hub.Consistent (connectedQueues operations))
    {entry : ConnectionId × QueueId} (hmem : entry ∈ hub.connections) :
    entry ∈ (hub.run operations).connections ↔
      ∀ event ∈ hub.trace place operations, ¬ event.ends entry.1 entry.2 := by
  induction operations generalizing hub place with
  | nil => exact iff_of_true hmem (by simp [trace])
  | cons operation operations ih =>
      rw [connectedQueues_cons] at h
      rw [trace, List.forall_mem_cons]
      by_cases hends : Event.ends ⟨place, hub, operation⟩ entry.1 entry.2
      · have hold : entry.1 < (hub.apply operation).nextConnection := by
          rw [nextConnection_apply]
          exact Nat.lt_add_right _ (h.lt_nextConnection entry hmem)
        have hnot : entry ∉ (hub.apply operation).connections := fun hin =>
          h.not_registered_of_ends hmem hends (List.mem_map_of_mem hin)
        exact iff_of_false (h.apply.not_mem_run hold hnot) fun hall => hall.1 hends
      · have hstill := (h.mem_connections_apply place).mpr (Or.inl ⟨hmem, hends⟩)
        exact (ih h.apply hstill).trans (iff_and_self.mpr fun _ => hends)

/-- Whoever is registered has been so from the beginning, or has been registered since. -/
theorem Hub.Consistent.exists_connect_of_mem_run (h : hub.Consistent (connectedQueues operations))
    {entry : ConnectionId × QueueId} (hmem : entry ∈ (hub.run operations).connections) :
    entry ∈ hub.connections ∨
      ∃ earlier later, operations = earlier ++ .connect entry.2 :: later ∧
        (hub.run earlier).nextConnection = entry.1 := by
  induction operations generalizing hub with
  | nil => exact Or.inl hmem
  | cons operation operations ih =>
      rw [connectedQueues_cons] at h
      rcases ih h.apply hmem with hnow | ⟨earlier, later, rfl, hnext⟩
      · rcases (h.mem_connections_apply 0).mp hnow with ⟨hin, -⟩ | ⟨hnew, hconnected⟩
        · exact Or.inl hin
        · obtain rfl := Operation.connected?_eq_some_iff.mp hconnected
          exact Or.inr ⟨[], operations, rfl, hnew.symm⟩
      · exact Or.inr ⟨operation :: earlier, later, rfl, hnext⟩

/-! ## Counting -/

/-- A broadcast tells how many queues it was put into. -/
theorem Event.encard_gained (h : event.hub.Consistent queues) {message : μ}
    (hoperation : event.operation = .broadcast message) :
    {queue | event.gained queue ≠ []}.encard = (event.hub.broadcast message).1 := by
  have hset : {queue | event.gained queue ≠ []} =
      ((ready event.hub.queues event.hub.connections).map Prod.snd).toFinset := by
    ext queue
    simp only [Set.mem_ofPred_eq, Event.gained_ne_nil_iff h hoperation, List.coe_toFinset,
      List.mem_map, ready, List.mem_filter]
    constructor
    · rintro ⟨⟨entry, hmem, rfl⟩, haccepts⟩
      exact ⟨entry, ⟨hmem, haccepts⟩, rfl⟩
    · rintro ⟨entry, ⟨hmem, haccepts⟩, rfl⟩
      exact ⟨⟨entry, hmem, rfl⟩, haccepts⟩
  have hnodup : ((ready event.hub.queues event.hub.connections).map Prod.snd).Nodup :=
    (List.filter_sublist.map Prod.snd).nodup h.separate.queues_nodup
  rw [hset, Set.encard_coe_eq_coe_finsetCard, List.toFinset_card_of_nodup hnodup,
    List.length_map, Hub.broadcast, deliver_count h.separate.queues_nodup]

/-! ## Reading -/

theorem readings_eq_nil_of_left (hopened : queue < hub.nextQueue)
    (hleft : (hub.queues queue).hasReader = false) :
    readings queue (hub.trace place operations) = [] := by
  induction operations generalizing hub place with
  | nil => rfl
  | cons operation operations ih =>
      have hstill : queue < (hub.apply operation).nextQueue := by
        rw [Hub.nextQueue_apply]
        exact Nat.lt_add_right _ hopened
      have hread : Event.read? ⟨place, hub, operation⟩ queue = none :=
        Event.read?_eq_none_of_left hleft
      rw [Hub.trace, readings_cons, hread, ih hstill (Hub.hasReader_apply hopened hleft)]
      rfl

/-- A reader gets what was in the queue, and then what the queue gained, in its order. -/
theorem readings_isPrefix (h : hub.Consistent (connectedQueues operations)) :
    readings queue (hub.trace place operations) <+:
      (hub.queues queue).messages ++
        (arrivals queue (hub.trace place operations)).map Prod.snd := by
  induction operations generalizing hub place with
  | nil => exact List.nil_prefix
  | cons operation operations ih =>
      rw [connectedQueues_cons] at h
      rw [Hub.trace, readings_cons, arrivals_cons, List.map_append, Event.map_snd_arrivals]
      by_cases hleaves : operation = .dropReader queue ∧ queue < hub.nextQueue
      · obtain ⟨rfl, hopened⟩ := hleaves
        have hleft : ((hub.dropReader queue).queues queue).hasReader = false := by
          simp [Hub.dropReader, Queue.leave]
        have hnone : readings queue ((hub.dropReader queue).trace (place + 1) operations) = [] :=
          readings_eq_nil_of_left hopened hleft
        rw [Hub.apply, hnone]
        exact List.nil_prefix
      · have hmessages := Event.messages_append_gained ⟨place, hub, operation⟩ h
          fun hdrop => Nat.not_lt.mp fun hopened => hleaves ⟨hdrop, hopened⟩
        rw [← List.append_assoc, hmessages, List.append_assoc]
        exact (List.prefix_append_right_inj _).mpr (ih h.apply)

/-! ## Order -/

theorem le_place_of_mem_trace {event : Event μ} (h : event ∈ hub.trace place operations) :
    place ≤ event.place := by
  induction operations generalizing hub place with
  | nil => cases h
  | cons operation operations ih =>
      rcases List.mem_cons.mp h with rfl | hmem
      · exact Nat.le_refl _
      · exact Nat.le_of_succ_le (ih hmem)

theorem pairwise_place :
    (hub.trace place operations).Pairwise fun first second => first.place < second.place := by
  induction operations generalizing hub place with
  | nil => exact List.Pairwise.nil
  | cons operation operations ih =>
      exact List.Pairwise.cons (fun event hmem => le_place_of_mem_trace hmem) ih

theorem pairwise_broadcasts :
    ((hub.trace place operations).filterMap Event.broadcast?).Pairwise
      fun first second => first.1 < second.1 := by
  refine pairwise_place.filterMap _ ?_
  intro first second hlt stamped hstamped other hother
  rw [← (Event.broadcast?_eq_some_iff.mp hstamped).2, ← (Event.broadcast?_eq_some_iff.mp hother).2]
  exact hlt

theorem fromBroadcasts_arrivals_sublist (h : hub.Consistent (connectedQueues operations)) :
    (fromBroadcasts (arrivals queue (hub.trace place operations))).Sublist
      ((hub.trace place operations).filterMap Event.broadcast?) := by
  induction operations generalizing hub place with
  | nil => exact List.nil_sublist _
  | cons operation operations ih =>
      rw [connectedQueues_cons] at h
      rw [Hub.trace, arrivals_cons, fromBroadcasts_append, filterMap_cons_toList]
      exact (Event.fromBroadcasts_arrivals_sublist h).append (ih h.apply)

/-- What the reader of a queue got, with the places of the broadcasts. -/
def received (queue : QueueId) (trace : List (Event μ)) : List (Option Nat × μ) :=
  (arrivals queue trace).take (readings queue trace).length

theorem received_sublist (h : hub.Consistent (connectedQueues operations)) :
    (fromBroadcasts (received queue (hub.trace place operations))).Sublist
      ((hub.trace place operations).filterMap Event.broadcast?) :=
  ((List.take_sublist _ _).filterMap _).trans (fromBroadcasts_arrivals_sublist h)

/-- Two members of a list with rising places stand in it in the order of these. -/
theorem pair_sublist_of_lt {stamped : List (Nat × μ)}
    (h : stamped.Pairwise fun first second => first.1 < second.1) {first second : Nat × μ}
    (hfirst : first ∈ stamped) (hsecond : second ∈ stamped) (hlt : first.1 < second.1) :
    [first, second].Sublist stamped := by
  obtain ⟨before, after, rfl⟩ := List.append_of_mem hfirst
  obtain ⟨-, hafter, hbefore⟩ := List.pairwise_append.mp h
  rcases List.mem_append.mp hsecond with hmem | hmem
  · exact absurd hlt (Nat.lt_asymm (hbefore second hmem first List.mem_cons_self))
  · rcases List.mem_cons.mp hmem with rfl | hmem
    · exact absurd hlt (Nat.lt_irrefl _)
    · exact ((List.singleton_sublist.mpr hmem).cons_cons first).trans
        (List.sublist_append_right before _)

/-- Whichever two broadcasts two readers got, they got them in the same order. -/
theorem received_order (h : hub.Consistent (connectedQueues operations)) {other : QueueId}
    {first second : Nat × μ}
    (hpair : [first, second].Sublist
      (fromBroadcasts (received queue (hub.trace place operations))))
    (hfirst : first ∈ fromBroadcasts (received other (hub.trace place operations)))
    (hsecond : second ∈ fromBroadcasts (received other (hub.trace place operations))) :
    [first, second].Sublist (fromBroadcasts (received other (hub.trace place operations))) := by
  have hrising := pairwise_broadcasts.sublist (hpair.trans (received_sublist h))
  exact pair_sublist_of_lt (pairwise_broadcasts.sublist (received_sublist h)) hfirst hsecond
    (List.rel_of_pairwise_cons hrising (List.mem_singleton_self second))

end Runs

/-! ## Registrations of a run -/

/-- A registration in a run: the operations before it, its queue, and the operations after it. -/
structure Registration (operations : List (Operation μ)) where
  earlier : List (Operation μ)
  queue : QueueId
  later : List (Operation μ)
  operations_eq : operations = earlier ++ .connect queue :: later

namespace Registration

variable {operations : List (Operation μ)} (registration : Registration operations)

/-- The number that a registration gets. -/
def connection : ConnectionId :=
  ((Hub.empty.run registration.earlier).connect registration.queue).1

/-- The hub that a registration leaves. -/
def hub : Hub μ :=
  ((Hub.empty.run registration.earlier).connect registration.queue).2

/-- What happens after a registration. -/
def aftermath : List (Event μ) :=
  registration.hub.trace (registration.earlier.length + 1) registration.later

/-- What happens after a registration and before its end. -/
def inForce : List (Event μ) :=
  registration.aftermath.takeWhile (!Event.ends · registration.connection registration.queue)

theorem run_eq : Hub.empty.run operations = registration.hub.run registration.later :=
  (congrArg Hub.empty.run registration.operations_eq).trans Hub.run_append

theorem trace_eq :
    Hub.empty.trace 0 operations =
      Hub.empty.trace 0 registration.earlier ++
        ⟨registration.earlier.length, Hub.empty.run registration.earlier,
          .connect registration.queue⟩ :: registration.aftermath := by
  refine (congrArg (Hub.empty.trace 0) registration.operations_eq).trans ?_
  rw [Hub.trace_append, Nat.zero_add]
  rfl

theorem mem_connections :
    (registration.connection, registration.queue) ∈ registration.hub.connections :=
  List.mem_append_right _ List.mem_cons_self

section

variable {registration} (h : (connectedQueues operations).Nodup)
include h

theorem connectedQueues_nodup :
    (connectedQueues registration.earlier ++
      registration.queue :: connectedQueues registration.later).Nodup := by
  have hqueues := congrArg connectedQueues registration.operations_eq
  rwa [hqueues, connectedQueues, List.filterMap_append] at h

theorem consistent_earlier :
    (Hub.empty.run registration.earlier).Consistent
      (registration.queue :: connectedQueues registration.later) := by
  have hempty : (Hub.empty : Hub μ).Consistent
      (connectedQueues (registration.earlier ++ .connect registration.queue ::
        registration.later)) :=
    Hub.consistent_empty (registration.operations_eq ▸ h)
  exact hempty.run

theorem consistent : registration.hub.Consistent (connectedQueues registration.later) := by
  have hearlier : (Hub.empty.run registration.earlier).Consistent
      ((Operation.connect registration.queue : Operation μ).connected?.toList ++
        connectedQueues registration.later) := consistent_earlier h
  exact hearlier.apply

/-- A queue gets the broadcasts from its registration to the end of that. -/
theorem fromBroadcasts_arrivals :
    fromBroadcasts (arrivals registration.queue (Hub.empty.trace 0 operations)) =
      registration.inForce.filterMap Event.broadcast? := by
  obtain ⟨hearlier, -, hnew⟩ := List.nodup_append.mp (connectedQueues_nodup h)
  have hbefore : fromBroadcasts
      (arrivals registration.queue (Hub.empty.trace 0 registration.earlier)) = [] :=
    fromBroadcasts_arrivals_eq_nil (Hub.consistent_empty hearlier) (List.not_mem_nil)
      fun hmem => hnew _ hmem _ List.mem_cons_self rfl
  have hconnect : fromBroadcasts (Event.arrivals ⟨registration.earlier.length,
      Hub.empty.run registration.earlier, .connect registration.queue⟩ registration.queue) = [] :=
    Event.fromBroadcasts_arrivals_of_not_broadcast rfl
  rw [registration.trace_eq, arrivals_append, arrivals_cons, fromBroadcasts_append,
    fromBroadcasts_append, hbefore, hconnect]
  exact fromBroadcasts_arrivals_of_mem (consistent h) registration.mem_connections

end

end Registration

/-- Who is registered at the end: those whose registration nothing has ended. -/
theorem Hub.isConnected_run_iff {operations : List (Operation μ)} {connection : ConnectionId}
    (h : (connectedQueues operations).Nodup) :
    (empty.run operations).isConnected connection ↔
      ∃ registration : Registration operations, registration.connection = connection ∧
        ∀ event ∈ registration.aftermath,
          ¬ event.ends registration.connection registration.queue := by
  rw [isConnected_iff]
  constructor
  · rintro ⟨queue, hmem⟩
    rcases (consistent_empty h).exists_connect_of_mem_run hmem with
      hempty | ⟨earlier, later, heq, rfl⟩
    · cases hempty
    · let registration : Registration operations := ⟨earlier, queue, later, heq⟩
      rw [registration.run_eq] at hmem
      exact ⟨registration, rfl,
        ((Registration.consistent h).mem_run_iff registration.mem_connections).mp hmem⟩
  · rintro ⟨registration, rfl, hnone⟩
    refine ⟨registration.queue, ?_⟩
    rw [registration.run_eq]
    exact ((Registration.consistent h).mem_run_iff registration.mem_connections).mpr hnone

end DefiniteIntegral
