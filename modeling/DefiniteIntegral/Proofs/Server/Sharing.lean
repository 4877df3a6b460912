import DefiniteIntegral.Proofs.Server.Delivery

/-! # Broadcasts in any order

A queue can have several registrations, which then take its room from one another. Whom a broadcast
serves depends on the order in which it comes to the registrations; how many of them it serves, and
what it leaves in the queues, does not. -/

namespace DefiniteIntegral

variable {μ : Type}

/-! ## Served registrations -/

section Served

variable {message : μ} {queues : Queues μ} {entry : ConnectionId × QueueId}
  {entries : List (ConnectionId × QueueId)}

/-- The registrations of a list that are left when those that could not be served are gone. -/
def served (message : μ) (queues : Queues μ) (entries : List (ConnectionId × QueueId)) :
    List (ConnectionId × QueueId) :=
  entries.filter fun entry => entry.1 ∉ (deliver message queues entries).failed

theorem mem_of_mem_deliver_failed {connection : ConnectionId}
    (h : connection ∈ (deliver message queues entries).failed) :
    connection ∈ entries.map Prod.fst := by
  induction entries generalizing queues with
  | nil => exact h
  | cons entry entries ih =>
      rw [List.map_cons, List.mem_cons]
      by_cases haccepts : (queues entry.2).accepts
      · rw [deliver_cons_of_accepts haccepts] at h
        exact Or.inr (ih h)
      · rw [deliver_cons_of_not_accepts haccepts] at h
        rcases List.mem_cons.mp h with rfl | h
        · exact Or.inl rfl
        · exact Or.inr (ih h)

theorem served_cons_of_accepts (hnew : entry.1 ∉ entries.map Prod.fst)
    (h : (queues entry.2).accepts) :
    served message queues (entry :: entries) =
      entry :: served message (queues.put entry.2 ((queues entry.2).append message)) entries := by
  rw [served, deliver_cons_of_accepts h]
  refine List.filter_cons_of_pos ?_
  simpa using fun hfailed => hnew (mem_of_mem_deliver_failed hfailed)

theorem served_cons_of_not_accepts (hnew : entry.1 ∉ entries.map Prod.fst)
    (h : ¬ (queues entry.2).accepts) :
    served message queues (entry :: entries) = served message queues entries := by
  rw [served, deliver_cons_of_not_accepts h, List.filter_cons_of_neg (by simp)]
  refine List.filter_congr fun other hother => ?_
  have hne : other.1 ≠ entry.1 := fun heq => hnew (heq ▸ List.mem_map_of_mem hother)
  simp [hne]

theorem length_served (h : (entries.map Prod.fst).Nodup) :
    (served message queues entries).length = (deliver message queues entries).count := by
  induction entries generalizing queues with
  | nil => rfl
  | cons entry entries ih =>
      obtain ⟨hnew, hnodup⟩ := List.nodup_cons.mp h
      by_cases haccepts : (queues entry.2).accepts
      · rw [served_cons_of_accepts hnew haccepts, deliver_cons_of_accepts haccepts,
          List.length_cons, ih hnodup]
      · rw [served_cons_of_not_accepts hnew haccepts, deliver_cons_of_not_accepts haccepts,
          ih hnodup]

/-- Of the registrations of a queue as many are served as it takes copies. -/
theorem count_served (h : (entries.map Prod.fst).Nodup) (id : QueueId) :
    ((served message queues entries).map Prod.snd).count id =
      min ((entries.map Prod.snd).count id) (queues id).space := by
  induction entries generalizing queues with
  | nil => simp [served]
  | cons entry entries ih =>
      obtain ⟨hnew, hnodup⟩ := List.nodup_cons.mp h
      by_cases haccepts : (queues entry.2).accepts
      · rw [served_cons_of_accepts hnew haccepts, List.map_cons, List.map_cons]
        rcases eq_or_ne id entry.2 with rfl | hne
        · have hspace := Queue.accepts_iff_space.mp haccepts
          rw [List.count_cons_self, List.count_cons_self, ih hnodup, Queues.put_self,
            Queue.space_append]
          omega
        · rw [List.count_cons_of_ne hne.symm, List.count_cons_of_ne hne.symm, ih hnodup,
            Queues.put_of_ne queues _ hne]
      · rw [served_cons_of_not_accepts hnew haccepts, ih hnodup, List.map_cons]
        rcases eq_or_ne id entry.2 with rfl | hne
        · have hspace : (queues entry.2).space = 0 := by
            simpa [Queue.accepts_iff_space] using haccepts
          simp [hspace]
        · rw [List.count_cons_of_ne hne.symm]

end Served

/-! ## Orders -/

namespace Hub

/-- The hub with its registrations in another order. -/
def inOrder (hub : Hub μ) (order : List (ConnectionId × QueueId)) : Hub μ :=
  { hub with connections := order }

/-- How many registrations a queue has. -/
def share (hub : Hub μ) (queue : QueueId) : Nat :=
  (hub.connections.map Prod.snd).count queue

variable {hub : Hub μ} {order : List (ConnectionId × QueueId)} {message : μ}

theorem share_inOrder (horder : order.Perm hub.connections) (queue : QueueId) :
    (hub.inOrder order).share queue = hub.share queue :=
  (horder.map Prod.snd).count_eq queue

theorem queues_broadcast_inOrder (horder : order.Perm hub.connections) (queue : QueueId) :
    ((hub.inOrder order).broadcast message).2.queues queue =
      (hub.queues queue).fill (min (hub.share queue) (hub.queues queue).space) message := by
  rw [← share_inOrder horder]
  exact queues_deliver queue

theorem share_broadcast_inOrder (h : (hub.connections.map Prod.fst).Nodup)
    (horder : order.Perm hub.connections) (queue : QueueId) :
    ((hub.inOrder order).broadcast message).2.share queue =
      min (hub.share queue) (hub.queues queue).space := by
  rw [← share_inOrder horder]
  exact count_served ((horder.map Prod.fst).nodup_iff.mpr h) queue

/-- A broadcast tells how many registrations it leaves. -/
theorem broadcast_inOrder_fst (h : (hub.connections.map Prod.fst).Nodup)
    (horder : order.Perm hub.connections) :
    ((hub.inOrder order).broadcast message).1 =
      (((hub.inOrder order).broadcast message).2.connections.map Prod.snd).length := by
  rw [List.length_map]
  exact (length_served ((horder.map Prod.fst).nodup_iff.mpr h)).symm

/-- Two orders in which a broadcast can come to the registrations of a hub. It is told to have
reached as many, it leaves the same in the queues, and of the registrations of every queue it leaves
as many: a queue with a reader takes a copy for each of its registrations as long as it has room,
and so many of them are left; a queue without one takes none, and none of them is left. -/
theorem broadcast_in_any_order {first second : List (ConnectionId × QueueId)}
    (h : (hub.connections.map Prod.fst).Nodup) (hfirst : first.Perm hub.connections)
    (hsecond : second.Perm hub.connections) (message : μ) :
    let one := (hub.inOrder first).broadcast message
    let other := (hub.inOrder second).broadcast message
    one.1 = other.1 ∧ one.2.queues = other.2.queues ∧
    (∀ queue, one.2.share queue = other.2.share queue) ∧
    (∀ entry ∈ one.2.connections, entry ∈ hub.connections) ∧
    ∀ queue,
      let copies :=
        if (hub.queues queue).hasReader then min (hub.share queue) (hub.queues queue).room else 0
      one.2.queues queue =
        { hub.queues queue with
          messages := (hub.queues queue).messages ++ List.replicate copies message } ∧
      one.2.share queue = copies := by
  intro one other
  have hshare : ∀ queue, one.2.share queue = other.2.share queue := fun queue => by
    rw [share_broadcast_inOrder h hfirst, share_broadcast_inOrder h hsecond]
  refine ⟨?_, ?_, hshare, ?_, ?_⟩
  · -- The registrations that are left have the same queues, each as often.
    have hperm : (one.2.connections.map Prod.snd).Perm (other.2.connections.map Prod.snd) :=
      List.perm_iff_count.mpr hshare
    rw [broadcast_inOrder_fst h hfirst, broadcast_inOrder_fst h hsecond]
    exact hperm.length_eq
  · funext queue
    rw [queues_broadcast_inOrder hfirst, queues_broadcast_inOrder hsecond]
  · intro entry hentry
    exact hfirst.subset (List.mem_of_mem_filter hentry)
  · intro queue copies
    have hcopies : min (hub.share queue) (hub.queues queue).space = copies := by
      simp only [copies, Queue.space]
      split <;> simp
    rw [queues_broadcast_inOrder hfirst, share_broadcast_inOrder h hfirst, hcopies]
    exact ⟨rfl, rfl⟩

/-- A queue with room for two and three registrations, one with room for one and two registrations,
and one without a reader, visited forwards and backwards. -/
theorem broadcast_in_any_order_backwards :
    let hub : Hub Nat := empty.run [.openQueue 3, .openQueue 1, .openQueue 9, .connect 0,
      .connect 1, .connect 0, .connect 2, .connect 1, .connect 0, .send 0 7, .dropReader 2]
    let one := (hub.inOrder hub.connections).broadcast 8
    let other := (hub.inOrder hub.connections.reverse).broadcast 8
    one.1 = other.1 ∧ one.2.queues = other.2.queues ∧
    (one.2.queues 0).messages = [7, 8, 8] ∧ one.2.share 0 = 2 ∧
    (one.2.queues 1).messages = [8] ∧ one.2.share 1 = 1 ∧
    (one.2.queues 2).messages = [] ∧ one.2.share 2 = 0 := by
  intro hub one other
  have hnodup : (hub.connections.map Prod.fst).Nodup :=
    (enumerated_empty.run _).connections_nodup
  obtain ⟨hcount, hqueues, -, -, hcopies⟩ :=
    broadcast_in_any_order hnodup (List.Perm.refl _) (List.reverse_perm _) 8
  refine ⟨hcount, hqueues, congrArg Queue.messages (hcopies 0).1, (hcopies 0).2,
    congrArg Queue.messages (hcopies 1).1, (hcopies 1).2,
    congrArg Queue.messages (hcopies 2).1, (hcopies 2).2⟩

end Hub

end DefiniteIntegral
