import DefiniteIntegral.Proofs.Server.Interleaving

/-! # Updates among other tasks

Whatever comes in between, an update is offered once to every registration that is in force when it
sets out, and a registration ends only by name, or because it could not take an update. What a
client finds in its queue has been sent to it, answers a request of its own, or is an update. Only
the order of two updates is not the same for all, where both are on their way at the same
time. -/

namespace DefiniteIntegral.Workload

variable {μ : Type} {w middle last : Workload μ} {happening : Happening μ}
  {chronicle earlier later : Chronicle μ} {entry : ConnectionId × QueueId}
  {connection : ConnectionId} {queue : QueueId} {i : ℕ}

/-! ## The way of an update -/

theorem holds_of_mem_ahead {task : Task μ} (h : entry ∈ task.ahead) : task.Holds := by
  cases task with
  | visit => trivial
  | answer => cases h
  | announce => cases h
  | remove => cases h

/-- What an update is still to come to is registered. -/
theorem Run.mem_connections_of_ahead (h : w.Run chronicle last) (hidle : w.tasks = []) :
    ∀ task ∈ last.tasks, ∀ entry ∈ task.ahead, entry ∈ last.hub.connections := by
  induction h with
  | nil => simp [hidle]
  | @snoc before after chronicle happening hrun hstep ih =>
      intro task hmem entry hentry
      -- The registrations have been held by a task that was on its way before.
      have hformer : ∀ task ∈ before.tasks, entry ∈ task.ahead → entry ∈ after.hub.connections := by
        intro task hmem hentry
        rw [hstep.connections_eq ⟨task, hmem, holds_of_mem_ahead hentry⟩]
        exact ih task hmem entry hentry
      rcases hstep.mem_tasks hmem with hbefore | ⟨_, _, _, -, rfl⟩ | ⟨former, hbefore, hsub⟩
      · exact hformer task hbefore hentry
      · cases hentry
      · generalize after.hub = hub at hsub hformer ⊢
        cases hsub with
        | answer => cases hentry
        | start _ horder => exact horder.mem_iff.mp hentry
        | serve => exact hformer _ hbefore (List.mem_cons_of_mem _ hentry)
        | miss => exact hformer _ hbefore (List.mem_cons_of_mem _ hentry)
        | finish => cases hentry
        | remove => cases hentry

/-- What an update comes to is registered. -/
theorem Run.mem_connections_of_visits (h : w.Run chronicle last) (hidle : w.tasks = [])
    {visit : Hub μ × ConnectionId × QueueId} (hvisit : visit ∈ visits i chronicle) :
    visit.2 ∈ visit.1.connections := by
  obtain ⟨moment, hmoment, hhub, task, htask, hahead⟩ := exists_of_mem_visits hvisit
  obtain ⟨_, _, _, -, hrun, -, -⟩ := h.exists_of_mem hmoment
  rw [hhub]
  exact hrun.mem_connections_of_ahead hidle task htask visit.2 hahead

/-- An update that has come to a registration is in its queue if that could take it, and nothing
else has changed. -/
theorem Step.queues_of_visit {update : μ} {ahead : List (ConnectionId × QueueId)}
    {failed : List ConnectionId} {count : ℕ} (h : w.Step (.task i) last)
    (htask : w.tasks[i]? = some (.visit update (entry :: ahead) failed count)) :
    last.hub =
      if (w.hub.queues entry.2).accepts then
        { w.hub with
          queues := w.hub.queues.put entry.2 ((w.hub.queues entry.2).append update) }
      else w.hub := by
  cases h with
  | task hother hstep =>
      obtain rfl := Option.some.inj (htask.symm.trans hother)
      cases hstep with
      | serve hpush =>
          rw [Queue.push?_eq] at hpush
          split at hpush
          · rw [if_pos ‹_›, Option.some.inj hpush]
          · cases hpush
      | miss hpush =>
          rw [Queue.push?_eq] at hpush
          split at hpush
          · cases hpush
          · rw [if_neg ‹_›]

/-- The way of an update that has come to all. The registrations that it has come to are those in
force when it set out, each of them once and while it was in force; it is told how many could take
it; and those that could not are ended, or are still to be. -/
theorem Run.offered_once {failed : List ConnectionId} {count : ℕ} (h : w.Run chronicle last)
    (hidle : w.tasks = []) (htask : last.tasks[i]? = some (.remove failed count)) :
    (∃ moment ∈ chronicle, Begins i moment ∧
      ((visits i chronicle).map Prod.snd).Perm moment.1.hub.connections) ∧
    (∀ visit ∈ visits i chronicle, visit.2 ∈ visit.1.connections) ∧
    count = ((visits i chronicle).filter (Taken ·)).length ∧
    removals i chronicle ++ failed = missed i chronicle := by
  have haccounts := h.accounts hidle i
  rw [htask] at haccounts
  obtain ⟨⟨moment, hmem, hbegins, hperm⟩, hmissed, hcount⟩ := haccounts
  rw [List.append_nil] at hperm
  exact ⟨⟨moment, hmem, hbegins, hperm⟩, fun _ => h.mem_connections_of_visits hidle, hcount,
    hmissed⟩

/-- Two updates on their way at the same time. They come to two queues in opposite orders. -/
theorem exists_run_opposite_orders :
    let hub : Hub ℕ := Hub.empty.run
      [.openQueue 2, .openQueue 2, .openQueue 2, .connect 0, .connect 1]
    ∃ chronicle last, (⟨hub, []⟩ : Workload ℕ).Run chronicle last ∧
      (∀ task ∈ last.tasks, task.IsDone) ∧
      (last.hub.queues 0).messages = [7, 8] ∧ (last.hub.queues 1).messages = [8, 7] := by
  intro hub
  let entries : List (ConnectionId × QueueId) := [(0, 0), (1, 1)]
  have hentries : entries.Perm hub.connections := List.Perm.refl _
  have hasked : (⟨hub, []⟩ : Workload ℕ).Run _ _ :=
    ((Run.nil _).snoc (.request _ 2 5 7)).snoc (.request _ 2 6 8)
  have hanswered := (hasked.snoc (.task (i := 0) rfl (.answer ..))).snoc
    (.task (i := 1) rfl (.answer ..))
  have hstarted := (hanswered.snoc (.task (i := 0) rfl (.start _ _ hentries))).snoc
    (.task (i := 1) rfl (.start _ _ hentries))
  have hvisited := (((hstarted.snoc (.task (i := 0) rfl (.serve rfl ..))).snoc
    (.task (i := 1) rfl (.serve rfl ..))).snoc (.task (i := 1) rfl (.serve rfl ..))).snoc
    (.task (i := 0) rfl (.serve rfl ..))
  have hfinished := (hvisited.snoc (.task (i := 0) rfl (.finish ..))).snoc
    (.task (i := 1) rfl (.finish ..))
  exact ⟨_, _, hfinished, by simp [Task.IsDone], rfl, rfl⟩

/-! ## The end of a registration -/

theorem Step.enumerated (h : w.Step happening last) (hnumbers : w.hub.Enumerated) :
    last.hub.Enumerated := by
  cases h with
  | operation => exact hnumbers.apply
  | request => exact hnumbers
  | task _ hstep =>
      cases hstep with
      | answer reply message =>
          have hsent : (w.hub.apply (.send reply message)).Enumerated := hnumbers.apply
          exact hsent
      | start => exact hnumbers
      | serve => exact ⟨hnumbers.connections_nodup, hnumbers.lt_nextConnection⟩
      | miss => exact hnumbers
      | finish => exact hnumbers
      | remove _ connection =>
          have hremoved : (w.hub.apply (.disconnect connection)).Enumerated := hnumbers.apply
          exact hremoved

theorem Run.enumerated (h : w.Run chronicle last) (hnumbers : w.hub.Enumerated) :
    last.hub.Enumerated := by
  induction h with
  | nil => exact hnumbers
  | snoc _ hstep ih => exact hstep.enumerated ih

theorem Run.lt_of_missed (h : w.Run chronicle last) (hidle : w.tasks = [])
    (hnumbers : w.hub.Enumerated) (hmissed : connection ∈ missed i chronicle) :
    connection < last.hub.nextConnection := by
  obtain ⟨visit, hvisit, rfl⟩ := List.mem_map.mp hmissed
  have hvisit := List.mem_of_mem_filter hvisit
  have hmem := h.mem_connections_of_visits hidle hvisit
  obtain ⟨moment, hmoment, hhub, -⟩ := exists_of_mem_visits hvisit
  obtain ⟨_, _, _, -, hrun, hstep, hlater⟩ := h.exists_of_mem hmoment
  rw [hhub] at hmem
  calc
    visit.2.1 < moment.1.hub.nextConnection := (hrun.enumerated hnumbers).lt_nextConnection _ hmem
    _ ≤ _ := hstep.nextConnection_le
    _ ≤ last.hub.nextConnection := hlater.nextConnection_le

/-- A task ends only registrations that could not take its update. -/
theorem Run.mem_missed_of_remove {failed : List ConnectionId} {count : ℕ}
    (h : w.Run chronicle last) (hidle : w.tasks = [])
    (htask : last.tasks[i]? = some (.remove (connection :: failed) count)) :
    connection ∈ missed i chronicle := by
  obtain ⟨-, -, -, hmissed⟩ := h.offered_once hidle htask
  rw [← hmissed]
  exact List.mem_append_right _ List.mem_cons_self

theorem Run.removals_eq_missed (h : w.Run chronicle last) (hidle : w.tasks = [])
    (hdone : ∀ task ∈ last.tasks, task.IsDone) (i : ℕ) :
    removals i chronicle = missed i chronicle := by
  have haccounts := h.accounts hidle i
  match htask : last.tasks[i]? with
  | none =>
      rw [htask] at haccounts
      rw [haccounts.2, missed, haccounts.1]
      rfl
  | some (.answer ..) => exact (hdone _ (List.mem_of_getElem? htask)).elim
  | some (.announce _) => exact (hdone _ (List.mem_of_getElem? htask)).elim
  | some (.visit ..) => exact (hdone _ (List.mem_of_getElem? htask)).elim
  | some (.remove (_ :: _) _) => exact (hdone _ (List.mem_of_getElem? htask)).elim
  | some (.remove [] _) =>
      rw [htask] at haccounts
      rw [← haccounts.2.1, List.append_nil]

/-- What a task has ended is not in force any more. -/
theorem Run.not_mem_connections_of_removals (h : w.Run chronicle last) (hidle : w.tasks = [])
    (hnumbers : w.hub.Enumerated) (hremoved : entry.1 ∈ removals i chronicle) :
    entry ∉ last.hub.connections := by
  obtain ⟨moment, hmoment, failed, count, hhappening, htask⟩ := mem_removals_iff.mp hremoved
  obtain ⟨_, next, _, -, hrun, hstep, hlater⟩ := h.exists_of_mem hmoment
  have hold := hrun.lt_of_missed hidle hnumbers (hrun.mem_missed_of_remove hidle htask)
  have hgone : entry ∉ next.hub.connections := fun hmem =>
    ((hstep.mem_connections_iff hold).mp hmem).2 (.inr ⟨i, failed, count, hhappening, htask⟩)
  exact fun hmem =>
    hgone ((hlater.mem_connections_iff (hold.trans_le hstep.nextConnection_le)).mp hmem).1

/-- A registration that nobody ends by name, and whose queue can take every update that comes to
it, stays in force. -/
theorem Run.mem_connections_of_not_missed (hearlier : w.Run earlier middle)
    (hlater : middle.Run later last) (hidle : w.tasks = []) (hnumbers : w.hub.Enumerated)
    (hmem : entry ∈ middle.hub.connections)
    (hname : ∀ moment ∈ later, moment.2 ≠ .operation (.disconnect entry.1))
    (hgot : ∀ i, entry.1 ∉ missed i (earlier ++ later)) : entry ∈ last.hub.connections := by
  refine (hlater.mem_connections_iff
    ((hearlier.enumerated hnumbers).lt_nextConnection entry hmem)).mpr ⟨hmem, ?_⟩
  rintro moment hmoment (hends | ⟨i, failed, count, hhappening, htask⟩)
  · exact hname moment hmoment hends
  · obtain ⟨before, _, after, rfl, hrun, -, -⟩ := hlater.exists_of_mem hmoment
    have hmissed := (hearlier.trans hrun).mem_missed_of_remove hidle htask
    refine hgot i ?_
    rw [← List.append_assoc, missed_append]
    exact List.mem_append_left _ hmissed

/-- Once no task has anything left to do, a registration is in force if and only if nobody has
ended it by name and its queue could take every update that has come to it. -/
theorem Run.mem_connections_iff_of_done (hearlier : w.Run earlier middle)
    (hlater : middle.Run later last) (hidle : w.tasks = []) (hnumbers : w.hub.Enumerated)
    (hdone : ∀ task ∈ last.tasks, task.IsDone) (hmem : entry ∈ middle.hub.connections) :
    entry ∈ last.hub.connections ↔
      (∀ moment ∈ later, moment.2 ≠ .operation (.disconnect entry.1)) ∧
        ∀ i, entry.1 ∉ missed i (earlier ++ later) := by
  refine ⟨fun hlast => ?_, fun h =>
    hearlier.mem_connections_of_not_missed hlater hidle hnumbers hmem h.1 h.2⟩
  have hold := (hearlier.enumerated hnumbers).lt_nextConnection entry hmem
  have hnever := ((hlater.mem_connections_iff hold).mp hlast).2
  refine ⟨fun moment hmoment hends => hnever moment hmoment (.inl hends), fun i hmissed => ?_⟩
  have hremoved : entry.1 ∈ removals i (earlier ++ later) := by
    rwa [(hearlier.trans hlater).removals_eq_missed hidle hdone i]
  exact (hearlier.trans hlater).not_mem_connections_of_removals hidle hnumbers hremoved hlast

/-! ## Where messages come from -/

/-- Something has happened. -/
def Has (chronicle : Chronicle μ) (happening : Happening μ) : Prop :=
  ∃ moment ∈ chronicle, moment.2 = happening

/-- What a task is to put into queues is that of a request. -/
def Requested (chronicle : Chronicle μ) : Task μ → Prop
  | .answer reply message update => Has chronicle (.request reply message update)
  | .announce update => ∃ reply message, Has chronicle (.request reply message update)
  | .visit update _ _ _ => ∃ reply message, Has chronicle (.request reply message update)
  | .remove _ _ => True

/-- Where a message of a queue can come from: it has been sent to the queue, it is the answer to a
request of its client, or it is the update of some request. -/
inductive Came (chronicle : Chronicle μ) (queue : QueueId) (message : μ) : Prop
  | sent (h : Has chronicle (.operation (.send queue message)))
  | answer {update : μ} (h : Has chronicle (.request queue message update))
  | update {reply : QueueId} {answer : μ} (h : Has chronicle (.request reply answer message))

theorem Has.append (h : Has chronicle happening) (later : Chronicle μ) :
    Has (chronicle ++ later) happening := by
  obtain ⟨moment, hmem, rfl⟩ := h
  exact ⟨moment, List.mem_append_left _ hmem, rfl⟩

theorem has_append_singleton (chronicle : Chronicle μ) (w : Workload μ) (happening : Happening μ) :
    Has (chronicle ++ [(w, happening)]) happening :=
  ⟨_, List.mem_append_right _ (List.mem_singleton_self _), rfl⟩

theorem Requested.append {task : Task μ} (h : Requested chronicle task) (later : Chronicle μ) :
    Requested (chronicle ++ later) task := by
  cases task with
  | answer => exact Has.append h later
  | announce =>
      obtain ⟨reply, message, hrequest⟩ := h
      exact ⟨reply, message, hrequest.append later⟩
  | visit =>
      obtain ⟨reply, message, hrequest⟩ := h
      exact ⟨reply, message, hrequest.append later⟩
  | remove => trivial

theorem Came.append {message : μ} (h : Came chronicle queue message) (later : Chronicle μ) :
    Came (chronicle ++ later) queue message := by
  cases h with
  | sent h => exact .sent (h.append later)
  | answer h => exact .answer (h.append later)
  | update h => exact .update (h.append later)

theorem Requested.step {task next : Task μ} {hub hub' : Hub μ} {held : Prop}
    (h : Requested chronicle task) (hstep : task.Step held hub hub' next) :
    Requested chronicle next := by
  cases hstep with
  | answer => exact ⟨_, _, h⟩
  | start => exact h
  | serve => exact h
  | miss => exact h
  | finish => trivial
  | remove => trivial

theorem Run.requested (h : w.Run chronicle last) (hidle : w.tasks = []) :
    ∀ task ∈ last.tasks, Requested chronicle task := by
  induction h with
  | nil => simp [hidle]
  | snoc _ hstep ih =>
      intro task hmem
      rcases hstep.mem_tasks hmem with hbefore | ⟨_, _, _, rfl, rfl⟩ | ⟨former, hbefore, hsub⟩
      · exact (ih task hbefore).append _
      · exact has_append_singleton ..
      · exact ((ih former hbefore).step hsub).append _

theorem mem_messages_put {hub : Hub μ} {other : QueueId} {former : Queue μ} {message : μ}
    (h : message ∈ (hub.queues.put other former queue).messages) :
    queue = other ∧ message ∈ former.messages ∨ message ∈ (hub.queues queue).messages := by
  rcases eq_or_ne queue other with rfl | hne
  · rw [Queues.put_self] at h
    exact .inl ⟨rfl, h⟩
  · rw [Queues.put_of_ne _ _ hne] at h
    exact .inr h

theorem mem_messages_of_push? {hub : Hub μ} {other : QueueId} {former : Queue μ}
    {message added : μ} (hpush : (hub.queues other).push? added = some former)
    (h : message ∈ (hub.queues.put other former queue).messages) :
    message ∈ (hub.queues queue).messages ∨ queue = other ∧ message = added := by
  rcases mem_messages_put h with ⟨rfl, hmem⟩ | hmem
  · rw [Queue.push?_eq] at hpush
    split at hpush
    · obtain rfl := Option.some.inj hpush
      simpa [Queue.append] using hmem
    · cases hpush
  · exact .inl hmem

theorem mem_messages_send {hub : Hub μ} {other : QueueId} {message added : μ}
    (h : message ∈ ((hub.send other added).queues queue).messages) :
    message ∈ (hub.queues queue).messages ∨ queue = other ∧ message = added := by
  rw [Hub.send] at h
  split at h
  · exact mem_messages_of_push? ‹_› h
  · exact .inl h

theorem mem_messages_apply {hub : Hub μ} {operation : Operation μ} {message : μ}
    (hplain : ∀ message, operation ≠ .broadcast message)
    (h : message ∈ ((hub.apply operation).queues queue).messages) :
    message ∈ (hub.queues queue).messages ∨ operation = .send queue message := by
  cases operation with
  | openQueue capacity =>
      rcases mem_messages_put h with ⟨-, hmem⟩ | hmem
      · cases hmem
      · exact .inl hmem
  | connect other => exact .inl h
  | disconnect connection => exact .inl h
  | send other added =>
      rcases mem_messages_send h with hmem | ⟨rfl, rfl⟩
      · exact .inl hmem
      · exact .inr rfl
  | broadcast added => exact absurd rfl (hplain added)
  | receive other =>
      rw [Hub.apply, Hub.receive_eq] at h
      dsimp only at h
      split at h
      · rcases mem_messages_put h with ⟨rfl, hmem⟩ | hmem
        · exact .inl (List.mem_of_mem_tail hmem)
        · exact .inl hmem
      · exact .inl h
  | dropReader other =>
      rcases mem_messages_put h with ⟨-, hmem⟩ | hmem
      · cases hmem
      · exact .inl hmem

/-- What is in a queue was there before any task, or has come as a message can. So no client gets
an answer but to its own requests. -/
theorem Run.mem_messages (h : w.Run chronicle last) (hidle : w.tasks = []) {message : μ}
    (hmem : message ∈ (last.hub.queues queue).messages) :
    message ∈ (w.hub.queues queue).messages ∨ Came chronicle queue message := by
  induction h with
  | nil => exact .inl hmem
  | @snoc before after chronicle happening hrun hstep ih =>
      have hformer : message ∈ (before.hub.queues queue).messages →
          message ∈ (w.hub.queues queue).messages ∨
            Came (chronicle ++ [(before, happening)]) queue message :=
        fun hmem => (ih hmem).imp_right fun hcame => hcame.append _
      cases hstep with
      | operation hplain =>
          rcases mem_messages_apply hplain hmem with hmem | rfl
          · exact hformer hmem
          · exact .inr (.sent (has_append_singleton ..))
      | request => exact hformer hmem
      | task htask hsub =>
          have hrequested := hrun.requested hidle _ (List.mem_of_getElem? htask)
          cases hsub with
          | answer =>
              rcases mem_messages_send hmem with hmem | ⟨rfl, rfl⟩
              · exact hformer hmem
              · exact .inr (.answer (Has.append hrequested _))
          | start => exact hformer hmem
          | serve hpush =>
              rcases mem_messages_of_push? hpush hmem with hmem | ⟨rfl, rfl⟩
              · exact hformer hmem
              · obtain ⟨_, _, hrequest⟩ := hrequested
                exact .inr (.update (hrequest.append _))
          | miss => exact hformer hmem
          | finish => exact hformer hmem
          | remove => exact hformer hmem

end DefiniteIntegral.Workload
