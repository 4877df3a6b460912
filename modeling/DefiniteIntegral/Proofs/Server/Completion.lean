import DefiniteIntegral.Proofs.Server.Interleaving
import DefiniteIntegral.Proofs.Server.Request
import Mathlib.Algebra.Order.BigOperators.Group.List

/-! # Tasks come to their end

Some task can always go on, and none can do so forever. A task that nothing comes in between of does
what an answer and a broadcast do. -/

namespace DefiniteIntegral

variable {μ : Type}

namespace Task

variable {hub hub' : Hub μ} {task later : Task μ} {held : Prop}

/-- How many steps a task has ahead at most, if so many are registered. -/
def toDo (registered : ℕ) : Task μ → ℕ
  | answer .. => 2 * registered + 4
  | announce _ => 2 * registered + 3
  | visit _ ahead failed _ => 2 * ahead.length + failed.length + 2
  | remove failed _ => failed.length

theorem toDo_mono (task : Task μ) {n m : ℕ} (h : n ≤ m) : task.toDo n ≤ task.toDo m := by
  cases task <;> simp only [toDo] <;> omega

/-- A step registers nobody, and there is less to do after it. -/
theorem Step.toDo_lt (h : task.Step held hub hub' later) :
    hub'.connections.length ≤ hub.connections.length ∧
      later.toDo hub'.connections.length < task.toDo hub.connections.length := by
  cases h with
  | answer => simp [toDo]
  | start _ horder => simp [toDo, horder.length_eq]
  | serve =>
      simp only [toDo, List.length_cons]
      omega
  | miss =>
      simp only [toDo, List.length_cons, List.length_append, List.length_nil]
      omega
  | finish => simp [toDo]
  | remove =>
      simp only [toDo, List.length_cons, Hub.disconnect]
      exact ⟨List.length_filter_le _ _, Nat.lt_succ_self _⟩

/-- A task with something left to do can go on, if it is not for others that hold the
registrations. -/
theorem exists_step (hub : Hub μ) (hleft : ¬ task.IsDone) (hfree : held → task.Holds) :
    ∃ hub' later, task.Step held hub hub' later := by
  match task with
  | answer reply message update => exact ⟨_, _, .answer hub reply message update⟩
  | announce update => exact ⟨_, _, .start hub update (List.Perm.refl _)⟩
  | visit update [] failed count => exact ⟨_, _, .finish hub update failed count⟩
  | visit update (entry :: ahead) failed count =>
      cases hpush : (hub.queues entry.2).push? update with
      | some queue => exact ⟨_, _, .serve hpush ahead failed count⟩
      | none => exact ⟨_, _, .miss hpush ahead failed count⟩
  | remove [] count => exact absurd trivial hleft
  | remove (connection :: failed) count =>
      exact ⟨_, _, .remove hub hfree connection failed count⟩

end Task

namespace Workload

variable {w : Workload μ}

/-- How many steps all tasks have ahead at most. -/
def toDo (w : Workload μ) : ℕ :=
  (w.tasks.map (Task.toDo w.hub.connections.length)).sum

theorem sum_map_set_lt {α : Type} {f g : α → ℕ} (hle : ∀ x, g x ≤ f x) {xs : List α} {i : ℕ}
    {x y : α} (hx : xs[i]? = some x) (hlt : g y < f x) :
    ((xs.set i y).map g).sum < (xs.map f).sum := by
  induction xs generalizing i with
  | nil => cases hx
  | cons z xs ih =>
      cases i with
      | zero =>
          obtain rfl := Option.some.inj hx
          have hrest : (xs.map g).sum ≤ (xs.map f).sum :=
            List.sum_le_sum fun x _ => hle x
          simp only [List.set_cons_zero, List.map_cons, List.sum_cons]
          omega
      | succ i =>
          have hrest := ih hx
          have hz := hle z
          simp only [List.set_cons_succ, List.map_cons, List.sum_cons]
          omega

/-- If not all tasks are done, then one of them can go on. -/
theorem exists_task_step (h : ¬ ∀ task ∈ w.tasks, task.IsDone) :
    ∃ i last, w.Step (.task i) last ∧ last.toDo < w.toDo := by
  obtain ⟨task, hmem, hleft, hfree⟩ :
      ∃ task ∈ w.tasks, ¬ task.IsDone ∧ (w.Held → task.Holds) := by
    by_cases hheld : w.Held
    · obtain ⟨task, hmem, hholds⟩ := hheld
      refine ⟨task, hmem, fun hdone => ?_, fun _ => hholds⟩
      cases task with
      | remove => exact hholds
      | _ => exact hdone
    · simp only [not_forall] at h
      obtain ⟨task, hmem, hleft⟩ := h
      exact ⟨task, hmem, hleft, fun hheld' => absurd hheld' hheld⟩
  obtain ⟨i, htask⟩ := List.getElem?_of_mem hmem
  obtain ⟨hub, later, hstep⟩ := task.exists_step w.hub hleft hfree
  obtain ⟨hle, hlt⟩ := hstep.toDo_lt
  exact ⟨i, _, .task htask hstep, sum_map_set_lt (fun task => task.toDo_mono hle) htask hlt⟩

/-- From wherever the tasks are, they can come to their end by steps of their own. -/
theorem exists_run_done (w : Workload μ) :
    ∃ chronicle last, w.Run chronicle last ∧ (∀ task ∈ last.tasks, task.IsDone) ∧
      ∀ moment ∈ chronicle, ∃ i, moment.2 = .task i := by
  induction hn : w.toDo using Nat.strong_induction_on generalizing w with
  | _ n ih =>
      by_cases hdone : ∀ task ∈ w.tasks, task.IsDone
      · exact ⟨[], w, .nil w, hdone, by simp⟩
      · obtain ⟨i, next, hstep, hlt⟩ := exists_task_step hdone
        obtain ⟨chronicle, last, hrun, hlast, htasks⟩ := ih _ (hn ▸ hlt) next rfl
        refine ⟨_, last, ((Run.nil w).snoc hstep).trans hrun, hlast, ?_⟩
        rw [List.nil_append, List.singleton_append, List.forall_mem_cons]
        exact ⟨⟨i, rfl⟩, htasks⟩

/-! ## A task alone -/

/-- The steps of a task that is alone on a hub take it and the hub so far. -/
def Alone (hub : Hub μ) (task : Task μ) (hub' : Hub μ) (later : Task μ) : Prop :=
  ∃ chronicle, (⟨hub, [task]⟩ : Workload μ).Run chronicle ⟨hub', [later]⟩ ∧
    ∀ moment ∈ chronicle, moment.2 = .task 0

section Alone

variable {hub hub' hub'' : Hub μ} {task next later : Task μ}

theorem Alone.refl (hub : Hub μ) (task : Task μ) : Alone hub task hub task :=
  ⟨[], .nil _, by simp⟩

theorem Alone.trans (h : Alone hub task hub' next) (h' : Alone hub' next hub'' later) :
    Alone hub task hub'' later := by
  obtain ⟨first, hfirst, htasks⟩ := h
  obtain ⟨second, hsecond, htasks'⟩ := h'
  exact ⟨first ++ second, hfirst.trans hsecond, List.forall_mem_append.mpr ⟨htasks, htasks'⟩⟩

theorem Alone.of_step (h : task.Step task.Holds hub hub' later) : Alone hub task hub' later := by
  have hheld : (⟨hub, [task]⟩ : Workload μ).Held = task.Holds := by simp [Held]
  exact ⟨[(⟨hub, [task]⟩, .task 0)], (Run.nil _).snoc (.task rfl (hheld ▸ h)), by simp⟩

/-- An update that nothing comes in between of is delivered. -/
theorem alone_visit (hub : Hub μ) (update : μ) (ahead : List (ConnectionId × QueueId))
    (failed : List ConnectionId) (count : ℕ) :
    let delivery := deliver update hub.queues ahead
    Alone hub (.visit update ahead failed count) { hub with queues := delivery.queues }
      (.visit update [] (failed ++ delivery.failed) (count + delivery.count)) := by
  induction ahead generalizing hub failed count with
  | nil =>
      dsimp only [deliver]
      rw [List.append_nil]
      exact .refl _ _
  | cons entry ahead ih =>
      by_cases haccepts : (hub.queues entry.2).accepts
      · have hpush : (hub.queues entry.2).push? update =
            some ((hub.queues entry.2).append update) := by
          rw [Queue.push?_eq, if_pos haccepts]
        have hlater := ih
          { hub with queues := hub.queues.put entry.2 ((hub.queues entry.2).append update) }
          failed (count + 1)
        rw [deliver_cons_of_accepts haccepts]
        dsimp only at hlater ⊢
        rw [Nat.add_right_comm, Nat.add_assoc] at hlater
        exact (Alone.of_step (.serve hpush ahead failed count)).trans hlater
      · have hpush : (hub.queues entry.2).push? update = none := by
          rw [Queue.push?_eq, if_neg haccepts]
        have hlater := ih hub (failed ++ [entry.1]) count
        rw [deliver_cons_of_not_accepts haccepts]
        dsimp only at hlater ⊢
        rw [List.append_assoc, List.singleton_append] at hlater
        exact (Alone.of_step (.miss hpush ahead failed count)).trans hlater

theorem alone_remove (hub : Hub μ) (failed : List ConnectionId) (count : ℕ) :
    Alone hub (.remove failed count)
      { hub with connections := hub.connections.filter fun entry => entry.1 ∉ failed }
      (.remove [] count) := by
  induction failed generalizing hub with
  | nil => simpa using Alone.refl hub (.remove [] count)
  | cons connection failed ih =>
      have hstep : Alone hub (.remove (connection :: failed) count) (hub.disconnect connection)
          (.remove failed count) :=
        .of_step (.remove hub (fun hholds => hholds) connection failed count)
      have hfilter : (hub.connections.filter fun entry => entry.1 ∉ connection :: failed) =
          (hub.disconnect connection).connections.filter fun entry => entry.1 ∉ failed := by
        rw [Hub.disconnect, List.filter_filter]
        refine List.filter_congr fun entry _ => ?_
        simp [Bool.and_comm]
      rw [hfilter]
      exact hstep.trans (ih (hub.disconnect connection))

/-- A task that nothing comes in between of answers and broadcasts. -/
theorem alone_respond (hub : Hub μ) (reply : QueueId) (message update : μ) :
    Alone hub (.answer reply message update) (hub.respond reply message update)
      (.remove [] ((hub.send reply message).broadcast update).1) := by
  let answered := hub.send reply message
  have hanswer : Alone hub (.answer reply message update) answered
      (.visit update answered.connections [] 0) :=
    (Alone.of_step (.answer hub reply message update)).trans
      (.of_step (.start answered update (List.Perm.refl _)))
  have hvisit := alone_visit answered update answered.connections [] 0
  have hremove := alone_remove
    { answered with queues := (deliver update answered.queues answered.connections).queues }
    (deliver update answered.queues answered.connections).failed
    (deliver update answered.queues answered.connections).count
  dsimp only at hvisit
  rw [List.nil_append, Nat.zero_add] at hvisit
  exact ((hanswer.trans hvisit).trans (.of_step (.finish _ _ _ _))).trans hremove

end Alone

end Workload

/-- The text of a request is handled as the task of it is done that nothing comes in between of. -/
theorem Server.alone_handleText {server : Server} {entropy : UInt64} {text : String}
    {data : Result Float} (h : server.integrateText entropy text = .ok data) (reply : QueueId) :
    ∃ count, Workload.Alone server.hub (.answer reply (.result data) (.update data))
      (server.handleText entropy text reply).hub (.remove [] count) := by
  rw [handleText_of_ok reply h]
  exact ⟨_, Workload.alone_respond server.hub reply (.result data) (.update data)⟩

end DefiniteIntegral
