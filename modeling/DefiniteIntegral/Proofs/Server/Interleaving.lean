import DefiniteIntegral.Proofs.Server.History
import DefiniteIntegral.Server.Task

/-! # Requests at the same time

The tasks of several requests on one hub, each doing its next step whenever it may, among operations
of others. What has happened accounts for how far each of them has come. -/

namespace DefiniteIntegral

variable {μ : Type}

/-! ## Steps and runs -/

/-- A hub and the tasks that are done on it. -/
structure Workload (μ : Type) where
  hub : Hub μ
  tasks : List (Task μ)

/-- What can happen next. -/
inductive Happening (μ : Type)
  | operation (operation : Operation μ)
  /-- A request with an answer for the client of a queue, and an update for all. -/
  | request (reply : QueueId) (message update : μ)
  /-- The task with a number does its next step. -/
  | task (i : ℕ)

/-- Whether an operation leaves the registrations as they are. -/
def Operation.KeepsRegistrations : Operation μ → Prop
  | .connect _ => False
  | .disconnect _ => False
  | .broadcast _ => False
  | _ => True

namespace Workload

/-- Whether some task holds the registrations. -/
def Held (w : Workload μ) : Prop :=
  ∃ task ∈ w.tasks, task.Holds

/-- One step. Updates are offered by tasks only, and what is held is not changed. -/
inductive Step : Workload μ → Happening μ → Workload μ → Prop
  | operation {w : Workload μ} {operation : Operation μ}
      (hplain : ∀ message, operation ≠ .broadcast message)
      (hheld : w.Held → operation.KeepsRegistrations) :
    Step w (.operation operation) { w with hub := w.hub.apply operation }
  | request (w : Workload μ) (reply : QueueId) (message update : μ) :
    Step w (.request reply message update)
      { w with tasks := w.tasks ++ [.answer reply message update] }
  | task {w : Workload μ} {i : ℕ} {task later : Task μ} {hub : Hub μ}
      (htask : w.tasks[i]? = some task) (hstep : task.Step w.Held w.hub hub later) :
    Step w (.task i) ⟨hub, w.tasks.set i later⟩

end Workload

/-- What has happened, each with the workload that it met. -/
abbrev Chronicle (μ : Type) :=
  List (Workload μ × Happening μ)

/-- Steps one after another. -/
inductive Workload.Run : Workload μ → Chronicle μ → Workload μ → Prop
  | nil (w : Workload μ) : Run w [] w
  | snoc {w middle last : Workload μ} {chronicle : Chronicle μ} {happening : Happening μ}
      (hrun : Run w chronicle middle) (hstep : middle.Step happening last) :
    Run w (chronicle ++ [(middle, happening)]) last

namespace Workload

variable {w middle last : Workload μ} {happening : Happening μ}
  {chronicle earlier later : Chronicle μ} {entry : ConnectionId × QueueId}
  {connection : ConnectionId} {queue : QueueId} {i : ℕ}

theorem Run.trans (h : w.Run earlier middle) (h' : middle.Run later last) :
    w.Run (earlier ++ later) last := by
  induction h' with
  | nil => rwa [List.append_nil]
  | snoc _ hstep ih =>
      rw [← List.append_assoc]
      exact ih.snoc hstep

/-- Every moment of a run has one run before it and another one after it. -/
theorem Run.exists_of_mem {moment : Workload μ × Happening μ} (h : w.Run chronicle last)
    (hmem : moment ∈ chronicle) :
    ∃ earlier next later, chronicle = earlier ++ moment :: later ∧ w.Run earlier moment.1 ∧
      moment.1.Step moment.2 next ∧ next.Run later last := by
  induction h with
  | nil => cases hmem
  | snoc hrun hstep ih =>
      rcases List.mem_append.mp hmem with hmem | hmem
      · obtain ⟨earlier, next, later, rfl, hearlier, hnext, hlater⟩ := ih hmem
        exact ⟨earlier, next, _, by rw [List.append_assoc, List.cons_append], hearlier, hnext,
          hlater.snoc hstep⟩
      · obtain rfl := List.mem_singleton.mp hmem
        exact ⟨_, _, [], rfl, hrun, hstep, .nil _⟩

/-- A task is one from before, that of a new request, or one that has gone a step further. -/
theorem Step.mem_tasks {task : Task μ} (h : w.Step happening last) (hmem : task ∈ last.tasks) :
    task ∈ w.tasks ∨
      (∃ reply message update, happening = .request reply message update ∧
        task = .answer reply message update) ∨
      ∃ former ∈ w.tasks, former.Step w.Held w.hub last.hub task := by
  cases h with
  | operation => exact .inl hmem
  | request reply message update =>
      rcases List.mem_append.mp hmem with hmem | hmem
      · exact .inl hmem
      · exact .inr (.inl ⟨reply, message, update, rfl, List.mem_singleton.mp hmem⟩)
  | task htask hstep =>
      rcases List.mem_or_eq_of_mem_set hmem with hmem | rfl
      · exact .inl hmem
      · exact .inr (.inr ⟨_, List.mem_of_getElem? htask, hstep⟩)

/-! ## Registrations -/

theorem connections_apply {hub : Hub μ} {operation : Operation μ}
    (h : operation.KeepsRegistrations) : (hub.apply operation).connections = hub.connections := by
  cases operation with
  | openQueue capacity => rfl
  | connect queue => cases h
  | disconnect connection => cases h
  | send queue message => exact Hub.send_connections queue message
  | broadcast message => cases h
  | receive queue => exact Hub.receive_connections queue
  | dropReader queue => rfl

/-- Whether a registration is ended, by name or by a task. -/
def Ends (moment : Workload μ × Happening μ) (connection : ConnectionId) : Prop :=
  moment.2 = .operation (.disconnect connection) ∨
    ∃ i failed count, moment.2 = .task i ∧
      moment.1.tasks[i]? = some (.remove (connection :: failed) count)

/-- As long as the registrations are held, they stay what they are. -/
theorem Step.connections_eq (h : w.Step happening last) (hheld : w.Held) :
    last.hub.connections = w.hub.connections := by
  cases h with
  | operation _ hkeeps => exact connections_apply (hkeeps hheld)
  | request => rfl
  | task _ hstep =>
      cases hstep with
      | answer => exact Hub.send_connections _ _
      | start => rfl
      | serve => rfl
      | miss => rfl
      | finish => rfl
      | remove hfree => exact absurd hheld hfree

theorem Step.nextConnection_le (h : w.Step happening last) :
    w.hub.nextConnection ≤ last.hub.nextConnection := by
  cases h with
  | operation => exact Hub.nextConnection_apply ▸ Nat.le_add_right _ _
  | request => exact le_rfl
  | task _ hstep =>
      cases hstep with
      | answer => exact (congrArg Hub.nextConnection Hub.send_eq).ge
      | start => exact le_rfl
      | serve => exact le_rfl
      | miss => exact le_rfl
      | finish => exact le_rfl
      | remove => exact le_rfl

/-- A number that has been given stands for a registration until that ends, and not after it. -/
theorem Step.mem_connections_iff (h : w.Step happening last)
    (hold : entry.1 < w.hub.nextConnection) :
    entry ∈ last.hub.connections ↔
      entry ∈ w.hub.connections ∧ ¬ Ends (w, happening) entry.1 := by
  cases h with
  | @operation operation hplain =>
      cases operation with
      | connect queue =>
          have hnew : entry ≠ (w.hub.nextConnection, queue) :=
            fun heq => hold.ne (congrArg Prod.fst heq)
          simp [Hub.apply, Hub.connect, Ends, hnew]
      | disconnect connection =>
          simp [Hub.apply, Hub.disconnect, Ends, eq_comm (a := connection)]
      | broadcast message => exact absurd rfl (hplain message)
      | openQueue capacity => simp [Hub.apply, Hub.openQueue, Ends]
      | send queue message => simp [Hub.apply, Ends]
      | receive queue => simp [Hub.apply, Ends]
      | dropReader queue => simp [Hub.apply, Hub.dropReader, Ends]
  | request => simp [Ends]
  | task htask hstep =>
      cases hstep with
      | remove _ connection =>
          simp [Ends, htask, Hub.disconnect, eq_comm (a := connection)]
      | answer => simp [Ends, htask]
      | start => simp [Ends, htask]
      | serve => simp [Ends, htask]
      | miss => simp [Ends, htask]
      | finish => simp [Ends, htask]

theorem Run.nextConnection_le (h : w.Run chronicle last) :
    w.hub.nextConnection ≤ last.hub.nextConnection := by
  induction h with
  | nil => exact le_rfl
  | snoc _ hstep ih => exact ih.trans hstep.nextConnection_le

theorem Run.mem_connections_iff (h : w.Run chronicle last)
    (hold : entry.1 < w.hub.nextConnection) :
    entry ∈ last.hub.connections ↔
      entry ∈ w.hub.connections ∧ ∀ moment ∈ chronicle, ¬ Ends moment entry.1 := by
  induction h with
  | nil => simp
  | snoc hrun hstep ih =>
      rw [hstep.mem_connections_iff (hold.trans_le hrun.nextConnection_le), ih, and_assoc,
        List.forall_mem_append, List.forall_mem_singleton]

/-! ## Visits -/

/-- The task with a number, if it is its next step that happens. -/
def stepping? (i : ℕ) (moment : Workload μ × Happening μ) : Option (Task μ) :=
  match moment.2 with
  | .task j => if j = i then moment.1.tasks[i]? else none
  | _ => none

/-- The registration that the update of a task comes to, and the hub there. -/
def visit? (i : ℕ) (moment : Workload μ × Happening μ) :
    Option (Hub μ × ConnectionId × QueueId) :=
  match stepping? i moment with
  | some (.visit _ (entry :: _) _ _) => some (moment.1.hub, entry)
  | _ => none

/-- The registration that a task ends. -/
def removal? (i : ℕ) (moment : Workload μ × Happening μ) : Option ConnectionId :=
  match stepping? i moment with
  | some (.remove (connection :: _) _) => some connection
  | _ => none

/-- The registrations that the update of a task has come to. -/
def visits (i : ℕ) (chronicle : Chronicle μ) : List (Hub μ × ConnectionId × QueueId) :=
  chronicle.filterMap (visit? i)

/-- The registrations that a task has ended. -/
def removals (i : ℕ) (chronicle : Chronicle μ) : List ConnectionId :=
  chronicle.filterMap (removal? i)

/-- Whether the update of a task is taken. -/
def Taken (visit : Hub μ × ConnectionId × QueueId) : Prop :=
  (visit.1.queues visit.2.2).accepts

instance (visit : Hub μ × ConnectionId × QueueId) : Decidable (Taken visit) :=
  inferInstanceAs (Decidable (_ = true))

/-- The registrations that could not take the update of a task. -/
def missed (i : ℕ) (chronicle : Chronicle μ) : List ConnectionId :=
  ((visits i chronicle).filter (¬ Taken ·)).map fun visit => visit.2.1

/-- A task begins to offer its update. -/
def Begins (i : ℕ) (moment : Workload μ × Happening μ) : Prop :=
  moment.2 = .task i ∧ ∃ update, moment.1.tasks[i]? = some (.announce update)

/-- The task has begun to offer its update, which has come to the registrations of that moment but
for those ahead. -/
def HasBegun (i : ℕ) (chronicle : Chronicle μ) (ahead : List (ConnectionId × QueueId)) : Prop :=
  ∃ moment ∈ chronicle, Begins i moment ∧
    ((visits i chronicle).map Prod.snd ++ ahead).Perm moment.1.hub.connections

/-- What has happened accounts for how far a task has come. -/
def Accounts (i : ℕ) (chronicle : Chronicle μ) : Option (Task μ) → Prop
  | some (.visit _ ahead failed count) =>
    HasBegun i chronicle ahead ∧ removals i chronicle = [] ∧ failed = missed i chronicle ∧
      count = ((visits i chronicle).filter (Taken ·)).length
  | some (.remove failed count) =>
    HasBegun i chronicle [] ∧ removals i chronicle ++ failed = missed i chronicle ∧
      count = ((visits i chronicle).filter (Taken ·)).length
  | _ => visits i chronicle = [] ∧ removals i chronicle = []

theorem visits_append (i : ℕ) (earlier later : Chronicle μ) :
    visits i (earlier ++ later) = visits i earlier ++ visits i later :=
  List.filterMap_append

theorem removals_append (i : ℕ) (earlier later : Chronicle μ) :
    removals i (earlier ++ later) = removals i earlier ++ removals i later :=
  List.filterMap_append

theorem missed_append (i : ℕ) (earlier later : Chronicle μ) :
    missed i (earlier ++ later) = missed i earlier ++ missed i later := by
  rw [missed, visits_append, List.filter_append, List.map_append]
  rfl

theorem visits_singleton (moment : Workload μ × Happening μ) :
    visits i [moment] = (visit? i moment).toList := by
  cases h : visit? i moment <;> simp [visits, h]

theorem removals_singleton (moment : Workload μ × Happening μ) :
    removals i [moment] = (removal? i moment).toList := by
  cases h : removal? i moment <;> simp [removals, h]

theorem HasBegun.append {ahead left : List (ConnectionId × QueueId)}
    (h : HasBegun i earlier ahead) (hleft : (visits i later).map Prod.snd ++ left = ahead) :
    HasBegun i (earlier ++ later) left := by
  obtain ⟨moment, hmem, hbegins, hperm⟩ := h
  refine ⟨moment, List.mem_append_left _ hmem, hbegins, ?_⟩
  rwa [visits_append, List.map_append, List.append_assoc, hleft]

/-- What is not a step of a task takes it no further. -/
theorem Accounts.append {task? : Option (Task μ)} {moment : Workload μ × Happening μ}
    (h : Accounts i chronicle task?) (hvisit : visit? i moment = none)
    (hremoval : removal? i moment = none) : Accounts i (chronicle ++ [moment]) task? := by
  have hvisits : visits i (chronicle ++ [moment]) = visits i chronicle := by
    rw [visits_append, visits_singleton, hvisit, Option.toList_none, List.append_nil]
  have hremovals : removals i (chronicle ++ [moment]) = removals i chronicle := by
    rw [removals_append, removals_singleton, hremoval, Option.toList_none, List.append_nil]
  have hbegun : ∀ ahead, HasBegun i chronicle ahead → HasBegun i (chronicle ++ [moment]) ahead :=
    fun ahead hahead => hahead.append (by rw [visits_singleton, hvisit]; rfl)
  have hmissed : missed i (chronicle ++ [moment]) = missed i chronicle := by
    rw [missed, hvisits, missed]
  match task? with
  | none => exact ⟨hvisits.trans h.1, hremovals.trans h.2⟩
  | some (.answer ..) => exact ⟨hvisits.trans h.1, hremovals.trans h.2⟩
  | some (.announce _) => exact ⟨hvisits.trans h.1, hremovals.trans h.2⟩
  | some (.visit ..) =>
      rw [Accounts, hvisits, hremovals, hmissed]
      exact ⟨hbegun _ h.1, h.2⟩
  | some (.remove ..) =>
      rw [Accounts, hvisits, hremovals, hmissed]
      exact ⟨hbegun _ h.1, h.2⟩

theorem taken_iff_of_push?_eq {hub : Hub μ} {update : μ} {queue? : Option (Queue μ)}
    (h : (hub.queues entry.2).push? update = queue?) : Taken (hub, entry) ↔ queue?.isSome := by
  rw [← h, Queue.push?_eq, Taken]
  split <;> simp [*]

/-- A step of a task takes its account one step further. -/
theorem Accounts.step {task next : Task μ} {hub : Hub μ} (h : Accounts i chronicle (some task))
    (htask : w.tasks[i]? = some task) (hstep : task.Step w.Held w.hub hub next) :
    Accounts i (chronicle ++ [(w, .task i)]) (some next) := by
  have hstepping : stepping? i (w, .task i) = some task := by simp [stepping?, htask]
  cases hstep with
  | answer => exact h.append (by simp [visit?, hstepping]) (by simp [removal?, hstepping])
  | @start _ order horder =>
      obtain ⟨hvisits, hremovals⟩ := h
      have hnone : visits i (chronicle ++ [(w, .task i)]) = [] := by
        rw [visits_append, hvisits, visits_singleton]
        simp [visit?, hstepping]
      refine ⟨⟨_, List.mem_append_right _ (List.mem_singleton_self _), ⟨rfl, _, htask⟩, ?_⟩,
        ?_, ?_, ?_⟩
      · rwa [hnone]
      · rw [removals_append, hremovals, removals_singleton]
        simp [removal?, hstepping]
      · rw [missed, hnone]
        rfl
      · rw [hnone]
        rfl
  | @serve _ entry _ hpush ahead failed count =>
      obtain ⟨hbegun, hremovals, hfailed, hcount⟩ := h
      have hvisit : visit? i (w, .task i) = some (w.hub, entry) := by simp [visit?, hstepping]
      have htaken : Taken (w.hub, entry) := (taken_iff_of_push?_eq hpush).mpr rfl
      refine ⟨hbegun.append (by rw [visits_singleton, hvisit]; rfl), ?_, ?_, ?_⟩
      · rw [removals_append, hremovals, removals_singleton]
        simp [removal?, hstepping]
      · rw [missed_append, ← hfailed, missed, visits_singleton, hvisit]
        simp [htaken]
      · rw [visits_append, List.filter_append, List.length_append, ← hcount, visits_singleton,
          hvisit]
        simp [htaken]
  | @miss _ entry hpush ahead failed count =>
      obtain ⟨hbegun, hremovals, hfailed, hcount⟩ := h
      have hvisit : visit? i (w, .task i) = some (w.hub, entry) := by simp [visit?, hstepping]
      have htaken : ¬ Taken (w.hub, entry) := by simp [taken_iff_of_push?_eq hpush]
      refine ⟨hbegun.append (by rw [visits_singleton, hvisit]; rfl), ?_, ?_, ?_⟩
      · rw [removals_append, hremovals, removals_singleton]
        simp [removal?, hstepping]
      · rw [missed_append, ← hfailed, missed, visits_singleton, hvisit]
        simp [htaken]
      · rw [visits_append, List.filter_append, List.length_append, ← hcount, visits_singleton,
          hvisit]
        simp [htaken]
  | finish =>
      have hvisit : visit? i (w, .task i) = none := by simp [visit?, hstepping]
      have hremoval : removal? i (w, .task i) = none := by simp [removal?, hstepping]
      obtain ⟨hbegun, hremovals, hfailed, hcount⟩ := h.append hvisit hremoval
      exact ⟨hbegun, by rw [hremovals, hfailed, List.nil_append], hcount⟩
  | remove _ connection failed count =>
      obtain ⟨hbegun, hmissed, hcount⟩ := h
      have hvisits : visits i [(w, .task i)] = [] := by
        rw [visits_singleton]
        simp [visit?, hstepping]
      have hremoval : removal? i (w, .task i) = some connection := by simp [removal?, hstepping]
      refine ⟨hbegun.append (by rw [hvisits]; rfl), ?_, ?_⟩
      · rw [removals_append, removals_singleton, hremoval, missed_append, ← hmissed, missed,
          hvisits]
        simp
      · rw [visits_append, hvisits, List.append_nil, hcount]

/-- What has happened since there were no tasks accounts for all of them. -/
theorem Run.accounts (h : w.Run chronicle last) (hidle : w.tasks = []) (i : ℕ) :
    Accounts i chronicle last.tasks[i]? := by
  induction h with
  | nil =>
      rw [hidle]
      exact ⟨rfl, rfl⟩
  | snoc _ hstep ih =>
      cases hstep with
      | operation => exact ih.append rfl rfl
      | request reply message update =>
          rename_i before chronicle _
          have hvisit : visit? i (before, .request reply message update) = none := rfl
          have hsame := ih.append hvisit rfl
          rcases Nat.lt_or_ge i before.tasks.length with hlt | hle
          · rwa [List.getElem?_append_left hlt]
          · rw [List.getElem?_eq_none hle] at hsame
            rw [List.getElem?_append_right hle, List.getElem?_singleton]
            split
            · exact hsame
            · exact hsame
      | @task j task later hub htask hstep =>
          obtain ⟨hlt, -⟩ := List.getElem?_eq_some_iff.mp htask
          rcases eq_or_ne j i with rfl | hne
          · rw [List.getElem?_set_self hlt]
            rw [htask] at ih
            exact ih.step htask hstep
          · rw [List.getElem?_set_ne hne]
            have hother : ∀ before : Workload μ, stepping? i (before, .task j) = none :=
              fun before => if_neg hne
            exact ih.append (by rw [visit?, hother]) (by rw [removal?, hother])

theorem exists_of_mem_visits {visit : Hub μ × ConnectionId × QueueId}
    (h : visit ∈ visits i chronicle) :
    ∃ moment ∈ chronicle, visit.1 = moment.1.hub ∧
      ∃ task ∈ moment.1.tasks, visit.2 ∈ task.ahead := by
  obtain ⟨moment, hmem, hvisit⟩ := List.mem_filterMap.mp h
  rw [visit?] at hvisit
  split at hvisit
  · rename_i update entry ahead failed count hstepping
    obtain rfl := Option.some.inj hvisit
    rw [stepping?] at hstepping
    split at hstepping
    · split at hstepping
      · exact ⟨moment, hmem, rfl, _, List.mem_of_getElem? hstepping, List.mem_cons_self⟩
      · cases hstepping
    · cases hstepping
  · cases hvisit

theorem mem_removals_iff :
    connection ∈ removals i chronicle ↔
      ∃ moment ∈ chronicle, ∃ failed count, moment.2 = .task i ∧
        moment.1.tasks[i]? = some (.remove (connection :: failed) count) := by
  rw [removals, List.mem_filterMap]
  refine exists_congr fun moment => and_congr_right fun _ => ?_
  obtain ⟨before, happening⟩ := moment
  constructor
  · intro h
    rw [removal?] at h
    split at h
    · rename_i other failed count hstepping
      obtain rfl := Option.some.inj h
      rw [stepping?] at hstepping
      split at hstepping
      · split at hstepping
        · rename_i j hhappening heq
          exact ⟨failed, count, heq ▸ hhappening, hstepping⟩
        · cases hstepping
      · cases hstepping
    · cases h
  · rintro ⟨failed, count, rfl, htask⟩
    have hstepping : stepping? i (before, .task i) = some (.remove (connection :: failed) count) :=
      (if_pos rfl).trans htask
    rw [removal?, hstepping]

end Workload

end DefiniteIntegral
