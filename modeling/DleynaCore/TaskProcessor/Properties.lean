import DleynaCore.TaskProcessor.QueueView
import Mathlib.Data.List.DropRight

/-!
# What the task processor should guarantee

The properties of the states and histories of the processor, and for those that do not hold in every
run the conditions on the steps under which they do.
-/

namespace DleynaCore

/-! ## Queues -/

/-- The representation invariant of a registered queue: its source id is set exactly when one
`prv_process_task` source is pending for it, and then tasks wait and none runs; a deferred removal
waits for a running task; an `AUTO_START` queue with waiting tasks is running or scheduled; an
`AUTO_REMOVE` queue that has processed a task is not left empty. -/
structure Represented (w : World) (k : TaskQueueKey) (queue : TaskQueue) : Prop where
  pending : w.pendingOf k = if queue.idleId = 0 then [] else [queue.idleId]
  idle : queue.idleId ≠ 0 → queue.currentTask = none ∧ queue.tasks ≠ []
  deferred : queue.deferRemove = true → queue.currentTask ≠ none
  started : queue.autoStart = true → queue.tasks ≠ [] →
    queue.currentTask ≠ none ∨ w.pendingOf k ≠ []
  lingers : queue.autoRemove = true → processedTasks k w.log ≠ [] →
    queue.currentTask ≠ none ∨ queue.tasks ≠ []

/-- Strict first-in first-out service of the queue `k`, one task at a time. -/
structure ServesInOrder (w : World) (k : TaskQueueKey) : Prop where
  /-- At no moment of the history are two tasks in flight. -/
  one : ∀ l, l <+: w.log → ∀ t t', InFlight l k t → InFlight l k t' → t = t'
  /-- When a task is handed to its process callback, every task added before it has been completed
  or cancelled. -/
  first : ∀ l1 l2 t userData, w.log = l1 ++ .processCb k t userData :: l2 →
    ∃ before after, addedTasks k l1 = before ++ t :: after ∧
      ∀ t' ∈ before, t' ∈ completedTasks k l1 ∨ t' ∈ cancelledTasks k l1
  /-- The tasks are processed in the order in which they were added. -/
  sublist : (processedTasks k w.log).Sublist (addedTasks k w.log)
  /-- The waiting tasks are the suffix of the added ones that are neither processed nor cancelled. -/
  waiting : ∀ queue, w.taskQueues.find? k = some queue →
    ∃ before, addedTasks k w.log = before ++ queue.tasks ∧
      (∀ t ∈ before, t ∈ processedTasks k w.log ∨ t ∈ cancelledTasks k w.log) ∧
      ∀ t ∈ queue.tasks, t ∉ processedTasks k w.log ∧ t ∉ cancelledTasks k w.log

/-- Nothing happens to the queue `k`: its record, its pending dispatches and its history stay. -/
structure Unchanged (k : TaskQueueKey) (w w' : World) : Prop where
  queue : w'.taskQueues.find? k = w.taskQueues.find? k
  pending : w'.pendingOf k = w.pendingOf k
  log : w'.logOf k = w.logOf k

/-! ## Dispatches -/

/-- Every pending dispatch finds its queue in the table, known by its source, with a task to start
and none running; so `prv_process_task` does not fault. -/
structure NoStaleDispatch (w : World) : Prop where
  ready : ∀ id k, (id, IdleSource.processTask k) ∈ w.sources →
    ∃ queue, w.taskQueues.find? k = some queue ∧ queue.idleId = id ∧ queue.tasks ≠ [] ∧
      queue.currentTask = none
  runs : ∀ k, IdleSource.processTask k ∈ w.sources.map Prod.snd →
    ∃ w', dispatchProcessTask w k = .ok w'

/-- The step removes no queue with a pending dispatch without cancelling it first: the marked queues
that a bulk removal finds have none; when the processor quits, every queue that has one is reached
by the traversal and not marked; the last completion of a quitting processor meets none. -/
def KeepsDispatches (w : World) : Op → Prop
  | .removeQueuesForSource source _ => ∀ e ∈ w.taskQueues.entries,
    source = e.1.source → e.2.cancelled = true → e.2.idleId = 0
  | .removeQueuesForSink sink _ => ∀ e ∈ w.taskQueues.entries,
    sink = e.1.sink → e.2.cancelled = true → e.2.idleId = 0
  | .setQuitting sync => ∀ e ∈ w.taskQueues.entries,
    e.2.idleId ≠ 0 → e.2.cancelled = false ∧ w.Reached sync e.1
  | .taskCompleted _ _ => w.lastTask = true → ∀ e ∈ w.taskQueues.entries, e.2.idleId = 0
  | .cancelQueue queueId sync => (w.lastTask && w.completesOnCancel sync queueId) = true →
    ∀ e ∈ w.taskQueues.entries, e.2.idleId = 0
  | _ => True

instance : ∀ (w : World) (op : Op), Decidable (KeepsDispatches w op)
  | _, .removeQueuesForSource _ _ | _, .removeQueuesForSink _ _ | _, .setQuitting _ =>
    inferInstanceAs (Decidable (∀ e ∈ _, _))
  | _, .taskCompleted _ _ | _, .cancelQueue _ _ => inferInstanceAs (Decidable (_ → ∀ e ∈ _, _))
  | _, .addQueue _ _ | _, .addTask _ _ | _, .start _ | _, .setFinally _ _ | _, .setUserData _ _
  | _, .dispatch _ | _, .dispatchQuit | _, .rehash _ => inferInstanceAs (Decidable True)

/-- Every pending dispatch names a registered queue that has a task to start. -/
def DispatchesReady (w : World) : Prop :=
  ∀ k, IdleSource.processTask k ∈ w.sources.map Prod.snd →
    ∃ queue, w.taskQueues.find? k = some queue ∧ queue.tasks ≠ []

/-- What adding a queue should have done by `w'`: the key that is returned is alive, and a lookup of
the pair finds it; every queue that was registered has not changed, or is done with; and the pending
dispatches are ready. -/
structure AddsQueue (w : World) (key : TaskQueueKey) (w' : World) : Prop where
  live : ∃ queue, w'.taskQueues.find? key = some queue
  found : dleynaTaskProcessorLookupQueue w' key.source key.sink = some key
  kept : ∀ k queue, w.taskQueues.find? k = some queue →
    Unchanged k w w' ∨ (∀ t, ¬ InFlight w'.log k t) ∧ w'.pendingOf k = []
  ready : DispatchesReady w'

/-! ## Tasks in flight -/

/-- A task runs in the queue. -/
def TaskQueue.busy (queue : TaskQueue) : Bool := queue.currentTask.isSome

/-- A queue stays in the table while its task is in flight, so that the completion finds it, and
`running_tasks` counts the queues with a running task. -/
structure TracksFlights (w : World) : Prop where
  registered : ∀ k t, InFlight w.log k t →
    ∃ queue, w.taskQueues.find? k = some queue ∧ queue.currentTask = some t
  completes : ∀ k t, InFlight w.log k t → ∃ w', step w (.taskCompleted k t) = .ok w'
  running : w.runningTasks = w.taskQueues.count TaskQueue.busy

/-- The step removes no queue with a running task: an `AUTO_REMOVE` queue is not started while its
last task runs, and when the processor quits, every queue with a running task is reached by the
traversal and its cancel callback completes the task. -/
def KeepsFlights (w : World) : Op → Prop
  | .start queueId => ∀ e ∈ w.taskQueues.entries, e.1 = queueId →
    w.quitting = true ∨ e.2.deferRemove = true ∨ e.2.tasks ≠ [] ∨ e.2.autoRemove = false ∨
      e.2.busy = false
  | .setQuitting sync => ∀ e ∈ w.taskQueues.entries,
    e.2.busy = true → e.2.completesOnCancel sync = true ∧ w.Reached sync e.1
  | _ => True

instance : ∀ (w : World) (op : Op), Decidable (KeepsFlights w op)
  | _, .start _ | _, .setQuitting _ => inferInstanceAs (Decidable (∀ e ∈ _, _))
  | _, .addQueue _ _ | _, .addTask _ _ | _, .cancelQueue _ _ | _, .removeQueuesForSource _ _
  | _, .removeQueuesForSink _ _ | _, .taskCompleted _ _ | _, .setFinally _ _ | _, .setUserData _ _
  | _, .dispatch _ | _, .dispatchQuit | _, .rehash _ => inferInstanceAs (Decidable True)

/-! ## Tasks -/

/-- The event hands the task to its process callback. -/
def Event.processes (task : TaskAtom) : Event → Bool
  | .processCb _ t _ => t == task
  | _ => false

/-- The event hands the task to its delete callback. -/
def Event.deletes (task : TaskAtom) : Event → Bool
  | .deleteCb _ t _ => t == task
  | _ => false

/-- The event hands the task to its cancel callback. -/
def Event.cancels (task : TaskAtom) : Event → Bool
  | .cancelCb _ t _ => t == task
  | _ => false

/-- No task is lost, dropped silently or freed twice: it is processed at most once and deleted
exactly once, nothing happens to it after its deletion, and if it was never processed it was
cancelled. -/
structure AccountedFor (log : List Event) (task : TaskAtom) : Prop where
  processed : log.countP (Event.processes task) ≤ 1
  deleted : log.countP (Event.deletes task) = 1
  last : ∀ l1 e l2, log = l1 ++ e :: l2 → e.deletes task = true → ∀ e' ∈ l2, e'.task ≠ some task
  cancelled : log.any (Event.processes task) = false → log.any (Event.cancels task) = true

/-- The step throws away no waiting task: the marked queues that a bulk removal removes are empty;
when the processor quits, every queue with waiting tasks is reached by the traversal and not marked;
a queue whose removal was deferred is empty when its task completes; the last completion of a
quitting processor leaves no waiting task in any other queue, or in its own, unless that one is being
cancelled. -/
def KeepsTasks (w : World) : Op → Prop
  | .removeQueuesForSource source _ => ∀ e ∈ w.taskQueues.entries,
    source = e.1.source → e.2.cancelled = true → e.2.busy = false → e.2.tasks = []
  | .removeQueuesForSink sink _ => ∀ e ∈ w.taskQueues.entries,
    sink = e.1.sink → e.2.cancelled = true → e.2.busy = false → e.2.tasks = []
  | .setQuitting sync => ∀ e ∈ w.taskQueues.entries,
    e.2.tasks ≠ [] → e.2.cancelled = false ∧ w.Reached sync e.1
  | .taskCompleted queueId _ => ∀ e ∈ w.taskQueues.entries,
    (w.lastTask = true ∨ e.1 = queueId ∧ e.2.deferRemove = true) → e.2.tasks = []
  | .cancelQueue queueId sync => ∀ e ∈ w.taskQueues.entries,
    (w.lastTask && w.completesOnCancel sync queueId) = true → e.1 ≠ queueId → e.2.tasks = []
  | _ => True

instance : ∀ (w : World) (op : Op), Decidable (KeepsTasks w op)
  | _, .removeQueuesForSource _ _ | _, .removeQueuesForSink _ _ | _, .setQuitting _
  | _, .taskCompleted _ _ | _, .cancelQueue _ _ => inferInstanceAs (Decidable (∀ e ∈ _, _))
  | _, .addQueue _ _ | _, .addTask _ _ | _, .start _ | _, .setFinally _ _ | _, .setUserData _ _
  | _, .dispatch _ | _, .dispatchQuit | _, .rehash _ => inferInstanceAs (Decidable True)

/-- Every task handed to its process callback has been reported completed. -/
def AllCompleted (log : List Event) : Prop :=
  ∀ e ∈ log, match e with
    | .processCb k t _ => Event.completed k t ∈ log
    | _ => True

instance (log : List Event) : Decidable (AllCompleted log) :=
  haveI : DecidablePred fun e : Event =>
      match e with
      | .processCb k t _ => Event.completed k t ∈ log
      | _ => True := fun e => by cases e <;> infer_instance
  inferInstanceAs (Decidable (∀ e ∈ log, _))

/-- The condition on `dleyna_task_processor_free`: no task waits. -/
def NoWaitingTasks (w : World) : Prop := ∀ e ∈ w.taskQueues.entries, e.2.tasks = []

instance (w : World) : Decidable (NoWaitingTasks w) := inferInstanceAs (Decidable (∀ e ∈ _, _))

/-! ## Cancellation -/

/-- The callbacks that the task was handed to, in order. -/
def callsFor (task : TaskAtom) (log : List Event) : List Event :=
  log.filter fun e => e.processes task || e.cancels task || e.deletes task

/-- The task was handed to its cancel callback and then to its delete callback, each once, and never
to its process callback. -/
def CancelledOnce (log : List Event) (k : TaskQueueKey) (t : TaskAtom) : Prop :=
  ∃ userData, callsFor t log = [.cancelCb k t userData, .deleteCb k t userData]

/-- The task was handed to its cancel callback since it was handed to its process callback. -/
def CancelSent (log : List Event) (k : TaskQueueKey) (t : TaskAtom) : Prop :=
  ∃ l1 u l2 u', log = l1 ++ .processCb k t u :: l2 ∧ .cancelCb k t u' ∈ l2

/-- What cancelling the queue should have done by `w'`: the waiting tasks are cancelled, and never
processed however the run goes on; no dispatch is pending; the running task was sent its cancel
callback; an `AUTO_REMOVE` queue without one is gone; and nothing else has changed, unless the cancel
callback completed the running task. -/
structure CancelEffective (sync : TaskAtom → Bool) (w : World) (k : TaskQueueKey)
    (queue : TaskQueue) (w' : World) : Prop where
  waiting : ∀ t ∈ queue.tasks, ∀ w'', processor.Path Any w' w'' →
    CancelledOnce w''.log k t
  pending : w'.pendingOf k = []
  running : ∀ t, queue.currentTask = some t → CancelSent w'.log k t
  removed : queue.autoRemove = true → queue.currentTask = none → w'.taskQueues.find? k = none
  others : queue.completesOnCancel sync = false → (∀ k', k' ≠ k → Unchanged k' w w') ∧
    w'.runningTasks = w.runningTasks ∧ w'.quitting = w.quitting

/-- The event is the finally callback of the queue. -/
def Event.isFinally (queueId : TaskQueueKey) : Event → Bool
  | .finallyCb k _ _ _ => k == queueId
  | _ => false

/-- What removing the queue should have done by `w'`: its waiting tasks are cancelled; without a
running task the queue is gone, and its finally callback was called; with one it is kept for that
task, whose completion removes it. -/
structure RemovalEffective (k : TaskQueueKey) (queue : TaskQueue) (w' : World) : Prop where
  waiting : ∀ t ∈ queue.tasks, CancelledOnce w'.log k t
  gone : queue.currentTask = none → w'.taskQueues.find? k = none ∧
    w'.log.countP (Event.isFinally k) = if queue.taskQueueFinallyCb.isSome = true then 1 else 0
  kept : ∀ t, queue.currentTask = some t →
    (∃ queue', w'.taskQueues.find? k = some queue' ∧ queue'.currentTask = some t ∧
      queue'.deferRemove = true ∧ queue'.tasks = []) ∧
    ∀ w1 w2, processor.Path Any w' w1 → InFlight w1.log k t →
      step w1 (.taskCompleted k t) = .ok w2 → w2.taskQueues.find? k = none

/-- A bulk removal does not fault, removes each queue that it is to remove, and leaves the others. -/
def RemovesEach (hit : TaskQueueKey → Bool) (w : World) (r : Except Fault World) : Prop :=
  ∃ w', r = .ok w' ∧
    (∀ e ∈ w.taskQueues.entries, hit e.1 = true → RemovalEffective e.1 e.2 w') ∧
    ∀ k, hit k = false → Unchanged k w w'

/-- The queue can be removed: it is marked and no task waits; or it is not marked, and the cancel
callback of its running task does not complete the task, or it has none and is not an `AUTO_REMOVE`
queue. -/
def TaskQueue.Removable (sync : TaskAtom → Bool) (queue : TaskQueue) : Prop :=
  match queue.cancelled, queue.currentTask with
  | true, _ => queue.tasks = []
  | false, some task => sync task = false
  | false, none => queue.autoRemove = false

/-! ## Quitting -/

/-- The event hands a task to its process callback. -/
def Event.isProcess : Event → Bool
  | .processCb _ _ _ => true
  | _ => false

/-- No task is processed after `dleyna_task_processor_set_quitting` was called. -/
def NothingStarts (log : List Event) : Prop :=
  log.Pairwise fun e e' => e = .setQuitting → e'.isProcess = false

/-- While the processor is quitting, no task is added to an `AUTO_START` queue. -/
def StartsNothing (w : World) : Op → Prop
  | .addTask queueId _ => ∀ e ∈ w.taskQueues.entries,
    e.1 = queueId → w.quitting = true → e.2.autoStart = false
  | _ => True

instance : ∀ (w : World) (op : Op), Decidable (StartsNothing w op)
  | _, .addTask _ _ => inferInstanceAs (Decidable (∀ e ∈ _, _))
  | _, .addQueue _ _ | _, .start _ | _, .cancelQueue _ _ | _, .removeQueuesForSource _ _
  | _, .removeQueuesForSink _ _ | _, .setQuitting _ | _, .taskCompleted _ _ | _, .setFinally _ _
  | _, .setUserData _ _ | _, .dispatch _ | _, .dispatchQuit | _, .rehash _ =>
    inferInstanceAs (Decidable True)

/-- The event schedules `on_quit_cb`. -/
def Event.isSchedule : Event → Bool
  | .scheduleQuit _ _ => true
  | _ => false

/-- The event runs `on_quit_cb`. -/
def Event.isQuitCb : Event → Bool
  | .quitCb _ => true
  | _ => false

/-- `on_quit_cb` was scheduled. -/
def World.scheduled (w : World) : Bool := w.log.any Event.isSchedule

/-- Once `on_quit_cb` was scheduled, the processor is not asked to quit again unless tasks run none
of which completes inside its cancel callback, and no completion is the last one; and no queue is
added while `on_quit_cb` is pending. -/
def SchedulesOnce (w : World) : Op → Prop
  | .setQuitting sync => w.scheduled = true → w.runningTasks ≠ 0 ∧
    ∀ e ∈ w.taskQueues.entries, e.2.completesOnCancel sync = false
  | .taskCompleted _ _ => w.scheduled = true → w.lastTask = false
  | .cancelQueue queueId sync => w.scheduled = true →
    (w.lastTask && w.completesOnCancel sync queueId) = false
  | .addQueue _ _ => IdleSource.onQuitCb ∉ w.sources.map Prod.snd
  | _ => True

instance : ∀ (w : World) (op : Op), Decidable (SchedulesOnce w op)
  | _, .setQuitting _ => inferInstanceAs (Decidable (_ → _ ∧ ∀ e ∈ _, _))
  | _, .taskCompleted _ _ | _, .cancelQueue _ _ => inferInstanceAs (Decidable (_ → _))
  | _, .addQueue _ _ => inferInstanceAs (Decidable (_ ∉ _))
  | _, .addTask _ _ | _, .start _ | _, .removeQueuesForSource _ _ | _, .removeQueuesForSink _ _
  | _, .setFinally _ _ | _, .setUserData _ _ | _, .dispatch _ | _, .dispatchQuit | _, .rehash _ =>
    inferInstanceAs (Decidable True)

/-- The processor is asked to quit once, and no queue is added to it afterwards. -/
def QuitsLast (w : World) : Op → Prop
  | .setQuitting _ | .addQueue _ _ => w.quitting = false
  | _ => True

instance : ∀ (w : World) (op : Op), Decidable (QuitsLast w op)
  | _, .setQuitting _ | _, .addQueue _ _ => inferInstanceAs (Decidable (_ = _))
  | _, .addTask _ _ | _, .start _ | _, .cancelQueue _ _ | _, .removeQueuesForSource _ _
  | _, .removeQueuesForSink _ _ | _, .taskCompleted _ _ | _, .setFinally _ _ | _, .setUserData _ _
  | _, .dispatch _ | _, .dispatchQuit | _, .rehash _ => inferInstanceAs (Decidable True)

/-! ## Finally callbacks -/

/-- The event hands a task of the queue to its process callback. -/
def Event.dispatches (queueId : TaskQueueKey) : Event → Bool
  | .processCb k _ _ => k == queueId
  | _ => false

/-- The history since the last dispatch of the queue. -/
def sinceDispatch (k : TaskQueueKey) (log : List Event) : List Event :=
  log.rtakeWhile fun e => !e.dispatches k

/-- The history up to the last dispatch of the queue. -/
def upToDispatch (k : TaskQueueKey) (log : List Event) : List Event :=
  log.rdropWhile fun e => !e.dispatches k

/-- What the argument of the finally callback of a queue tells, which is freed after this history:
`TRUE` if a task was cancelled since the last dispatch; `FALSE` only if every task that did not
wait any more was completed and never cancelled, or was cancelled before the last dispatch. -/
structure TellsCancels (log : List Event) (k : TaskQueueKey) (cancelled : Bool) : Prop where
  cancel : cancelledTasks k (sinceDispatch k log) ≠ [] → cancelled = true
  noCancel : cancelled = false → ∀ t ∈ addedTasks k log,
    t ∈ completedTasks k log ∧ t ∉ cancelledTasks k log ∨
      t ∈ cancelledTasks k (upToDispatch k log) ∨
      t ∉ processedTasks k log ∧ t ∉ cancelledTasks k log

/-- Every finally callback of a queue that is freed with no task in flight tells what happened to
its tasks. -/
def FinallyTells (log : List Event) : Prop :=
  ∀ l1 k cb cancelled userData l2, log = l1 ++ .finallyCb k cb cancelled userData :: l2 →
    (∀ t, ¬ InFlight l1 k t) → TellsCancels l1 k cancelled

/-! ## Independence of queues -/

/-- The step concerns the queue `k`. -/
def addressedTo (k : TaskQueueKey) : Op → Bool
  | .addQueue queueId _ | .addTask queueId _ | .start queueId | .cancelQueue queueId _
  | .taskCompleted queueId _ | .setFinally queueId _ | .setUserData queueId _
  | .dispatch queueId => queueId = k
  | .removeQueuesForSource source _ => source = k.source
  | .removeQueuesForSink sink _ => sink = k.sink
  | .setQuitting _ | .dispatchQuit | .rehash _ => false

/-- `dleyna_task_processor_set_quitting` is not called. -/
def NeverQuits (_ : World) : Op → Prop
  | .setQuitting _ => False
  | _ => True

instance : ∀ (w : World) (op : Op), Decidable (NeverQuits w op)
  | _, .setQuitting _ => inferInstanceAs (Decidable False)
  | _, .addQueue _ _ | _, .addTask _ _ | _, .start _ | _, .cancelQueue _ _
  | _, .removeQueuesForSource _ _ | _, .removeQueuesForSink _ _ | _, .taskCompleted _ _
  | _, .setFinally _ _ | _, .setUserData _ _ | _, .dispatch _ | _, .dispatchQuit | _, .rehash _ =>
    inferInstanceAs (Decidable True)

/-! ## Order of bulk removals -/

/-- `dleyna_task_processor_remove_queues_for_source` returns, the table being traversed in some order. -/
def RemovesForSource (source : String) (w w' : World) : Prop :=
  ∃ taskQueues sync, taskQueues.entries.Perm w.taskQueues.entries ∧
    dleynaTaskProcessorRemoveQueuesForSource source sync { w with taskQueues := taskQueues } = .ok w'

/-- `dleyna_task_processor_remove_queues_for_sink` returns, the table being traversed in some order. -/
def RemovesForSink (sink : String) (w w' : World) : Prop :=
  ∃ taskQueues sync, taskQueues.entries.Perm w.taskQueues.entries ∧
    dleynaTaskProcessorRemoveQueuesForSink sink sync { w with taskQueues := taskQueues } = .ok w'

/-- The same queues are registered, each with the same record and pending dispatch, and the same
callbacks were called, though in another order. -/
structure SameOutcome (w w' : World) : Prop where
  queues : ∀ k, w'.taskQueues.find? k = w.taskQueues.find? k
  pending : ∀ k, (w'.pendingOf k).length = (w.pendingOf k).length
  running : w'.runningTasks = w.runningTasks
  log : w'.log.Perm w.log

/-- Bulk removals for a source and for a sink should have the same outcome in both orders, and each
should do nothing when it is repeated. -/
structure RemovalsCommute (source sink : String) (w : World) : Prop where
  commute : ∀ w1 w2 v1 v2, RemovesForSource source w w1 → RemovesForSink sink w1 w2 →
    RemovesForSink sink w v1 → RemovesForSource source v1 v2 → SameOutcome w2 v2
  sourceTwice : ∀ w1, RemovesForSource source w w1 → ∀ (taskQueues : TaskQueues) sync,
    taskQueues.entries.Perm w1.taskQueues.entries →
      dleynaTaskProcessorRemoveQueuesForSource source sync { w1 with taskQueues := taskQueues } =
        .ok { w1 with taskQueues := taskQueues }
  sinkTwice : ∀ w1, RemovesForSink sink w w1 → ∀ (taskQueues : TaskQueues) sync,
    taskQueues.entries.Perm w1.taskQueues.entries →
      dleynaTaskProcessorRemoveQueuesForSink sink sync { w1 with taskQueues := taskQueues } =
        .ok { w1 with taskQueues := taskQueues }

end DleynaCore
