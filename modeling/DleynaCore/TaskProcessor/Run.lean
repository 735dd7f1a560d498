import DleynaCore.Library.JobQueue
import DleynaCore.Library.Transition
import DleynaCore.TaskProcessor.Operations

/-!
# Runs of the task processor

What the client and the main loop can do next, as labels of a transition system. A run starts from
`dleyna_task_processor_new` and interleaves the calls of the client with dispatches of the main
loop in any order.
-/

namespace DleynaCore

/-- One step of a run. The functions `sync` are the choices that the cancel callbacks make. -/
inductive Op where
  | addQueue (key : TaskQueueKey) (flags : UInt32)
  | addTask (queueId : TaskQueueKey) (task : TaskAtom)
  | start (queueId : TaskQueueKey)
  | cancelQueue (queueId : TaskQueueKey) (sync : TaskAtom → Bool)
  | removeQueuesForSource (source : String) (sync : TaskAtom → Bool)
  | removeQueuesForSink (sink : String) (sync : TaskAtom → Bool)
  | setQuitting (sync : TaskAtom → Bool)
  /-- The client reports that the task is completed. -/
  | taskCompleted (queueId : TaskQueueKey) (task : TaskAtom)
  | setFinally (queueId : TaskQueueKey) (finallyCb : Option Gpointer)
  | setUserData (queueId : TaskQueueKey) (userData : Gpointer)
  /-- The main loop dispatches the pending source of the queue. -/
  | dispatch (queueId : TaskQueueKey)
  /-- The main loop dispatches a pending `on_quit_cb`. -/
  | dispatchQuit
  /-- GLib changes the order in which the table is traversed. -/
  | rehash (taskQueues : TaskQueues)

/-- The effect of a step. -/
def step (w : World) : Op → Except Fault World
  | .addQueue key flags => .ok (dleynaTaskProcessorAddQueue w key flags)
  | .addTask queueId task => dleynaTaskQueueAddTask w queueId task
  | .start queueId => dleynaTaskQueueStart w queueId
  | .cancelQueue queueId sync => dleynaTaskProcessorCancelQueue sync w queueId
  | .removeQueuesForSource source sync => dleynaTaskProcessorRemoveQueuesForSource source sync w
  | .removeQueuesForSink sink sync => dleynaTaskProcessorRemoveQueuesForSink sink sync w
  | .setQuitting sync => dleynaTaskProcessorSetQuitting sync w
  | .taskCompleted queueId task =>
    dleynaTaskQueueTaskCompleted (w.emit [.completed queueId task]) queueId
  | .setFinally queueId finallyCb => dleynaTaskQueueSetFinally w queueId finallyCb
  | .setUserData queueId userData => dleynaTaskQueueSetUserData w queueId userData
  | .dispatch queueId => dispatchProcessTask w queueId
  | .dispatchQuit => .ok (dispatchOnQuitCb w)
  | .rehash taskQueues => .ok { w with taskQueues := taskQueues }

/-- What an event says about the tasks of the queue `k`. -/
def jobEvent (k : TaskQueueKey) : Event → Option (JobEvent TaskAtom)
  | .addTask k' t => if k' = k then some (.added t) else none
  | .processCb k' t _ => if k' = k then some (.begun t) else none
  | .completed k' t => if k' = k then some (.finished t) else none
  | .cancelCb k' t _ => if k' = k then some (.cancelled t) else none
  | .deleteCb k' t _ => if k' = k then some (.deleted t) else none
  | _ => none

/-- What happened to the tasks of the queue `k`. -/
def jobEvents (k : TaskQueueKey) (log : List Event) : List (JobEvent TaskAtom) :=
  log.filterMap (jobEvent k)

/-- The tasks added to the queue, in order. -/
def addedTasks (k : TaskQueueKey) (log : List Event) : List TaskAtom :=
  JobQueue.addedJobs (jobEvents k log)

/-- The tasks of the queue handed to the process callback, in order. -/
def processedTasks (k : TaskQueueKey) (log : List Event) : List TaskAtom :=
  JobQueue.begunJobs (jobEvents k log)

/-- The tasks of the queue reported completed, in order. -/
def completedTasks (k : TaskQueueKey) (log : List Event) : List TaskAtom :=
  JobQueue.finishedJobs (jobEvents k log)

/-- The tasks of the queue handed to the cancel callback, in order. -/
def cancelledTasks (k : TaskQueueKey) (log : List Event) : List TaskAtom :=
  JobQueue.cancelledJobs (jobEvents k log)

/-- The tasks of the queue handed to the delete callback, in order. -/
def deletedTasks (k : TaskQueueKey) (log : List Event) : List TaskAtom :=
  JobQueue.deletedJobs (jobEvents k log)

/-- The task is between its process callback and its completion. -/
def InFlight (log : List Event) (k : TaskQueueKey) (t : TaskAtom) : Prop :=
  t ∈ processedTasks k log ∧ t ∉ completedTasks k log

instance (log : List Event) (k : TaskQueueKey) (t : TaskAtom) : Decidable (InFlight log k t) :=
  inferInstanceAs (Decidable (_ ∧ _))

/-- The tasks handed to their process callbacks, with their queues. -/
def processedPairs (log : List Event) : List (TaskQueueKey × TaskAtom) :=
  log.filterMap fun e =>
    match e with
    | .processCb k t _ => some (k, t)
    | _ => none

/-- The tasks in flight, with their queues. -/
def inFlightTasks (log : List Event) : List (TaskQueueKey × TaskAtom) :=
  (processedPairs log).filter fun x => x.2 ∉ completedTasks x.1 log

/-- Every task ever added, to whatever queue. -/
def allAdded (log : List Event) : List TaskAtom :=
  log.filterMap fun e =>
    match e with
    | .addTask _ t => some t
    | _ => none

/-- What the environment promises: queues are added under absent pairs with keys of their own (and
the table counts its entries in a `guint`), each task is added once (the queue owns it from then on
and deletes it), a completion is reported only for a task that was processed and not completed
before, and the main loop dispatches only pending sources. -/
def Guard (w : World) : Op → Prop
  | .addQueue key _ =>
    w.taskQueues.lookup key.pair = none ∧ w.logOf key = [] ∧ w.taskQueues.size + 1 < guintSize
  | .addTask _ task => task ∉ allAdded w.log
  | .taskCompleted queueId task => InFlight w.log queueId task
  | .dispatch queueId => IdleSource.processTask queueId ∈ w.sources.map Prod.snd
  | .dispatchQuit => IdleSource.onQuitCb ∈ w.sources.map Prod.snd
  | .rehash taskQueues => taskQueues.entries.Perm w.taskQueues.entries
  | _ => True

instance : ∀ (w : World) (op : Op), Decidable (Guard w op)
  | _, .addQueue _ _ => inferInstanceAs (Decidable (_ ∧ _ ∧ _))
  | _, .addTask _ _ => inferInstanceAs (Decidable (_ ∉ _))
  | _, .taskCompleted _ _ => inferInstanceAs (Decidable (InFlight _ _ _))
  | _, .dispatch _ => inferInstanceAs (Decidable (_ ∈ _))
  | _, .dispatchQuit => inferInstanceAs (Decidable (_ ∈ _))
  | _, .rehash _ => inferInstanceAs (Decidable (List.Perm _ _))
  | _, .start _ | _, .cancelQueue _ _ | _, .removeQueuesForSource _ _
  | _, .removeQueuesForSink _ _ | _, .setQuitting _ | _, .setFinally _ _
  | _, .setUserData _ _ => inferInstanceAs (Decidable True)

/-- The task processor as a transition system. -/
def processor : System World Op Fault where
  init := World.new
  guard := Guard
  step := step

instance (w : World) (op : Op) : Decidable (processor.guard w op) :=
  inferInstanceAs (Decidable (Guard w op))

/-- One more step of the processor. -/
theorem processor_snoc {P : World → Op → Prop} {w w' w'' : World} {op : Op}
    (h : processor.Path P w w') (hg : Guard w' op) (hP : P w' op) (hs : step w' op = .ok w'') :
    processor.Path P w w'' := h.snoc (a := op) hg hP hs

/-- Every step is allowed. -/
def Any (_ : World) (_ : Op) : Prop := True

instance (w : World) (op : Op) : Decidable (Any w op) := isTrue trivial

end DleynaCore
