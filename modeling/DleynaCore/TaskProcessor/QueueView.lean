import DleynaCore.TaskProcessor.Run

/-!
# The processor as seen from one queue

The queues share a hash table, a counter and a main loop. Seen from one queue, a step of the
processor is nothing at all, or one of the requests below, answered from the record of that queue
alone. `effect` says which request a step makes of a queue.
-/

namespace DleynaCore

namespace TaskQueue

/-- The record up to the numeric value of its source id. -/
def shape (queue : TaskQueue) : TaskQueue :=
  { queue with idleId := if queue.idleId = 0 then 0 else 1 }

/-- The record after `prv_cancel_only` has dealt with the waiting tasks. -/
def drain (queue : TaskQueue) : TaskQueue :=
  { queue with cancelled := true, tasks := [], idleId := 0 }

/-- The cancel callback of the running task completes it before it returns. -/
def completesOnCancel (sync : TaskAtom → Bool) (queue : TaskQueue) : Bool :=
  !queue.cancelled &&
    match queue.currentTask with
    | some task => sync task
    | none => false

end TaskQueue

/-- What a step of the processor asks of one queue. -/
inductive Request where
  | addQueue (flags : UInt32)
  | addTask (task : TaskAtom)
  | start (quitting : Bool)
  | cancel (sync : TaskAtom → Bool)
  /-- `prv_free_queue_for_source` or `prv_free_queue_for_sink` finds the queue. -/
  | remove (sync : TaskAtom → Bool)
  | complete (task : TaskAtom)
  | dispatch
  | setFinally (finallyCb : Option Gpointer)
  | setUserData (userData : Gpointer)
  /-- The completion after which no task runs while quitting: every queue is removed. -/
  | lastComplete (task : TaskAtom)
  /-- The queue is cancelled, and is gone when the call returns. -/
  | quitCancel (sync : TaskAtom → Bool)
  /-- The queue is removed as it is. -/
  | drop

namespace TaskQueue

/-- The end of `dleyna_task_queue_task_completed`, the running task being deleted. -/
def finish (k : TaskQueueKey) (queue : TaskQueue) : Option TaskQueue × List Event :=
  if queue.deferRemove then (none, freeCalls k queue)
  else if 0 < queue.tasks.length then (some { queue with currentTask := none, idleId := 1 }, [])
  else if queue.autoRemove then (none, freeCalls k queue)
  else (some { queue with currentTask := none }, [])

/-- The calls when the cancel callback of the running task completes it. -/
def cancelCompleteCalls (k : TaskQueueKey) (queue : TaskQueue) (task : TaskAtom) : List Event :=
  [.cancelCb k task queue.userData, .completed k task, .deleteCb k task queue.userData]

/-- The delete callback of the running task, if there is one. -/
def deleteCurrent (k : TaskQueueKey) (queue : TaskQueue) : List Event :=
  match queue.currentTask with
  | some task => [.deleteCb k task queue.userData]
  | none => []

/-- How a registered queue answers: what is left of it, and the events. -/
def serve (k : TaskQueueKey) (queue : TaskQueue) : Request → Except Fault (Option TaskQueue × List Event)
  | .addQueue _ => .error .useAfterFree
  | .addTask task =>
    let queue' := { queue with tasks := queue.tasks ++ [task] }
    .ok (some <|
      if queue.deferRemove then queue'
      else if queue.autoStart && (queue.currentTask.isNone && queue.idleId == 0) then
        { queue' with idleId := 1 }
      else queue', [.addTask k task])
  | .start quitting =>
    .ok <|
      if quitting then (some queue, [])
      else if queue.deferRemove then (some queue, [])
      else if 0 < queue.tasks.length then
        if queue.currentTask.isNone && queue.idleId == 0 then (some { queue with idleId := 1 }, [])
        else (some queue, [])
      else if queue.autoRemove then (none, freeCalls k queue)
      else (some queue, [])
  | .cancel sync =>
    .ok <|
      if queue.cancelled then (some queue, [])
      else
        match queue.currentTask with
        | none =>
          if queue.autoRemove then (none, cancelAndFreeCalls k queue ++ freeCalls k queue.drain)
          else (some queue.drain, cancelAndFreeCalls k queue)
        | some task =>
          if sync task then
            ((queue.drain.finish k).1, cancelAndFreeCalls k queue ++
              queue.cancelCompleteCalls k task ++ (queue.drain.finish k).2)
          else
            (some queue.drain, cancelAndFreeCalls k queue ++ [.cancelCb k task queue.userData])
  | .remove sync =>
    if queue.deferRemove then .ok (some queue, [])
    else
      match queue.currentTask with
      | some task =>
        if queue.cancelled then .ok (some { queue with deferRemove := true }, [])
        else if sync task then .error .useAfterFree
        else
          .ok (some { queue.drain with deferRemove := true },
            cancelAndFreeCalls k queue ++ [.cancelCb k task queue.userData])
      | none =>
        if queue.cancelled then .ok (none, freeCalls k queue)
        else if queue.autoRemove then .error .useAfterFree
        else .ok (none, cancelAndFreeCalls k queue ++ freeCalls k queue.drain)
  | .complete task =>
    .ok ((queue.finish k).1,
      [.completed k task] ++ queue.deleteCurrent k ++ (queue.finish k).2)
  | .dispatch =>
    match queue.tasks with
    | [] => .error .emptyTasks
    | task :: tasks =>
      .ok (some { queue with
        cancelled := false, idleId := 0, currentTask := some task, tasks := tasks },
        [.processCb k task queue.userData])
  | .setFinally finallyCb => .ok (some { queue with taskQueueFinallyCb := finallyCb }, [])
  | .setUserData userData => .ok (some { queue with userData := userData }, [])
  | .lastComplete task =>
    .ok (none, [.completed k task] ++ queue.deleteCurrent k ++ freeCalls k queue)
  | .quitCancel sync =>
    .ok (none,
      match queue.currentTask with
      | none => cancelAndFreeCalls k queue ++ freeCalls k queue.drain
      | some task =>
        if sync task then
          cancelAndFreeCalls k queue ++ queue.cancelCompleteCalls k task ++ freeCalls k queue.drain
        else
          cancelAndFreeCalls k queue ++ [.cancelCb k task queue.userData] ++ freeCalls k queue.drain)
  | .drop => .ok (none, freeCalls k queue)

/-- The request takes the pending dispatch of the queue off the main loop. -/
def stops (queue : TaskQueue) : Request → Bool
  | .cancel _ | .remove _ | .quitCancel _ => !queue.cancelled
  | _ => false

end TaskQueue

/-- What can be seen of the processor from one queue: its record, if it is registered, the number of
its pending dispatches, and the events about it. -/
@[ext]
structure QueueView where
  queue : Option TaskQueue
  pending : Nat
  log : List Event

namespace QueueView

/-- What is seen once the record has become `queue`, after the events `es`. A registered queue has a
pending dispatch exactly if its source id is set; when a queue goes, a pending dispatch stays unless
it was stopped. -/
def put (v : QueueView) (stopped : Bool) (queue : Option TaskQueue) (es : List Event) : QueueView :=
  { queue := queue
    pending :=
      match queue with
      | some queue => queue.idleId
      | none => if stopped then 0 else v.pending
    log := v.log ++ es }

/-- How a queue answers a request. One that is not registered can be added; the traversals of the
table do not find it, and everything else uses freed memory. -/
def serve (k : TaskQueueKey) (v : QueueView) (r : Request) : Except Fault QueueView :=
  match v.queue with
  | some queue =>
    match queue.serve k r with
    | .error fault => .error fault
    | .ok (queue', es) => .ok (v.put (queue.stops r) queue' es)
  | none =>
    match r with
    | .addQueue flags => .ok (v.put false (some (.new flags)) [.addQueue k flags])
    | .remove _ | .quitCancel _ | .drop => .ok v
    | _ => .error .useAfterFree

/-- The answer to an optional request. -/
def serve? (k : TaskQueueKey) (v : QueueView) : Option Request → Except Fault QueueView
  | some r => v.serve k r
  | none => .ok v

end QueueView

/-- The processor as seen from the queue `k`. -/
def World.view (w : World) (k : TaskQueueKey) : QueueView :=
  ⟨(w.taskQueues.find? k).map TaskQueue.shape, (w.pendingOf k).length, w.logOf k⟩

/-- What can be seen of the shutdown: the flag, the history of quitting, and the number of pending
`on_quit_cb` sources. -/
@[ext]
structure QuitView where
  quitting : Bool
  log : List Event
  pending : Nat

/-- The shutdown of the processor. -/
def World.quitView (w : World) : QuitView :=
  ⟨w.quitting, w.log.filter fun e => e.key = none,
    (w.sources.filter fun s => s.2 = .onQuitCb).length⟩

/-- What is seen of the shutdown once `on_quit_cb` has been scheduled. -/
def QuitView.schedule (v : QuitView) (runningTasks : Nat) : QuitView :=
  { v with log := v.log ++ [.scheduleQuit v.quitting runningTasks], pending := v.pending + 1 }

/-! ## The traversal of `prv_cancel_all_queues` -/

/-- A completion inside the traversal, `n` tasks running, removes a queue from the table; GLib then
abandons the traversal. -/
def TaskQueue.abandons (queue : TaskQueue) (n : Nat) : Bool :=
  guintPred n == 0 || queue.deferRemove || queue.autoRemove

/-- The queues that the traversal reaches, `n` tasks running. -/
def reachedKeys (sync : TaskAtom → Bool) :
    Nat → List (TaskQueueKey × TaskQueue) → List TaskQueueKey
  | _, [] => []
  | n, (k, queue) :: es =>
    if queue.completesOnCancel sync then
      if queue.abandons n then [k] else k :: reachedKeys sync (guintPred n) es
    else k :: reachedKeys sync n es

/-- The number of running tasks after the traversal. -/
def quitRunning (sync : TaskAtom → Bool) : Nat → List (TaskQueueKey × TaskQueue) → Nat
  | n, [] => n
  | n, (_, queue) :: es =>
    if queue.completesOnCancel sync then
      if queue.abandons n then guintPred n else quitRunning sync (guintPred n) es
    else quitRunning sync n es

/-- The traversal completes the last running task. -/
def quitCompletes (sync : TaskAtom → Bool) : Nat → List (TaskQueueKey × TaskQueue) → Bool
  | _, [] => false
  | n, (_, queue) :: es =>
    if queue.completesOnCancel sync then
      if queue.abandons n then guintPred n == 0 else quitCompletes sync (guintPred n) es
    else quitCompletes sync n es

/-- The queue is reached by the traversal of `prv_cancel_all_queues`. -/
def World.Reached (w : World) (sync : TaskAtom → Bool) (k : TaskQueueKey) : Prop :=
  k ∈ reachedKeys sync w.runningTasks w.taskQueues.entries

instance (w : World) (sync : TaskAtom → Bool) (k : TaskQueueKey) : Decidable (w.Reached sync k) :=
  inferInstanceAs (Decidable (_ ∈ _))

/-- The next completion leaves no running task, and the processor is quitting. -/
def World.lastTask (w : World) : Bool := w.quitting && guintPred w.runningTasks == 0

/-- Cancelling the queue completes its running task. -/
def World.completesOnCancel (w : World) (sync : TaskAtom → Bool) (k : TaskQueueKey) : Bool :=
  match w.taskQueues.find? k with
  | some queue => queue.completesOnCancel sync
  | none => false

/-- The queue is registered and marked as cancelled. -/
def World.isCancelled (w : World) (k : TaskQueueKey) : Bool :=
  match w.taskQueues.find? k with
  | some queue => queue.cancelled
  | none => false

/-! ## The effect of a step -/

/-- What a step asks of the queue `k`. -/
def effect (w : World) (op : Op) (k : TaskQueueKey) : Option Request :=
  match op with
  | .addQueue key flags => if k = key then some (.addQueue flags) else none
  | .addTask queueId task => if k = queueId then some (.addTask task) else none
  | .start queueId => if k = queueId then some (.start w.quitting) else none
  | .cancelQueue queueId sync =>
    if w.lastTask && w.completesOnCancel sync queueId then
      some (if k = queueId then .quitCancel sync else .drop)
    else if k = queueId then some (.cancel sync) else none
  | .removeQueuesForSource source sync => if source = k.source then some (.remove sync) else none
  | .removeQueuesForSink sink sync => if sink = k.sink then some (.remove sync) else none
  | .setQuitting sync =>
    some (if w.Reached sync k ∧ w.isCancelled k = false then .quitCancel sync else .drop)
  | .taskCompleted queueId task =>
    if w.lastTask then some (if k = queueId then .lastComplete task else .drop)
    else if k = queueId then some (.complete task) else none
  | .setFinally queueId finallyCb => if k = queueId then some (.setFinally finallyCb) else none
  | .setUserData queueId userData => if k = queueId then some (.setUserData userData) else none
  | .dispatch queueId => if k = queueId then some .dispatch else none
  | .dispatchQuit | .rehash _ => none

/-- The number of running tasks after a step. -/
def runningAfter (w : World) : Op → Nat
  | .dispatch _ => guintSucc w.runningTasks
  | .taskCompleted _ _ => guintPred w.runningTasks
  | .cancelQueue queueId sync =>
    if w.completesOnCancel sync queueId then guintPred w.runningTasks else w.runningTasks
  | .setQuitting sync => quitRunning sync w.runningTasks w.taskQueues.entries
  | _ => w.runningTasks

/-- What is seen of the shutdown after `dleyna_task_processor_set_quitting` is called, before the
queues are cancelled. -/
def QuitView.setQuitting (v : QuitView) (runningTasks : Nat) : QuitView :=
  let v' : QuitView := { v with quitting := true, log := v.log ++ [.setQuitting] }
  if runningTasks = 0 then v'.schedule 0 else v'

/-- What is seen of the shutdown after a step. -/
def quitAfter (w : World) : Op → QuitView
  | .taskCompleted _ _ => if w.lastTask then w.quitView.schedule 0 else w.quitView
  | .cancelQueue queueId sync =>
    if w.lastTask && w.completesOnCancel sync queueId then w.quitView.schedule 0 else w.quitView
  | .setQuitting sync =>
    let v := w.quitView.setQuitting w.runningTasks
    if quitCompletes sync w.runningTasks w.taskQueues.entries then v.schedule 0 else v
  | .dispatchQuit =>
    { w.quitView with
      log := w.quitView.log ++ [.quitCb w.taskQueues.size]
      pending := w.quitView.pending - 1 }
  | _ => w.quitView

/-! ## The queue on its own -/

/-- What the environment promises of a request. -/
def Request.Fits (k : TaskQueueKey) (v : QueueView) : Request → Prop
  | .addQueue _ => v.log = []
  | .addTask task => task ∉ addedTasks k v.log
  | .complete task | .lastComplete task => InFlight v.log k task
  | .dispatch => v.pending ≠ 0
  | _ => True

/-- The queue `k` on its own: the requests it gets and how it answers them, with no table, no counter of
running tasks and no other queue. The processor is meant to be a collection of these. -/
def queueSystem (k : TaskQueueKey) : System QueueView Request Fault where
  init := ⟨none, 0, []⟩
  guard := fun v r => r.Fits k v
  step := fun v r => v.serve k r

/-- A request that does not come from a shutdown. -/
def OutsideShutdown (_ : QueueView) : Request → Prop
  | .start quitting => quitting = false
  | .lastComplete _ | .quitCancel _ | .drop => False
  | _ => True

/-- What a step asks of the queue `k`, when the processor does not quit. -/
def Op.asks (k : TaskQueueKey) (op : Op) : Option Request := effect World.new op k

end DleynaCore
