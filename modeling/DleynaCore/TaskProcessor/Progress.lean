import DleynaCore.Library.Progress
import DleynaCore.TaskProcessor.Properties

/-!
# The processor left alone

No client calls the processor any more: the main loop dispatches the queues that are scheduled, and
the tasks that run are reported completed, in any order.
-/

namespace DleynaCore

/-- The main loop dispatches a queue, or a running task is reported completed. -/
def Advances (_ : World) : Op → Prop
  | .dispatch _ | .taskCompleted _ _ => True
  | _ => False

instance : ∀ (w : World) (op : Op), Decidable (Advances w op)
  | _, .dispatch _ | _, .taskCompleted _ _ => inferInstanceAs (Decidable True)
  | _, .addQueue _ _ | _, .addTask _ _ | _, .start _ | _, .cancelQueue _ _
  | _, .removeQueuesForSource _ _ | _, .removeQueuesForSink _ _ | _, .setQuitting _
  | _, .setFinally _ _ | _, .setUserData _ _ | _, .dispatchQuit | _, .rehash _ =>
    inferInstanceAs (Decidable False)

/-- The step leaves no task in flight and no dispatch pending behind. -/
def KeepsQueues (w : World) (op : Op) : Prop := KeepsFlights w op ∧ KeepsDispatches w op

instance (w : World) (op : Op) : Decidable (KeepsQueues w op) :=
  inferInstanceAs (Decidable (_ ∧ _))

namespace TaskQueue

/-- A task of the queue runs, or its dispatch is pending. -/
def active (queue : TaskQueue) : Bool := queue.busy || queue.idleId != 0

/-- How many dispatches and completions an active queue has ahead of it. -/
def work (queue : TaskQueue) : Nat :=
  if queue.active then 2 * queue.tasks.length + queue.busy.toNat else 0

/-- The record after all tasks have been processed; the first dispatch takes the mark off. -/
def served (queue : TaskQueue) : TaskQueue :=
  { queue with tasks := [], currentTask := none, idleId := 0
               cancelled := queue.cancelled && queue.tasks.isEmpty }

end TaskQueue

/-- How many dispatches and completions are ahead. -/
def World.work (w : World) : Nat := w.taskQueues.total TaskQueue.work

/-- What should have become of the queues since `w` when the processor has come to rest in `w'`: no
dispatch is pending and no task runs; an active queue has processed its waiting tasks in order, all
of them have completed, none was cancelled, and it is gone if it is an `AUTO_REMOVE` queue and empty
otherwise; a queue whose removal was deferred is gone; nothing happened to any other queue; and
nothing waits in an `AUTO_START` queue. -/
structure ServedOut (w w' : World) : Prop where
  pending : ∀ k, w'.pendingOf k = []
  flights : ∀ k t, ¬ InFlight w'.log k t
  running : w'.runningTasks = 0
  served : ∀ k queue, w.taskQueues.find? k = some queue → queue.active = true →
    queue.deferRemove = false →
    processedTasks k w'.log = processedTasks k w.log ++ queue.tasks ∧
    completedTasks k w'.log = processedTasks k w'.log ∧
    cancelledTasks k w'.log = cancelledTasks k w.log ∧
    w'.taskQueues.find? k = if queue.autoRemove then none else some queue.served
  deferred : ∀ k queue, w.taskQueues.find? k = some queue → queue.deferRemove = true →
    w'.taskQueues.find? k = none
  others : ∀ k, (∀ queue, w.taskQueues.find? k = some queue → queue.active = false) →
    Unchanged k w w'
  started : ∀ k queue, w'.taskQueues.find? k = some queue → queue.autoStart = true →
    queue.tasks = []

end DleynaCore
