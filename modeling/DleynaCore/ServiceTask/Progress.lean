import DleynaCore.ServiceTask.Service
import DleynaCore.TaskProcessor.Progress

/-!
# Service tasks left alone

The client makes no more calls. The main loop goes on dispatching the queues that are scheduled, and
libgupnp the callbacks of the actions that are pending, in any order; `t_action` begins an action or
not, and may fail without one.
-/

namespace DleynaCore

/-- The processor does not quit, and no task in flight and no dispatch is left behind. -/
def StaysOpen (w : World) (op : Op) : Prop :=
  NeverQuits w op ∧ KeepsFlights w op ∧ (w.quitting = false → KeepsDispatches w op)

instance (w : World) (op : Op) : Decidable (StaysOpen w op) :=
  inferInstanceAs (Decidable (_ ∧ _ ∧ (_ → _)))

/-- A step in which the client makes no calls. -/
def Unattended (_ : ServiceWorld) : ServiceOp → Prop
  | .dispatch _ cs action failed => cs = [] ∧ (failed = true → action = 0)
  | .actionCb _ _ cs => cs = []
  | .call _ | .setQuitting | .dispatchQuit | .rehash _ => False

/-- The task is in flight and its proxy is gone, so that the callback of its action will not be called. -/
def ServiceWorld.Abandoned (w : ServiceWorld) (k : TaskQueueKey) (t : TaskAtom) : Prop :=
  InFlight w.processor.log k t ∧ ∃ s, w.tasks t = some s ∧ s.proxy = 0

/-- What should have become of the tasks since `w` when everything has come to rest in `w'`: nothing is
pending; the tasks in flight are those that were abandoned in `w`; the tasks of an active queue that runs
none of these are freed, and the queue is empty, or gone if it is an `AUTO_REMOVE` queue; and nothing
happened to any other queue. -/
structure TasksServed (w w' : ServiceWorld) : Prop where
  pending : ∀ k, w'.processor.pendingOf k = []
  actions : w'.actions = []
  flights : ∀ k t, InFlight w'.processor.log k t ↔ w.Abandoned k t
  served : ∀ k queue, w.processor.taskQueues.find? k = some queue → queue.active = true →
    (∀ t, ¬ w.Abandoned k t) →
    (∀ t ∈ queue.currentTask.toList ++ queue.tasks, w'.tasks t = none) ∧
    ∀ queue', w'.processor.taskQueues.find? k = some queue' →
      queue'.tasks = [] ∧ queue'.currentTask = none ∧ queue'.autoRemove = false
  others : ∀ k, (∀ queue, w.processor.taskQueues.find? k = some queue → queue.active = true →
    ∃ t, w.Abandoned k t) → Unchanged k w.processor w'.processor

end DleynaCore
