import DleynaCore.ServiceTask.Service

/-!
# What becomes of the service tasks

The tasks that a run adds, also those that are added from inside `t_action` and `callback`, and what
should have happened to each of them.
-/

namespace DleynaCore

/-- The tasks that a call adds. -/
def Call.added : Call → List TaskArgs
  | .addServiceTask _ task proxy freeFunc userData => [⟨task, proxy, freeFunc, userData⟩]
  | _ => []

/-- The tasks that a step adds. -/
def ServiceOp.added : ServiceOp → List TaskArgs
  | .call c => c.added
  | .dispatch _ cs _ _ | .actionCb _ _ cs => cs.flatMap Call.added
  | .setQuitting | .dispatchQuit | .rehash _ => []

/-- The tasks that a run adds, in order. -/
def addedArgs (ops : List ServiceOp) : List TaskArgs := ops.flatMap ServiceOp.added

/-- The event is a call of `free_func`. -/
def ServiceEvent.isFree : ServiceEvent → Bool
  | .freeFunc _ _ => true
  | _ => false

/-- `free_func` was called once for each of the tasks `args` that is not in memory any more, with the user
data that the client gave, and not for any other. -/
def Freed (args : List TaskArgs) (w : ServiceWorld) : Prop :=
  (w.history.filter ServiceEvent.isFree).Perm
    ((args.filter fun a => (w.tasks a.task).isNone).flatMap TaskArgs.freeCalls)

/-- The task waits or runs in the queue, or is in flight although the queue is gone. -/
def ServiceWorld.Holds (w : ServiceWorld) (queueId : TaskQueueKey) (task : TaskAtom) : Prop :=
  (∃ queue, w.processor.taskQueues.find? queueId = some queue ∧
    (task ∈ queue.tasks ∨ queue.currentTask = some task)) ∨
  w.processor.taskQueues.find? queueId = none ∧ InFlight w.processor.log queueId task

/-- What should have become of the tasks `args`, each of which was added once: those that are not in
memory any more were freed, and in memory are exactly the tasks that are held, which were added. -/
structure Accounted (args : List TaskArgs) (w : ServiceWorld) : Prop where
  distinct : (args.map TaskArgs.task).Nodup
  freed : Freed args w
  held : ∀ queueId task,
    (∃ s, w.tasks task = some s ∧ s.queueId = queueId) ↔ w.Holds queueId task
  added : ∀ queueId task, w.Holds queueId task → task ∈ args.map TaskArgs.task

/-- `dleyna_task_processor_free` with the callbacks that it makes. -/
def freeServiceProcessor (w : ServiceWorld) : Except ServiceFault ServiceWorld :=
  let processor := dleynaTaskProcessorFree w.processor
  callbacks { w with processor := processor } (processor.log.drop w.processor.log.length)

/-- What should be left once the processor of `w` has been freed: no queue, the tasks in flight, and
nothing else. -/
structure FreedAtExit (args : List TaskArgs) (w w' : ServiceWorld) : Prop where
  queues : w'.processor.taskQueues.entries = []
  memory : ∀ t, (w'.tasks t).isSome = true ↔ ∃ k, InFlight w.processor.log k t
  freed : Freed args w'

end DleynaCore
