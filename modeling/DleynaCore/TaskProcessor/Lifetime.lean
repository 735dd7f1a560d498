import DleynaCore.TaskProcessor.Properties

/-!
# The life of a queue

What the client says about a queue (its flags, its user data, its finally callback) as far as the steps
of the run tell, and what the queue should make of it.
-/

namespace DleynaCore

/-- The flags, if the step adds the queue `k`. -/
def Op.addsQueue (k : TaskQueueKey) : Op → Option UInt32
  | .addQueue k' flags => if k' = k then some flags else none
  | _ => none

/-- The user data, if the step sets that of the queue `k`. -/
def Op.setsUserData (k : TaskQueueKey) : Op → Option Gpointer
  | .setUserData k' userData => if k' = k then some userData else none
  | _ => none

/-- The finally callback (which may be `NULL`), if the step sets that of the queue `k`. -/
def Op.setsFinally (k : TaskQueueKey) : Op → Option (Option Gpointer)
  | .setFinally k' finallyCb => if k' = k then some finallyCb else none
  | _ => none

/-- The flags that the queue was added with, if it was. -/
def addedFlags (k : TaskQueueKey) (ops : List Op) : Option UInt32 :=
  (ops.filterMap (Op.addsQueue k)).getLast?

/-- The user data that was set last. -/
def lastUserData (k : TaskQueueKey) (ops : List Op) : Gpointer :=
  (ops.filterMap (Op.setsUserData k)).getLast?.getD 0

/-- The finally callback that was set last. -/
def lastFinally (k : TaskQueueKey) (ops : List Op) : Option Gpointer :=
  (ops.filterMap (Op.setsFinally k)).getLast?.getD none

namespace Event

/-- The queue that a callback belongs to, and the user data that it is passed. -/
def passes : Event → Option (TaskQueueKey × Gpointer)
  | processCb k _ u | cancelCb k _ u | deleteCb k _ u | finallyCb k _ _ u => some (k, u)
  | _ => none

/-- The queue is added. -/
def isAddQueue : Event → Bool
  | addQueue _ _ => true
  | _ => false

end Event

/-- The calls `es` are told what the client set in `ops`: each callback of a queue gets the user data
that was set last for it, and the finally callback that is called is the one that was set last. -/
structure Told (ops : List Op) (es : List Event) : Prop where
  userData : ∀ e ∈ es, ∀ k u, e.passes = some (k, u) → u = lastUserData k ops
  finallyCb : ∀ k cb cancelled u, .finallyCb k cb cancelled u ∈ es → lastFinally k ops = some cb

/-- The finally callback that was set last for a queue which is gone was called, with the user data
that was set last. -/
def FinallyCalled (ops : List Op) (w : World) : Prop :=
  ∀ k cb, addedFlags k ops ≠ none → w.taskQueues.find? k = none → lastFinally k ops = some cb →
    ∃ cancelled, .finallyCb k cb cancelled (lastUserData k ops) ∈ w.log

/-- The processor does with its queues what the client said: the record of a registered queue holds
the flags it was added with, and the user data and finally callback set last; the calls of the next step, and
those of `dleyna_task_processor_free`, are told of them; and so is who asks for the user data. The finally
callback of a queue is called when the queue goes, be it in the run or when the processor is freed. -/
structure Remembers (ops : List Op) (w : World) : Prop where
  record : ∀ k queue, w.taskQueues.find? k = some queue → addedFlags k ops = some queue.flags ∧
    queue.userData = lastUserData k ops ∧ queue.taskQueueFinallyCb = lastFinally k ops
  getter : ∀ k u, dleynaTaskQueueGetUserData w k = .ok u → u = lastUserData k ops
  step : ∀ op w', Guard w op → step w op = .ok w' → Told ops (w'.log.drop w.log.length)
  free : Told ops ((dleynaTaskProcessorFree w).log.drop w.log.length)
  destroyed : FinallyCalled ops w
  ended : FinallyCalled ops (dleynaTaskProcessorFree w)

/-- The life of the queue `k`, as the history of a run `ops` tells it: nothing is heard of it before it
is added, which happens once; its finally callback is not called while it is registered, and when it is
gone it has been called once, if one was set, and nothing is heard of the queue any more. -/
structure LivesOnce (ops : List Op) (w : World) (k : TaskQueueKey) : Prop where
  unknown : addedFlags k ops = none → w.logOf k = [] ∧ w.taskQueues.find? k = none
  added : ∀ flags, addedFlags k ops = some flags →
    ∃ es, w.logOf k = .addQueue k flags :: es ∧ ∀ e ∈ es, e.isAddQueue = false
  registered : ∀ queue, w.taskQueues.find? k = some queue → ∀ e ∈ w.logOf k, e.isFinally k = false
  finished : addedFlags k ops ≠ none → w.taskQueues.find? k = none → ∀ cb, lastFinally k ops = some cb →
    ∃ es cancelled, w.logOf k = es ++ [.finallyCb k cb cancelled (lastUserData k ops)] ∧
      ∀ e ∈ es, e.isFinally k = false
  silent : lastFinally k ops = none → ∀ e ∈ w.logOf k, e.isFinally k = false

end DleynaCore
