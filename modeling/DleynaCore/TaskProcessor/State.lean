import DleynaCore.Library.HashTable
import Mathlib.Data.UInt

/-!
# The state of the task processor

The records of `task-processor.c`, the part of the GLib main loop they use, and the calls made to
the client's callbacks.
-/

namespace DleynaCore

/-- A `gpointer` of the client; `0` is `NULL`. -/
abbrev Gpointer := Nat

/-- A `dleyna_task_atom_t *`. The key that `add_task` stores in an atom never changes, so an atom is
always passed along with its `queue_id`. -/
abbrev TaskAtom := Nat

/-- The number of values of a `guint`. -/
def guintSize : Nat := 2 ^ 32

/-- `n + 1` on a `guint`. -/
def guintSucc (n : Nat) : Nat := (n + 1) % guintSize

/-- `n - 1` on a `guint`. -/
def guintPred (n : Nat) : Nat := (n + (guintSize - 1)) % guintSize

/-- A `dleyna_task_queue_key_t *`: the address of the key, and its two strings, which are written
once. Addresses are not reused, so a key that was freed is told apart from the keys in use. -/
structure TaskQueueKey where
  addr : Nat
  source : String
  sink : String
  deriving DecidableEq, Repr

namespace TaskQueueKey

/-- What `prv_key_hash_cb` and `prv_key_equal_cb` look at. -/
def pair (queueKey : TaskQueueKey) : String × String := (queueKey.source, queueKey.sink)

end TaskQueueKey

/-- `prv_key_equal_cb`. -/
def prvKeyEqualCb (queueKey1 queueKey2 : TaskQueueKey) : Bool :=
  queueKey1.source == queueKey2.source && queueKey1.sink == queueKey2.sink

/-- The table compares keys by their pair of strings. -/
theorem prvKeyEqualCb_iff {queueKey1 queueKey2 : TaskQueueKey} :
    prvKeyEqualCb queueKey1 queueKey2 = true ↔ queueKey1.pair = queueKey2.pair := by
  simp [prvKeyEqualCb, TaskQueueKey.pair]

/-- `DLEYNA_TASK_QUEUE_FLAG_AUTO_START`. -/
def flagAutoStart : UInt32 := 1

/-- `DLEYNA_TASK_QUEUE_FLAG_AUTO_REMOVE`. -/
def flagAutoRemove : UInt32 := (1 : UInt32) <<< (1 : UInt32)

/-- `dleyna_task_queue_t`. The process, cancel and delete callbacks are those of the client; calls
to them are recorded as events. -/
structure TaskQueue where
  tasks : List TaskAtom
  taskQueueFinallyCb : Option Gpointer
  currentTask : Option TaskAtom
  idleId : Nat
  deferRemove : Bool
  flags : UInt32
  userData : Gpointer
  cancelled : Bool
  deriving DecidableEq, Repr

namespace TaskQueue

/-- `queue->flags & DLEYNA_TASK_QUEUE_FLAG_AUTO_START`. -/
def autoStart (queue : TaskQueue) : Bool := queue.flags &&& flagAutoStart != 0

/-- `queue->flags & DLEYNA_TASK_QUEUE_FLAG_AUTO_REMOVE`. -/
def autoRemove (queue : TaskQueue) : Bool := queue.flags &&& flagAutoRemove != 0

/-- A queue as `g_malloc0` and `dleyna_task_processor_add_queue` leave it. -/
def new (flags : UInt32) : TaskQueue :=
  { tasks := [], taskQueueFinallyCb := none, currentTask := none, idleId := 0, deferRemove := false,
    flags := flags, userData := 0, cancelled := false }

end TaskQueue

/-- The hash table `task_queues`. -/
abbrev TaskQueues := HashTable TaskQueueKey (String × String) TaskQueue TaskQueueKey.pair

/-- What the client and the processor do to each other: the calls of the client that name a task or
a queue, the calls made to its callbacks (with the queue they belong to), and the quit callback. -/
inductive Event where
  /-- `dleyna_task_processor_add_queue` returned the key. -/
  | addQueue (queueId : TaskQueueKey) (flags : UInt32)
  /-- `dleyna_task_queue_add_task`; it sets `task->queue_id` to the key. -/
  | addTask (queueId : TaskQueueKey) (task : TaskAtom)
  | processCb (queueId : TaskQueueKey) (task : TaskAtom) (userData : Gpointer)
  | cancelCb (queueId : TaskQueueKey) (task : TaskAtom) (userData : Gpointer)
  | deleteCb (queueId : TaskQueueKey) (task : TaskAtom) (userData : Gpointer)
  | finallyCb (queueId : TaskQueueKey) (cb : Gpointer) (cancelled : Bool) (userData : Gpointer)
  /-- The client reports the task completed, through `task->queue_id`. -/
  | completed (queueId : TaskQueueKey) (task : TaskAtom)
  /-- `dleyna_task_processor_set_quitting` is called. -/
  | setQuitting
  /-- `on_quit_cb` is scheduled, with these values of `quitting` and `running_tasks`. -/
  | scheduleQuit (quitting : Bool) (runningTasks : Nat)
  /-- `on_quit_cb` runs, with this many queues in the table. -/
  | quitCb (queues : Nat)
  deriving DecidableEq, Repr

namespace Event

/-- The queue that an event is about. -/
def key : Event → Option TaskQueueKey
  | addQueue k _ | addTask k _ | processCb k _ _ | cancelCb k _ _ | deleteCb k _ _
  | finallyCb k _ _ _ | completed k _ => some k
  | setQuitting | scheduleQuit _ _ | quitCb _ => none

/-- The task that an event is about. -/
def task : Event → Option TaskAtom
  | addTask _ t | processCb _ t _ | cancelCb _ t _ | deleteCb _ t _ | completed _ t => some t
  | addQueue _ _ | finallyCb _ _ _ _ | setQuitting | scheduleQuit _ _ | quitCb _ => none

end Event

/-- The idle callbacks attached to the main loop. -/
inductive IdleSource where
  /-- `prv_process_task` with this key. -/
  | processTask (queueId : TaskQueueKey)
  /-- `on_quit_cb`. -/
  | onQuitCb
  deriving DecidableEq, Repr

/-- `dleyna_task_processor_t` with the main loop and the history of the run. -/
structure World where
  /-- `processor->task_queues`. -/
  taskQueues : TaskQueues
  /-- The version of the table, by which GLib notices a change during a traversal. -/
  version : Nat
  /-- `processor->running_tasks`, a `guint`. -/
  runningTasks : Nat
  /-- `processor->quitting`. -/
  quitting : Bool
  /-- The pending idle sources with their ids, in the order in which they were attached. -/
  sources : List (Nat × IdleSource)
  /-- How many sources were ever attached. -/
  attached : Nat
  /-- The history of the run, latest event last. -/
  log : List Event

/-- What stops a run: a key or a queue that has been freed is used, or the first entry of an empty
task array is taken. -/
inductive Fault where
  | useAfterFree
  | emptyTasks
  deriving DecidableEq, Repr

namespace World

/-- `dleyna_task_processor_new`. -/
def new : World :=
  { taskQueues := .empty, version := 0, runningTasks := 0, quitting := false, sources := [],
    attached := 0, log := [] }

/-- Append to the history. -/
def emit (w : World) (es : List Event) : World := { w with log := w.log ++ es }

/-- Write through a pointer to the queue of `queueId`. -/
def setQueue (w : World) (queueId : TaskQueueKey) (queue : TaskQueue) : World :=
  { w with taskQueues := w.taskQueues.modify queueId fun _ => queue }

/-- The ids of the pending dispatches of the queue. -/
def pendingOf (w : World) (queueId : TaskQueueKey) : List Nat :=
  w.sources.filterMap fun s => if s.2 = .processTask queueId then some s.1 else none

/-- The events about the queue. -/
def logOf (w : World) (queueId : TaskQueueKey) : List Event :=
  w.log.filter fun e => e.key = some queueId

end World

end DleynaCore
