import DleynaCore.TaskProcessor.Properties

/-!
# Service tasks

`service-task.c`: tasks that run an action of a UPnP service. All queues of the processor are service
queues, so their callbacks are the ones below. The functions that the client passes to
`dleyna_service_task_add`, `t_action` and `callback`, may call the processor before they return.

Of libgupnp it is assumed that the callback of an action is called at most once, by the main loop,
and not after `gupnp_service_proxy_cancel_action` or once the proxy is gone.
-/

namespace DleynaCore

/-- `dleyna_service_task_t`. What `t_action` and `callback` do is chosen when they are called. -/
structure ServiceTask where
  /-- `task->base.queue_id`, which `dleyna_task_queue_add_task` sets. -/
  queueId : TaskQueueKey
  pAction : Gpointer
  freeFunc : Option Gpointer
  userData : Gpointer
  /-- A weak pointer: it becomes `NULL` when the proxy is finalized. -/
  proxy : Gpointer
  deriving DecidableEq, Repr

/-- What happens to service tasks. -/
inductive ServiceEvent where
  /-- `t_action` has returned this action, and `failed`. -/
  | begun (task : TaskAtom) (action : Gpointer) (failed : Bool)
  /-- The action has finished: `dleyna_service_task_begin_action_cb` is called. -/
  | finished (task : TaskAtom) (action : Gpointer)
  /-- `dleyna_service_task_cancel_cb` has found this action pending. -/
  | cancelled (task : TaskAtom) (action : Gpointer)
  | cancelAction (proxy : Gpointer) (action : Gpointer)
  | freeFunc (cb : Gpointer) (userData : Gpointer)
  deriving DecidableEq, Repr

/-- The processor with its service tasks. -/
structure ServiceWorld where
  processor : World
  /-- The tasks in memory. -/
  tasks : TaskAtom → Option ServiceTask
  /-- The actions of libgupnp whose callbacks are to be called, with the tasks that are their user
  data. -/
  actions : List (Gpointer × TaskAtom)
  history : List ServiceEvent

/-- What stops a run. -/
inductive ServiceFault where
  /-- The processor faults in a call of the client or of the main loop. -/
  | processor (fault : Fault)
  /-- The processor faults in a call of `service-task.c`. -/
  | completion (fault : Fault)
  /-- `service-task.c` uses a task that has been freed. -/
  | taskFreed
  deriving DecidableEq, Repr

namespace ServiceWorld

/-- A processor without queues. -/
def new : ServiceWorld :=
  { processor := World.new, tasks := fun _ => none, actions := [], history := [] }

/-- Write to the memory of a task. -/
def setTask (w : ServiceWorld) (task : TaskAtom) (s : Option ServiceTask) : ServiceWorld :=
  { w with tasks := fun t => if t = task then s else w.tasks t }

/-- Append to the history. -/
def emit (w : ServiceWorld) (es : List ServiceEvent) : ServiceWorld :=
  { w with history := w.history ++ es }

/-- The cancel callback of the task would report its completion. -/
def sync (w : ServiceWorld) (task : TaskAtom) : Bool :=
  match w.tasks task with
  | some s => s.pAction != 0
  | none => false

end ServiceWorld

/-! ## The callbacks of a service queue -/

/-- `gupnp_service_proxy_cancel_action`. -/
def gupnpServiceProxyCancelAction (w : ServiceWorld) (proxy action : Gpointer) : ServiceWorld :=
  { w with actions := w.actions.filter fun x => x.1 ≠ action }.emit [.cancelAction proxy action]

/-- `dleyna_service_task_cancel_cb`, but for the completion that it reports when an action is
pending: the processor is told of that by `ServiceWorld.sync`. -/
def dleynaServiceTaskCancelCb (w : ServiceWorld) (task : TaskAtom) :
    Except ServiceFault ServiceWorld :=
  match w.tasks task with
  | none => .error .taskFreed
  | some s =>
    .ok <|
      if s.pAction ≠ 0 then
        let w1 := if s.proxy ≠ 0 then gupnpServiceProxyCancelAction w s.proxy s.pAction else w
        (w1.setTask task (some { s with pAction := 0 })).emit [.cancelled task s.pAction]
      else w

/-- `dleyna_service_task_delete_cb`. -/
def dleynaServiceTaskDeleteCb (w : ServiceWorld) (task : TaskAtom) :
    Except ServiceFault ServiceWorld :=
  match w.tasks task with
  | none => .error .taskFreed
  | some s =>
    let w1 := match s.freeFunc with
      | some cb => w.emit [.freeFunc cb s.userData]
      | none => w
    .ok (w1.setTask task none)

/-- A callback of the processor. The process callback is made last in a dispatch, and comes there. -/
def callback (w : ServiceWorld) : Event → Except ServiceFault ServiceWorld
  | .cancelCb _ task _ => dleynaServiceTaskCancelCb w task
  | .deleteCb _ task _ => dleynaServiceTaskDeleteCb w task
  | _ => .ok w

/-- The callbacks of the processor, in order. -/
def callbacks (w : ServiceWorld) : List Event → Except ServiceFault ServiceWorld
  | [] => .ok w
  | e :: es =>
    match callback w e with
    | .error fault => .error fault
    | .ok w' => callbacks w' es

/-- A call of the processor with the callbacks that it makes. They do not call the processor, but
for the completions that `ServiceWorld.sync` announces, so they can be made after the call, from what
it adds to the history. -/
def process (w : ServiceWorld) (onFault : Fault → ServiceFault) (op : Op) :
    Except ServiceFault ServiceWorld :=
  match step w.processor op with
  | .error fault => .error (onFault fault)
  | .ok processor =>
    callbacks { w with processor := processor } (processor.log.drop w.processor.log.length)

/-! ## Calls of the client -/

/-- What the client can do, from the main loop and from inside `t_action` and `callback`. -/
inductive Call where
  | addQueue (key : TaskQueueKey) (flags : UInt32)
  | addServiceTask (queueId : TaskQueueKey) (task : TaskAtom) (proxy : Gpointer)
    (freeFunc : Option Gpointer) (userData : Gpointer)
  | start (queueId : TaskQueueKey)
  | cancelQueue (queueId : TaskQueueKey)
  | removeQueuesForSource (source : String)
  | removeQueuesForSink (sink : String)
  | setFinally (queueId : TaskQueueKey) (finallyCb : Option Gpointer)
  | setUserData (queueId : TaskQueueKey) (userData : Gpointer)
  /-- The last reference to the proxy goes; libgupnp cancels its actions. -/
  | finalizeProxy (proxy : Gpointer)

/-- `dleyna_service_task_add`; `task` is the address that `g_new0` returns. -/
def dleynaServiceTaskAdd (w : ServiceWorld) (queueId : TaskQueueKey) (task : TaskAtom)
    (proxy : Gpointer) (freeFunc : Option Gpointer) (userData : Gpointer) :
    Except ServiceFault ServiceWorld :=
  let s : ServiceTask :=
    { queueId := queueId, pAction := 0, freeFunc := freeFunc, userData := userData, proxy := proxy }
  process (w.setTask task (some s)) .processor (.addTask queueId task)

/-- The proxy is finalized. -/
def finalizeProxy (w : ServiceWorld) (proxy : Gpointer) : ServiceWorld :=
  { w with
    tasks := fun t => (w.tasks t).map fun s => if s.proxy = proxy then { s with proxy := 0 } else s
    actions := w.actions.filter fun x => (w.tasks x.2).all fun s => s.proxy ≠ proxy }

/-- A call of the client. -/
def call (w : ServiceWorld) : Call → Except ServiceFault ServiceWorld
  | .addQueue key flags => process w .processor (.addQueue key flags)
  | .addServiceTask queueId task proxy freeFunc userData =>
    dleynaServiceTaskAdd w queueId task proxy freeFunc userData
  | .start queueId => process w .processor (.start queueId)
  | .cancelQueue queueId => process w .processor (.cancelQueue queueId w.sync)
  | .removeQueuesForSource source => process w .processor (.removeQueuesForSource source w.sync)
  | .removeQueuesForSink sink => process w .processor (.removeQueuesForSink sink w.sync)
  | .setFinally queueId finallyCb => process w .processor (.setFinally queueId finallyCb)
  | .setUserData queueId userData => process w .processor (.setUserData queueId userData)
  | .finalizeProxy proxy => .ok (finalizeProxy w proxy)

/-- The calls of the client, in order. -/
def calls (w : ServiceWorld) : List Call → Except ServiceFault ServiceWorld
  | [] => .ok w
  | c :: cs =>
    match call w c with
    | .error fault => .error fault
    | .ok w' => calls w' cs

/-! ## Actions -/

/-- `task->p_action = task->t_action(task, task->proxy, &failed)`: `t_action` makes the calls `cs`
and returns `action`. -/
def runAction (w : ServiceWorld) (task : TaskAtom) (cs : List Call) (action : Gpointer)
    (failed : Bool) : Except ServiceFault ServiceWorld :=
  match calls w cs with
  | .error fault => .error fault
  | .ok w1 =>
    match w1.tasks task with
    | none => .error .taskFreed
    | some s =>
      let w2 := w1.setTask task (some { s with pAction := action })
      .ok ({ w2 with
        actions := if action ≠ 0 then w2.actions ++ [(action, task)] else w2.actions }.emit
          [.begun task action failed])

/-- `dleyna_service_task_process_cb`. -/
def dleynaServiceTaskProcessCb (w : ServiceWorld) (task : TaskAtom) (cs : List Call)
    (action : Gpointer) (failed : Bool) : Except ServiceFault ServiceWorld :=
  match runAction w task cs action failed with
  | .error fault => .error fault
  | .ok w1 =>
    match w1.tasks task with
    | none => .error .taskFreed
    | some s1 =>
      match (if failed then process w1 .completion (.cancelQueue s1.queueId w1.sync) else .ok w1) with
      | .error fault => .error fault
      | .ok w2 =>
        -- `task->p_action` is read again, whatever `dleyna_task_processor_cancel_queue` did
        match w2.tasks task with
        | none => .error .taskFreed
        | some s2 =>
          if s2.pAction = 0 then process w2 .completion (.taskCompleted s2.queueId task) else .ok w2

/-- `task->p_action = NULL` in `dleyna_service_task_begin_action_cb`, called for this action. -/
def endAction (w : ServiceWorld) (action : Gpointer) (task : TaskAtom) :
    Except ServiceFault ServiceWorld :=
  match w.tasks task with
  | none => .error .taskFreed
  | some s =>
    let w1 := w.setTask task (some { s with pAction := 0 })
    .ok ({ w1 with actions := w1.actions.erase (action, task) }.emit [.finished task action])

/-- `dleyna_service_task_begin_action_cb`; `task->callback` makes the calls `cs`. -/
def dleynaServiceTaskBeginActionCb (w : ServiceWorld) (action : Gpointer) (task : TaskAtom)
    (cs : List Call) : Except ServiceFault ServiceWorld :=
  match endAction w action task with
  | .error fault => .error fault
  | .ok w1 =>
    match calls w1 cs with
    | .error fault => .error fault
    | .ok w2 =>
      match w2.tasks task with
      | none => .error .taskFreed
      | some s => process w2 .completion (.taskCompleted s.queueId task)

/-- The main loop dispatches the pending source of the queue: the next task is taken, and handed to
the process callback. -/
def takeTask (w : ServiceWorld) (queueId : TaskQueueKey) :
    Except ServiceFault (Option TaskAtom × ServiceWorld) :=
  match process w .processor (.dispatch queueId) with
  | .error fault => .error fault
  | .ok w1 => .ok ((w1.processor.taskQueues.find? queueId).bind TaskQueue.currentTask, w1)

/-- `prv_process_task` on a service queue. -/
def dispatchServiceTask (w : ServiceWorld) (queueId : TaskQueueKey) (cs : List Call)
    (action : Gpointer) (failed : Bool) : Except ServiceFault ServiceWorld :=
  match takeTask w queueId with
  | .error fault => .error fault
  | .ok (none, w1) => .ok w1
  | .ok (some task, w1) => dleynaServiceTaskProcessCb w1 task cs action failed

/-! ## Runs -/

/-- One step of the service layer. -/
inductive ServiceOp where
  | call (c : Call)
  /-- The main loop dispatches the queue, and `t_action` makes the calls `cs` and returns `action`. -/
  | dispatch (queueId : TaskQueueKey) (cs : List Call) (action : Gpointer) (failed : Bool)
  /-- The main loop calls the callback of the action, and `task->callback` makes the calls `cs`. -/
  | actionCb (action : Gpointer) (task : TaskAtom) (cs : List Call)
  | setQuitting
  | dispatchQuit
  | rehash (taskQueues : TaskQueues)

/-- The effect of a step. -/
def serviceStep (w : ServiceWorld) : ServiceOp → Except ServiceFault ServiceWorld
  | .call c => call w c
  | .dispatch queueId cs action failed => dispatchServiceTask w queueId cs action failed
  | .actionCb action task cs => dleynaServiceTaskBeginActionCb w action task cs
  | .setQuitting => process w .processor (.setQuitting w.sync)
  | .dispatchQuit => process w .processor .dispatchQuit
  | .rehash taskQueues => process w .processor (.rehash taskQueues)

/-- What holds of the result, if there is one. -/
def OnOk {ε α : Type} (p : α → Prop) : Except ε α → Prop
  | .ok a => p a
  | .error _ => True

instance {ε α : Type} (p : α → Prop) [DecidablePred p] : DecidablePred (@OnOk ε α p)
  | .ok a => inferInstanceAs (Decidable (p a))
  | .error _ => isTrue trivial

/-- The step of the processor that a call of the client takes. -/
def Call.op (w : ServiceWorld) : Call → Option Op
  | .addQueue key flags => some (.addQueue key flags)
  | .addServiceTask queueId task _ _ _ => some (.addTask queueId task)
  | .start queueId => some (.start queueId)
  | .cancelQueue queueId => some (.cancelQueue queueId w.sync)
  | .removeQueuesForSource source => some (.removeQueuesForSource source w.sync)
  | .removeQueuesForSink sink => some (.removeQueuesForSink sink w.sync)
  | .setFinally queueId finallyCb => some (.setFinally queueId finallyCb)
  | .setUserData queueId userData => some (.setUserData queueId userData)
  | .finalizeProxy _ => none

section Conditions

variable (P : World → Op → Prop)

/-- The call satisfies `P`. -/
def OnCall (w : ServiceWorld) (c : Call) : Prop := ∀ op ∈ c.op w, P w.processor op

/-- Each of the calls satisfies `P` when it is made. -/
def OnCalls (w : ServiceWorld) : List Call → Prop
  | [] => True
  | c :: cs => OnCall P w c ∧ OnOk (fun w' => OnCalls w' cs) (call w c)

/-- Every step that the client makes the processor take satisfies `P`. -/
def OnClient (w : ServiceWorld) : ServiceOp → Prop
  | .call c => OnCall P w c
  | .dispatch queueId cs _ _ => OnOk (fun x => OnCalls P x.2 cs) (takeTask w queueId)
  | .actionCb action task cs => OnOk (fun w1 => OnCalls P w1 cs) (endAction w action task)
  | .setQuitting => P w.processor (.setQuitting w.sync)
  | .dispatchQuit => P w.processor .dispatchQuit
  | .rehash taskQueues => P w.processor (.rehash taskQueues)

end Conditions

/-- `t_action` begins its action on the proxy of the task, and gets an action of its own. -/
def ActionGuard (w : ServiceWorld) (task : TaskAtom) (action : Gpointer) : Prop :=
  action ≠ 0 → action ∉ w.actions.map Prod.fst ∧ (w.tasks task).all (fun s => s.proxy ≠ 0) = true

instance (w : ServiceWorld) (task : TaskAtom) (action : Gpointer) :
    Decidable (ActionGuard w task action) := inferInstanceAs (Decidable (_ → _ ∧ _))

/-- What the environment promises: the processor is used properly, pending sources are dispatched,
and the callbacks of pending actions are called. -/
def ServiceGuard (w : ServiceWorld) (op : ServiceOp) : Prop :=
  OnClient Guard w op ∧
    match op with
    | .dispatch queueId cs action _ => Guard w.processor (.dispatch queueId) ∧
      OnOk (fun x => OnOk (fun w2 => ∀ task ∈ x.1, ActionGuard w2 task action) (calls x.2 cs))
        (takeTask w queueId)
    | .actionCb action task _ => (action, task) ∈ w.actions
    | _ => True

/-- The service layer as a transition system. -/
def service : System ServiceWorld ServiceOp ServiceFault where
  init := ServiceWorld.new
  guard := ServiceGuard
  step := serviceStep

section Decidable

variable (P : World → Op → Prop) [∀ w op, Decidable (P w op)]

instance (w : ServiceWorld) (c : Call) : Decidable (OnCall P w c) :=
  match h : c.op w with
  | none => isTrue (by simp [OnCall, h])
  | some op => decidable_of_iff (P w.processor op) (by simp [OnCall, h])

instance OnCalls.decidable : ∀ (cs : List Call) (w : ServiceWorld), Decidable (OnCalls P w cs)
  | [], _ => isTrue trivial
  | _ :: cs, _ =>
    haveI : DecidablePred fun w' => OnCalls P w' cs := fun w' => OnCalls.decidable cs w'
    inferInstanceAs (Decidable (_ ∧ OnOk _ _))

instance (w : ServiceWorld) (cs : List Call) : Decidable (OnCalls P w cs) := OnCalls.decidable P cs w

instance (w : ServiceWorld) : ∀ op : ServiceOp, Decidable (OnClient P w op)
  | .call _ => inferInstanceAs (Decidable (OnCall P _ _))
  | .dispatch _ _ _ _ | .actionCb _ _ _ => inferInstanceAs (Decidable (OnOk _ _))
  | .setQuitting | .dispatchQuit | .rehash _ => inferInstanceAs (Decidable (P _ _))

end Decidable

instance (w : ServiceWorld) : ∀ op : ServiceOp, Decidable (ServiceGuard w op)
  | .dispatch _ _ _ _ => inferInstanceAs (Decidable (OnClient Guard _ _ ∧ _ ∧ OnOk _ _))
  | .actionCb _ _ _ => inferInstanceAs (Decidable (OnClient Guard _ _ ∧ _ ∈ _))
  | .call _ | .setQuitting | .dispatchQuit | .rehash _ =>
    inferInstanceAs (Decidable (OnClient Guard _ _ ∧ True))

instance (w : ServiceWorld) (op : ServiceOp) : Decidable (service.guard w op) :=
  inferInstanceAs (Decidable (ServiceGuard w op))

/-! ## What service tasks should guarantee -/

/-- The event reports the task completed. -/
def Event.completes (task : TaskAtom) : Event → Bool
  | .completed _ t => t == task
  | _ => false

namespace ServiceWorld

/-- The action of the task has finished, was cancelled, or was never pending. -/
def Settled (w : ServiceWorld) (task : TaskAtom) : Prop :=
  (∃ action, ServiceEvent.finished task action ∈ w.history ∨
    ServiceEvent.cancelled task action ∈ w.history) ∨
  ∃ failed, ServiceEvent.begun task 0 failed ∈ w.history

end ServiceWorld

/-- No `t_action` reports failure with an action pending, unless it has already cancelled its queue;
and no queue is removed with a running task. -/
def CompletesActions (w : ServiceWorld) (op : ServiceOp) : Prop :=
  OnClient KeepsFlights w op ∧
    match op with
    | .dispatch queueId cs action failed =>
      OnOk (fun x => OnOk (fun w2 => failed = true → action ≠ 0 →
        w2.processor.isCancelled queueId = true) (calls x.2 cs)) (takeTask w queueId)
    | _ => True

instance (w : ServiceWorld) : ∀ op : ServiceOp, Decidable (CompletesActions w op)
  | .dispatch _ _ _ _ => inferInstanceAs (Decidable (OnClient KeepsFlights _ _ ∧ OnOk _ _))
  | .call _ | .actionCb _ _ _ | .setQuitting | .dispatchQuit | .rehash _ =>
    inferInstanceAs (Decidable (OnClient KeepsFlights _ _ ∧ True))

/-- Each processed service task is completed once: at most once at any time, exactly once when its
action is done with; the counter is exact; and `service-task.c` never uses a task or a queue that
has been freed. -/
structure CompletesOnce (w : ServiceWorld) : Prop where
  once : ∀ t, w.processor.log.countP (Event.completes t) ≤ 1
  done : ∀ t, w.Settled t → w.processor.log.countP (Event.completes t) = 1
  running : w.processor.runningTasks = (inFlightTasks w.processor.log).length
  safe : ∀ op, ServiceGuard w op → CompletesActions w op → ∀ fault,
    serviceStep w op = .error fault → ∃ fault', fault = .processor fault'

/-- What quitting in `w` should have done by `w'`: every pending action is cancelled, every task of a
queue is deleted once, every finally callback is called once, nothing runs, no queue is left, and
`on_quit_cb` is scheduled once. -/
structure Drained (w w' : ServiceWorld) : Prop where
  cancelled : ∀ t s, w.tasks t = some s → s.pAction ≠ 0 → .cancelled t s.pAction ∈ w'.history
  actions : w'.actions = []
  deleted : ∀ e ∈ w.processor.taskQueues.entries, ∀ t ∈ e.2.currentTask.toList ++ e.2.tasks,
    w'.processor.log.countP (Event.deletes t) = 1
  finished : ∀ e ∈ w.processor.taskQueues.entries, e.2.taskQueueFinallyCb ≠ none →
    w'.processor.log.countP (Event.isFinally e.1) = 1
  running : w'.processor.runningTasks = 0
  empty : w'.processor.taskQueues.entries = []
  scheduled : w'.processor.log.countP Event.isSchedule = 1

/-- Every task in flight belongs to a registered queue that is not marked, and in the order of the
traversal no queue with a running task comes after an `AUTO_REMOVE` one with a running task. -/
structure Drainable (w : ServiceWorld) : Prop where
  registered : ∀ x ∈ inFlightTasks w.processor.log,
    ∃ e ∈ w.processor.taskQueues.entries, e.1 = x.1 ∧ e.2.cancelled = false
  apart : w.processor.taskQueues.entries.Pairwise fun e e' =>
    e.2.busy = true → e.2.autoRemove = true → e'.2.busy = false

instance (w : ServiceWorld) : Decidable (Drainable w) :=
  haveI : Decidable (∀ x ∈ inFlightTasks w.processor.log,
    ∃ e ∈ w.processor.taskQueues.entries, e.1 = x.1 ∧ e.2.cancelled = false) := inferInstance
  haveI : Decidable (w.processor.taskQueues.entries.Pairwise fun e e' =>
    e.2.busy = true → e.2.autoRemove = true → e'.2.busy = false) := inferInstance
  decidable_of_iff (_ ∧ _) ⟨fun h => ⟨h.1, h.2⟩, fun h => ⟨h.registered, h.apart⟩⟩

/-! ## Failed steps -/

/-- The arguments that `t_action` passes to `dleyna_service_task_add`, but for the queue. -/
structure TaskArgs where
  task : TaskAtom
  proxy : Gpointer
  freeFunc : Option Gpointer
  userData : Gpointer
  deriving DecidableEq, Repr

/-- The call that adds the task to the queue. -/
def TaskArgs.call (queueId : TaskQueueKey) (args : TaskArgs) : Call :=
  .addServiceTask queueId args.task args.proxy args.freeFunc args.userData

/-- The call of `free_func` for a task that is added with these arguments. -/
def TaskArgs.freeCalls (args : TaskArgs) : List ServiceEvent :=
  args.freeFunc.toList.map fun cb => .freeFunc cb args.userData

/-- The call of `free_func` when the task is freed. -/
def ServiceTask.freeCalls (s : ServiceTask) : List ServiceEvent :=
  s.freeFunc.toList.map fun cb => .freeFunc cb s.userData

/-- The call of `free_func` when a task in memory is freed. -/
def ServiceWorld.freeCalls (w : ServiceWorld) (task : TaskAtom) : List ServiceEvent :=
  (w.tasks task).elim [] ServiceTask.freeCalls

/-- What the dispatch of the queue in `w` should have done by `w'` when `t_action` of its first task
adds the tasks `added` to the queue and fails: the failed task was cancelled and deleted; the tasks
that waited, the added ones included, were cancelled and deleted, each once and without being
processed however the run goes on; `free_func` was called once for each; no dispatch of the queue is
pending; the counter is back at its value; an `AUTO_REMOVE` queue is gone, and its finally callback was
told `TRUE`; another queue stays, with nothing to do; and the other queues and tasks have not
changed. -/
structure Aborted (w : ServiceWorld) (k : TaskQueueKey) (queue : TaskQueue) (task : TaskAtom)
    (tasks : List TaskAtom) (added : List TaskArgs) (w' : ServiceWorld) : Prop where
  failed : callsFor task w'.processor.log = [.processCb k task queue.userData,
    .cancelCb k task queue.userData, .deleteCb k task queue.userData]
  waiting : ∀ t ∈ tasks ++ added.map TaskArgs.task, ∀ w'', service.Path (fun _ _ => True) w' w'' →
    CancelledOnce w''.processor.log k t
  freed : w'.history = w.history ++ .begun task 0 true ::
    (tasks.flatMap w.freeCalls ++ added.flatMap TaskArgs.freeCalls ++ w.freeCalls task)
  memory : ∀ t, w'.tasks t = if t ∈ task :: tasks ++ added.map TaskArgs.task then none else w.tasks t
  actions : w'.actions = w.actions
  pending : w'.processor.pendingOf k = []
  running : w'.processor.runningTasks = w.processor.runningTasks
  quitting : w'.processor.quitting = w.processor.quitting
  removed : queue.autoRemove = true → w'.processor.taskQueues.find? k = none ∧
    w'.processor.log.filter (Event.isFinally k) =
      queue.taskQueueFinallyCb.toList.map fun cb => .finallyCb k cb true queue.userData
  stays : queue.autoRemove = false → w'.processor.log.filter (Event.isFinally k) = [] ∧
    w'.processor.taskQueues.find? k = some { queue with
      tasks := [], currentTask := none, idleId := 0, cancelled := true }
  others : ∀ k', k' ≠ k → Unchanged k' w.processor w'.processor

end DleynaCore
