import DleynaCore.TaskProcessor.State

/-!
# The operations of the task processor

The functions of `task-processor.c`, with the GLib functions they call. A function that uses a key
or a queue faults when these have been freed: the table owns both, so a key is alive exactly as long
as its queue is registered, and a lookup with a live key finds its own queue.

Callbacks of the client return without calling the processor, with one exception: the cancel
callback of a running task may report its completion before it returns. The argument `sync` says for
which tasks it does. What the process callback does before it returns is not told apart from what
the client does afterwards, since `prv_process_task` does nothing after that call.
-/

namespace DleynaCore

/-! ## GLib -/

/-- `g_idle_add`: attach a source and return its id, which is not zero and not in use. -/
def gIdleAdd (w : World) (source : IdleSource) : World × Nat :=
  ({ w with sources := w.sources ++ [(w.attached + 1, source)], attached := w.attached + 1 },
    w.attached + 1)

/-- `g_source_remove`. -/
def gSourceRemove (w : World) (id : Nat) : World :=
  { w with sources := w.sources.filter fun s => s.1 ≠ id }

/-- `queue->idle_id = g_idle_add(prv_process_task, queue_id)`. -/
def idleAddProcessTask (w : World) (queueId : TaskQueueKey) : World :=
  let (w', id) := gIdleAdd w (.processTask queueId)
  { w' with taskQueues := w'.taskQueues.modify queueId fun queue => { queue with idleId := id } }

/-- `g_idle_add(processor->on_quit_cb, NULL)`. -/
def idleAddOnQuitCb (w : World) : World :=
  ((gIdleAdd w .onQuitCb).1).emit [.scheduleQuit w.quitting w.runningTasks]

/-- The calls made by `prv_free_cb`: `task_delete_cb` on every waiting task, then the finally
callback if one was set. -/
def freeCalls (queueId : TaskQueueKey) (queue : TaskQueue) : List Event :=
  queue.tasks.map (fun task => .deleteCb queueId task queue.userData) ++
    match queue.taskQueueFinallyCb with
    | some cb => [.finallyCb queueId cb queue.cancelled queue.userData]
    | none => []

/-- `prv_free_cb`, the value destructor of the table. -/
def prvFreeCb (w : World) (queueId : TaskQueueKey) (queue : TaskQueue) : World :=
  w.emit (freeCalls queueId queue)

/-- `g_hash_table_remove`, with the destructors. -/
def gHashTableRemove (w : World) (queueId : TaskQueueKey) : World :=
  match w.taskQueues.find? queueId with
  | some queue =>
    prvFreeCb { w with taskQueues := w.taskQueues.erase queueId, version := w.version + 1 } queueId
      queue
  | none => w

/-- `g_hash_table_remove_all`, with the destructors. -/
def gHashTableRemoveAll (w : World) : World :=
  w.taskQueues.entries.foldl (fun w e => prvFreeCb w e.1 e.2)
    { w with taskQueues := .empty
             version := if w.taskQueues.size = 0 then w.version else w.version + 1 }

/-- `g_hash_table_foreach_remove` over the remaining keys of a traversal. A node is removed when
the callback returns `TRUE`; the traversal is abandoned when the callback changed the table. -/
def gHashTableForeachRemove (f : World → TaskQueueKey → Except Fault (Bool × World)) :
    List TaskQueueKey → World → Except Fault World
  | [], w => .ok w
  | k :: ks, w =>
    match f w k with
    | .error fault => .error fault
    | .ok (false, w') =>
      if w'.version ≠ w.version then .ok w' else gHashTableForeachRemove f ks w'
    | .ok (true, w') =>
      match w'.taskQueues.find? k with
      | none => .error .useAfterFree
      | some queue =>
        let w'' := prvFreeCb { w' with taskQueues := w'.taskQueues.erase k } k queue
        if w''.version ≠ w.version then .ok w'' else gHashTableForeachRemove f ks w''

/-! ## Queues and tasks -/

/-- `dleyna_task_processor_add_queue`. The key pointer it returns is `key`; when an equal key is
registered, `g_hash_table_insert` keeps the registered one and frees `key`. -/
def dleynaTaskProcessorAddQueue (w : World) (key : TaskQueueKey) (flags : UInt32) : World :=
  let queue := TaskQueue.new flags
  match h : w.taskQueues.lookup key.pair with
  | none =>
    { w with taskQueues := w.taskQueues.insertNew key queue h
             version := w.version + 1 }.emit [.addQueue key flags]
  | some (oldKey, oldQueue) =>
    prvFreeCb ((w.emit [.addQueue key flags]).setQueue oldKey queue) oldKey oldQueue

/-- `dleyna_task_processor_lookup_queue`. -/
def dleynaTaskProcessorLookupQueue (w : World) (source sink : String) : Option TaskQueueKey :=
  (w.taskQueues.lookup (source, sink)).map Prod.fst

/-- The first half of `dleyna_task_queue_task_completed`: the running task is deleted, and the
counter goes down. -/
def deleteCurrentTask (w : World) (queueId : TaskQueueKey) (queue : TaskQueue) : World :=
  let w' := match queue.currentTask with
    | some task =>
      (w.emit [.deleteCb queueId task queue.userData]).setQueue queueId
        { queue with currentTask := none }
    | none => w
  { w' with runningTasks := guintPred w'.runningTasks }

/-- `dleyna_task_queue_task_completed`. -/
def dleynaTaskQueueTaskCompleted (w : World) (queueId : TaskQueueKey) : Except Fault World :=
  match w.taskQueues.find? queueId with
  | none => .error .useAfterFree
  | some queue =>
    let w' := deleteCurrentTask w queueId queue
    .ok <|
      if w'.quitting && w'.runningTasks == 0 then gHashTableRemoveAll (idleAddOnQuitCb w')
      else if queue.deferRemove then gHashTableRemove w' queueId
      else if 0 < queue.tasks.length then idleAddProcessTask w' queueId
      else if queue.autoRemove then gHashTableRemove w' queueId
      else w'

/-- The calls of `prv_task_cancel_and_free_cb` for the waiting tasks. -/
def cancelAndFreeCalls (queueId : TaskQueueKey) (queue : TaskQueue) : List Event :=
  queue.tasks.flatMap fun task =>
    [.cancelCb queueId task queue.userData, .deleteCb queueId task queue.userData]

/-- The part of `prv_cancel_only` before the running task is looked at: the queue is marked, its
waiting tasks are cancelled and freed, and its pending dispatch is removed. -/
def cancelWaiting (w : World) (queueId : TaskQueueKey) (queue : TaskQueue) : World :=
  let w' := (w.emit (cancelAndFreeCalls queueId queue)).setQueue queueId
    { queue with cancelled := true, tasks := [], idleId := 0 }
  if queue.idleId ≠ 0 then gSourceRemove w' queue.idleId else w'

/-- `prv_cancel_only`. -/
def prvCancelOnly (sync : TaskAtom → Bool) (w : World) (queueId : TaskQueueKey) :
    Except Fault (Bool × World) :=
  match w.taskQueues.find? queueId with
  | none => .error .useAfterFree
  | some queue =>
    if queue.cancelled then .ok (false, w)
    else
      let w1 := cancelWaiting w queueId queue
      match queue.currentTask with
      | some task =>
        let w2 := w1.emit [.cancelCb queueId task queue.userData]
        if sync task then
          match dleynaTaskQueueTaskCompleted (w2.emit [.completed queueId task]) queueId with
          | .error fault => .error fault
          | .ok w3 => .ok (false, w3)
        else .ok (false, w2)
      | none => .ok (queue.autoRemove, w1)

/-- `prv_cancel`. -/
def prvCancel (sync : TaskAtom → Bool) (w : World) (queueId : TaskQueueKey) :
    Except Fault World :=
  match prvCancelOnly sync w queueId with
  | .error fault => .error fault
  | .ok (true, w') => .ok (gHashTableRemove w' queueId)
  | .ok (false, w') => .ok w'

/-- `prv_cancel_cb`. -/
def prvCancelCb (sync : TaskAtom → Bool) (w : World) (queueId : TaskQueueKey) :
    Except Fault (Bool × World) := prvCancelOnly sync w queueId

/-- `prv_cancel_all_queues`. -/
def prvCancelAllQueues (sync : TaskAtom → Bool) (w : World) : Except Fault World :=
  gHashTableForeachRemove (prvCancelCb sync) w.taskQueues.keys w

/-- `dleyna_task_processor_set_quitting`. -/
def dleynaTaskProcessorSetQuitting (sync : TaskAtom → Bool) (w : World) : Except Fault World :=
  let w1 := { w with quitting := true }.emit [.setQuitting]
  let w2 := if w1.runningTasks = 0 then idleAddOnQuitCb w1 else w1
  match prvCancelAllQueues sync w2 with
  | .error fault => .error fault
  | .ok w3 => .ok (gHashTableRemoveAll w3)

/-- `dleyna_task_processor_cancel_queue`. -/
def dleynaTaskProcessorCancelQueue (sync : TaskAtom → Bool) (w : World) (queueId : TaskQueueKey) :
    Except Fault World := prvCancel sync w queueId

/-- The common body of `prv_free_queue_for_source` and `prv_free_queue_for_sink`, which differ in
the string they compare. -/
def prvFreeQueueFor (hit : TaskQueueKey → Bool) (sync : TaskAtom → Bool) (w : World)
    (queueKey : TaskQueueKey) : Except Fault (Bool × World) :=
  match w.taskQueues.find? queueKey with
  | none => .error .useAfterFree
  | some queue =>
    if hit queueKey && !queue.deferRemove then
      let w1 := w.setQueue queueKey { queue with deferRemove := queue.currentTask.isSome }
      match prvCancel sync w1 queueKey with
      | .error fault => .error fault
      | .ok w2 =>
        -- `queue->defer_remove` is read again, whatever `prv_cancel` did to the queue
        match w2.taskQueues.find? queueKey with
        | none => .error .useAfterFree
        | some queue' => .ok (!queue'.deferRemove, w2)
    else .ok (false, w)

/-- `prv_free_queue_for_source`. -/
def prvFreeQueueForSource (source : String) := prvFreeQueueFor fun k => source == k.source

/-- `dleyna_task_processor_remove_queues_for_source`. -/
def dleynaTaskProcessorRemoveQueuesForSource (source : String) (sync : TaskAtom → Bool)
    (w : World) : Except Fault World :=
  gHashTableForeachRemove (prvFreeQueueForSource source sync) w.taskQueues.keys w

/-- `prv_free_queue_for_sink`. -/
def prvFreeQueueForSink (sink : String) := prvFreeQueueFor fun k => sink == k.sink

/-- `dleyna_task_processor_remove_queues_for_sink`. -/
def dleynaTaskProcessorRemoveQueuesForSink (sink : String) (sync : TaskAtom → Bool) (w : World) :
    Except Fault World :=
  gHashTableForeachRemove (prvFreeQueueForSink sink sync) w.taskQueues.keys w

/-- `prv_process_task`. -/
def prvProcessTask (w : World) (queueId : TaskQueueKey) : Except Fault World :=
  match w.taskQueues.find? queueId with
  | none => .error .useAfterFree
  | some queue =>
    match queue.tasks with
    | [] => .error .emptyTasks
    | task :: tasks =>
      .ok <| World.emit
        { (w.setQueue queueId
            { queue with cancelled := false, idleId := 0, currentTask := some task, tasks := tasks })
          with runningTasks := guintSucc w.runningTasks }
        [.processCb queueId task queue.userData]

/-- `dleyna_task_queue_start`. -/
def dleynaTaskQueueStart (w : World) (queueId : TaskQueueKey) : Except Fault World :=
  match w.taskQueues.find? queueId with
  | none => .error .useAfterFree
  | some queue =>
    .ok <|
      if w.quitting then w
      else if queue.deferRemove then w
      else if 0 < queue.tasks.length then
        if queue.currentTask.isNone && queue.idleId == 0 then idleAddProcessTask w queueId else w
      else if queue.autoRemove then gHashTableRemove w queueId
      else w

/-- `dleyna_task_queue_add_task`. -/
def dleynaTaskQueueAddTask (w : World) (queueId : TaskQueueKey) (task : TaskAtom) :
    Except Fault World :=
  match w.taskQueues.find? queueId with
  | none => .error .useAfterFree
  | some queue =>
    let w1 := (w.emit [.addTask queueId task]).setQueue queueId
      { queue with tasks := queue.tasks ++ [task] }
    .ok <|
      if queue.deferRemove then w1
      else if queue.autoStart && (queue.currentTask.isNone && queue.idleId == 0) then
        idleAddProcessTask w1 queueId
      else w1

/-- `dleyna_task_queue_set_finally`. -/
def dleynaTaskQueueSetFinally (w : World) (queueId : TaskQueueKey) (finallyCb : Option Gpointer) :
    Except Fault World :=
  match w.taskQueues.find? queueId with
  | none => .error .useAfterFree
  | some queue => .ok (w.setQueue queueId { queue with taskQueueFinallyCb := finallyCb })

/-- `dleyna_task_queue_set_user_data`. -/
def dleynaTaskQueueSetUserData (w : World) (queueId : TaskQueueKey) (userData : Gpointer) :
    Except Fault World :=
  match w.taskQueues.find? queueId with
  | none => .error .useAfterFree
  | some queue => .ok (w.setQueue queueId { queue with userData := userData })

/-- `dleyna_task_queue_get_user_data`. -/
def dleynaTaskQueueGetUserData (w : World) (queueId : TaskQueueKey) : Except Fault Gpointer :=
  match w.taskQueues.find? queueId with
  | none => .error .useAfterFree
  | some queue => .ok queue.userData

/-- `dleyna_task_processor_free`: dropping the table frees every queue that is left. -/
def dleynaTaskProcessorFree (w : World) : World := gHashTableRemoveAll w

/-! ## The main loop -/

/-- Take the first pending source that is `source` off the main loop. -/
def detach (w : World) (source : IdleSource) : World :=
  { w with sources := w.sources.eraseP fun s => s.2 = source }

/-- The main loop dispatches a pending `prv_process_task`. -/
def dispatchProcessTask (w : World) (queueId : TaskQueueKey) : Except Fault World :=
  prvProcessTask (detach w (.processTask queueId)) queueId

/-- The main loop dispatches a pending `on_quit_cb`. -/
def dispatchOnQuitCb (w : World) : World :=
  (detach w .onQuitCb).emit [.quitCb w.taskQueues.size]

end DleynaCore
