import DleynaCore.TaskProcessor.Proofs.SourcesProofs

/-!
# Each operation answers a request

The operations on one queue act as `TaskQueue.serve` says. The last completion of a quitting
processor also removes all other queues.
-/

namespace DleynaCore

variable {w w' : World} {k : TaskQueueKey} {q : TaskQueue}

/-- How a registered queue answers. -/
theorem serve_eq (h : SourcesOk w) (hq : w.taskQueues.find? k = some q) {r : Request}
    {o : Option TaskQueue} {es : List Event} (hs : q.shape.serve k r = .ok (o, es)) :
    (w.view k).serve k r = .ok ((w.view k).put (q.stops r) o es) := by
  have hst : q.shape.stops r = q.stops r := by cases r <;> rfl
  simp [view_of_find? h hq, QueueView.serve, hs, hst]

theorem serve_drop_notFound (hq : w.taskQueues.find? k = none) :
    (w.view k).serve k .drop = .ok (w.view k) := by
  simp [view_of_find?_none hq, QueueView.serve]

/-- What is seen after a registered queue has become `q'`. -/
theorem put_some (h : SourcesOk w) (hq : w.taskQueues.find? k = some q) {b : Bool}
    {q' : TaskQueue} {es : List Event} :
    (w.view k).put b (some q') es = ⟨some q', q'.idleId, w.logOf k ++ es⟩ := by
  simp [view_of_find? h hq, QueueView.put]

/-- What is seen after a registered queue has been removed. -/
theorem put_none (h : SourcesOk w) (hq : w.taskQueues.find? k = some q) {b : Bool}
    {es : List Event} :
    (w.view k).put b none es =
      ⟨none, if b = true then 0 else q.shape.idleId, w.logOf k ++ es⟩ := by
  simp [view_of_find? h hq, QueueView.put]

/-! ## Completions -/

/-- A completion that is not the last one of a quitting processor acts on its own queue. -/
theorem acts_taskCompleted (hS : SourcesOk w) (hq : w.taskQueues.find? k = some q)
    (hi : 0 < q.tasks.length → q.idleId = 0) (hl : w.lastTask = false)
    (h : dleynaTaskQueueTaskCompleted w k = .ok w') :
    Acts w w' k ((w.view k).put false (q.shape.finish k).1
      (q.deleteCurrent k ++ (q.shape.finish k).2)) (guintPred w.runningTasks) := by
  unfold dleynaTaskQueueTaskCompleted at h
  simp only [hq, Except.ok.injEq, deleteCurrentTask_quitting, deleteCurrentTask_runningTasks] at h
  rw [if_neg (by simpa [World.lastTask] using hl)] at h
  have hA := acts_deleteCurrentTask hS hq
  have h1 : (deleteCurrentTask w k q).taskQueues.find? k = some { q with currentTask := none } := by
    simp [find?_deleteCurrentTask hq]
  have hlog : (deleteCurrentTask w k q).logOf k = w.logOf k ++ q.deleteCurrent k := by
    simp [logOf_deleteCurrentTask]
  have hrun : (deleteCurrentTask w k q).runningTasks = guintPred w.runningTasks := by simp
  unfold TaskQueue.finish
  by_cases hd : q.deferRemove = true
  · rw [if_pos hd] at h
    subst h
    have hR := acts_gHashTableRemove hA.sources h1
    rw [hrun, hlog] at hR
    refine (hA.trans hR).cast ?_
    rw [if_pos (show q.shape.deferRemove = true from hd), put_none hS hq]
    simp [TaskQueue.shape, freeCalls]
  · rw [if_neg hd] at h
    rw [if_neg (show ¬ q.shape.deferRemove = true from hd)]
    by_cases ht : 0 < q.tasks.length
    · rw [if_pos ht] at h
      subst h
      have hR := acts_idleAddProcessTask hA.sources h1 (hi ht)
      rw [hrun, hlog] at hR
      refine (hA.trans hR).cast ?_
      rw [if_pos (show 0 < q.shape.tasks.length from ht), put_some hS hq]
      simp [TaskQueue.shape]
    · rw [if_neg ht] at h
      rw [if_neg (show ¬ 0 < q.shape.tasks.length from ht)]
      by_cases ha : q.autoRemove = true
      · rw [if_pos ha] at h
        subst h
        have hR := acts_gHashTableRemove hA.sources h1
        rw [hrun, hlog] at hR
        refine (hA.trans hR).cast ?_
        rw [if_pos (show q.shape.autoRemove = true from ha), put_none hS hq]
        simp [TaskQueue.shape, freeCalls]
      · rw [if_neg ha] at h
        subst h
        refine hA.cast ?_
        rw [if_neg (show ¬ q.shape.autoRemove = true from ha), put_some hS hq]
        simp

/-- Removing all queues removes each as it is. -/
theorem view_gHashTableRemoveAll (hS : SourcesOk w) (k : TaskQueueKey) :
    (w.view k).serve k .drop = .ok ((gHashTableRemoveAll w).view k) := by
  have hl := logOf_gHashTableRemoveAll w k
  have hp : (gHashTableRemoveAll w).pendingOf k = w.pendingOf k := by
    rw [gHashTableRemoveAll_eq]
    rfl
  cases h : w.taskQueues.find? k with
  | none =>
    rw [serve_drop_notFound h, view_of_find?_none h, view_of_find?_none (by simp), hp, hl, dropCalls_none h,
      List.append_nil]
  | some q =>
    rw [serve_eq hS h (r := .drop) rfl, put_none hS h, view_of_find?_none (by simp), hp, hl,
      dropCalls_some h]
    have : (w.pendingOf k).length = q.shape.idleId :=
      congrArg QueueView.pending (view_of_find? hS h)
    simp [TaskQueue.stops, this]

theorem SourcesOk.removeAll (h : SourcesOk w) : SourcesOk (gHashTableRemoveAll w) := by
  refine h.congr (by rw [gHashTableRemoveAll_eq]) (by rw [gHashTableRemoveAll_eq]) (by simp) ?_
  intro k hk
  rw [logOf_gHashTableRemoveAll]
  exact List.append_ne_nil_of_left_ne_nil hk _

theorem quitView_gHashTableRemoveAll (w : World) :
    (gHashTableRemoveAll w).quitView = w.quitView := by
  rw [gHashTableRemoveAll_eq]
  refine quitView_congr rfl ?_ rfl
  have hnil : (w.taskQueues.entries.flatMap fun e => freeCalls e.1 e.2).filter
      (fun e => e.key = none) = [] := List.filter_eq_nil_iff.mpr ?_
  · rw [List.filter_append, hnil, List.append_nil]
  intro e he
  obtain ⟨x, -, he⟩ := List.mem_flatMap.mp he
  simp [ownedBy_freeCalls _ _ e he]

theorem SourcesOk.onQuitCb (h : SourcesOk w) : SourcesOk (idleAddOnQuitCb w) where
  nodup := h.attach_nodup .onQuitCb
  bound := h.attach_bound .onQuitCb
  linked := by
    intro k q hk
    rw [pendingOf_append (w := w) rfl]
    simpa using h.linked k q hk
  known := by
    intro k hk
    rw [pendingOf_append (w := w) rfl] at hk
    rw [logOf_idleAddOnQuitCb]
    exact h.known k (by simpa using hk)

theorem view_idleAddOnQuitCb (w : World) (k : TaskQueueKey) :
    (idleAddOnQuitCb w).view k = w.view k :=
  view_congr rfl (by rw [pendingOf_append (w := w) rfl]; simp) (logOf_idleAddOnQuitCb w k)

theorem quitView_idleAddOnQuitCb (w : World) :
    (idleAddOnQuitCb w).quitView = w.quitView.schedule w.runningTasks := by
  simp [World.quitView, QuitView.schedule, idleAddOnQuitCb, gIdleAdd, Event.key]

/-- The last completion of a quitting processor removes every queue. -/
structure Ends (w w' : World) (k : TaskQueueKey) (v : QueueView) : Prop where
  sources : SourcesOk w'
  self : w'.view k = v
  others : ∀ k', k' ≠ k → (w.view k').serve k' .drop = .ok (w'.view k')
  running : w'.runningTasks = 0
  quit : w'.quitView = w.quitView.schedule 0
  table : w'.taskQueues = .empty

theorem ends_taskCompleted (hS : SourcesOk w) (hq : w.taskQueues.find? k = some q)
    (hl : w.lastTask = true) (h : dleynaTaskQueueTaskCompleted w k = .ok w') :
    Ends w w' k ((w.view k).put false none (q.deleteCurrent k ++ freeCalls k q)) := by
  unfold dleynaTaskQueueTaskCompleted at h
  simp only [hq, Except.ok.injEq, deleteCurrentTask_quitting, deleteCurrentTask_runningTasks] at h
  rw [if_pos (by simpa [World.lastTask] using hl)] at h
  subst h
  set w1 := deleteCurrentTask w k q with hw1
  have hA : Acts w w1 k _ _ := acts_deleteCurrentTask hS hq
  have hS1 := hA.sources.onQuitCb
  have hrun : w1.runningTasks = 0 := by
    simp only [World.lastTask, Bool.and_eq_true, beq_iff_eq] at hl
    simpa [hw1] using hl.2
  have hview : ∀ k', (w1.view k').serve k' .drop =
      .ok ((gHashTableRemoveAll (idleAddOnQuitCb w1)).view k') := fun k' => by
    rw [← view_idleAddOnQuitCb]
    exact view_gHashTableRemoveAll hS1 k'
  refine ⟨hS1.removeAll, ?_, fun k' hk => ?_, ?_, ?_, gHashTableRemoveAll_taskQueues _⟩
  · have hv := hview k
    rw [hA.self] at hv
    simp only [QueueView.serve, TaskQueue.serve, Except.ok.injEq] at hv
    rw [← hv, put_none hS hq]
    simp [QueueView.put, TaskQueue.stops, freeCalls]
  · rw [← hview k', hA.others k' hk]
  · rw [gHashTableRemoveAll_eq]
    exact hrun
  · rw [quitView_gHashTableRemoveAll, quitView_idleAddOnQuitCb, hA.quit, hrun]

@[simp] theorem idleAddProcessTask_version (w : World) (k : TaskQueueKey) :
    (idleAddProcessTask w k).version = w.version := rfl

/-- Removing all queues is a change of the table if there are any. -/
theorem version_removeAll (hq : w.taskQueues.find? k = some q) :
    (gHashTableRemoveAll (idleAddOnQuitCb w)).version = w.version + 1 := by
  have hne : w.taskQueues.size ≠ 0 := by
    intro h0
    have hmem := HashTable.find?_eq_some.mp hq
    rw [List.length_eq_zero_iff.mp h0] at hmem
    simp at hmem
  rw [gHashTableRemoveAll_eq]
  exact if_neg hne

/-- What `dleyna_task_queue_task_completed` does to the version of the table. -/
theorem version_taskCompleted (hq : w.taskQueues.find? k = some q)
    (h : dleynaTaskQueueTaskCompleted w k = .ok w') :
    w'.version = if (w.lastTask || q.deferRemove ||
      (decide (q.tasks = []) && q.autoRemove)) = true then w.version + 1 else w.version := by
  unfold dleynaTaskQueueTaskCompleted at h
  simp only [hq, Except.ok.injEq, deleteCurrentTask_quitting, deleteCurrentTask_runningTasks] at h
  have h1 : (deleteCurrentTask w k q).taskQueues.find? k = some { q with currentTask := none } := by
    simp [find?_deleteCurrentTask hq]
  have hv : (deleteCurrentTask w k q).version = w.version := by
    unfold deleteCurrentTask
    split <;> rfl
  have hrem : (gHashTableRemove (deleteCurrentTask w k q) k).version = w.version + 1 := by
    simp [gHashTableRemove, h1, prvFreeCb, hv]
  by_cases hl : w.lastTask = true
  · rw [if_pos (by simpa [World.lastTask] using hl)] at h
    rw [← h, version_removeAll h1, hv]
    simp [hl]
  · rw [if_neg (by simpa [World.lastTask] using hl)] at h
    have hl : w.lastTask = false := by simpa using hl
    rw [hl, Bool.false_or]
    by_cases hd : q.deferRemove = true
    · rw [if_pos hd] at h
      rw [← h, hrem]
      simp [hd]
    · have hd' : q.deferRemove = false := by simpa using hd
      rw [if_neg hd] at h
      rw [hd', Bool.false_or]
      by_cases ht : 0 < q.tasks.length
      · rw [if_pos ht] at h
        have ht' : q.tasks ≠ [] := List.length_pos_iff.mp ht
        rw [← h, idleAddProcessTask_version, hv]
        simp [ht']
      · have ht' : q.tasks = [] := by simpa using ht
        rw [if_neg ht] at h
        by_cases ha : q.autoRemove = true
        · rw [if_pos ha] at h
          rw [← h, hrem]
          simp [ht', ha]
        · rw [if_neg ha] at h
          rw [← h, hv]
          simp [ha]

/-! ## Cancellation -/

@[simp] theorem lastTask_emit (w : World) (es : List Event) :
    (w.emit es).lastTask = w.lastTask := rfl

@[simp] theorem lastTask_cancelWaiting (w : World) (k : TaskQueueKey) (q : TaskQueue) :
    (cancelWaiting w k q).lastTask = w.lastTask := by
  simp [World.lastTask]

/-- The waiting tasks are cancelled, and the calls `es` are made for the running task. -/
theorem acts_cancelRunning (hS : SourcesOk w) (hq : w.taskQueues.find? k = some q)
    {es : List Event} (hes : OwnedBy k es) :
    Acts w ((cancelWaiting w k q).emit es) k
      ⟨some q.drain, 0, w.logOf k ++ (cancelAndFreeCalls k q ++ es)⟩ w.runningTasks := by
  have hA := acts_cancelWaiting hS hq
  have hE := acts_emit hA.sources (find?_cancelWaiting_self hq) hes
  rw [cancelWaiting_runningTasks, logOf_cancelWaiting, if_pos rfl, List.append_assoc] at hE
  exact hA.trans hE

/-- The running task is deleted with the queue's user data, drained or not. -/
theorem deleteCurrent_drain {t : TaskAtom} (ht : q.currentTask = some t) :
    q.drain.deleteCurrent k = [.deleteCb k t q.userData] := by
  simp [TaskQueue.deleteCurrent, TaskQueue.drain, ht]

/-- The running task completes inside its cancel callback: the queue is drained and finishes. -/
theorem acts_cancelCompleted (hS : SourcesOk w) (hq : w.taskQueues.find? k = some q) {t : TaskAtom}
    (ht : q.currentTask = some t) (hl : w.lastTask = false)
    (h : dleynaTaskQueueTaskCompleted
      ((cancelWaiting w k q).emit [.cancelCb k t q.userData, .completed k t]) k = .ok w') :
    Acts w w' k ((w.view k).put true (q.drain.finish k).1 (cancelAndFreeCalls k q ++
      (q.cancelCompleteCalls k t ++ (q.drain.finish k).2))) (guintPred w.runningTasks) := by
  have hes : OwnedBy k [.cancelCb k t q.userData, .completed k t] := by simp [OwnedBy, Event.key]
  have hA := acts_cancelRunning hS hq hes
  have hq2 : (cancelWaiting w k q).taskQueues.find? k = some q.drain :=
    find?_cancelWaiting_self hq
  have hC := acts_taskCompleted hA.sources hq2 (fun _ => rfl) (by simpa using hl) h
  rw [hA.running] at hC
  refine (hA.trans hC).cast ?_
  rw [hA.self, view_of_find? hS hq, deleteCurrent_drain ht]
  simp only [shape_drain, QueueView.put, TaskQueue.cancelCompleteCalls]
  cases (q.drain.finish k).1 <;> simp

/-- The last running task of a quitting processor completes inside its cancel callback. -/
theorem ends_cancelCompleted (hS : SourcesOk w) (hq : w.taskQueues.find? k = some q) {t : TaskAtom}
    (ht : q.currentTask = some t) (hl : w.lastTask = true)
    (h : dleynaTaskQueueTaskCompleted
      ((cancelWaiting w k q).emit [.cancelCb k t q.userData, .completed k t]) k = .ok w') :
    Ends w w' k ((w.view k).put true none (cancelAndFreeCalls k q ++
      (q.cancelCompleteCalls k t ++ freeCalls k q.drain))) := by
  have hes : OwnedBy k [.cancelCb k t q.userData, .completed k t] := by simp [OwnedBy, Event.key]
  have hA := acts_cancelRunning hS hq hes
  have hq2 : (cancelWaiting w k q).taskQueues.find? k = some q.drain :=
    find?_cancelWaiting_self hq
  have hE := ends_taskCompleted hA.sources hq2 (by simpa using hl) h
  refine ⟨hE.sources, ?_, fun k' hk => ?_, hE.running, hA.quit ▸ hE.quit, hE.table⟩
  · rw [hE.self, hA.self, view_of_find? hS hq, deleteCurrent_drain ht]
    simp [QueueView.put, TaskQueue.cancelCompleteCalls]
  · rw [← hE.others k' hk, hA.others k' hk]

end DleynaCore
