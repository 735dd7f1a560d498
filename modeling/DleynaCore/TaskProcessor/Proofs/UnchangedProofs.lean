import DleynaCore.TaskProcessor.Properties
import DleynaCore.TaskProcessor.Proofs.TraversalsProofs

/-!
# What an operation leaves alone

An operation on one queue leaves the others exactly as they are, ids of sources included, unless it
completes the last task of a quitting processor.
-/

namespace DleynaCore

variable {w w' w'' : World} {k k' : TaskQueueKey} {q : TaskQueue} {es : List Event}
  {sync : TaskAtom → Bool}

theorem Unchanged.refl (k : TaskQueueKey) (w : World) : Unchanged k w w := ⟨rfl, rfl, rfl⟩

theorem Unchanged.trans (h : Unchanged k w w') (h' : Unchanged k w' w'') : Unchanged k w w'' :=
  ⟨h'.queue.trans h.queue, h'.pending.trans h.pending, h'.log.trans h.log⟩

theorem unchanged_emit (w : World) (h : OwnedBy k es) (hk : k' ≠ k) : Unchanged k' w (w.emit es) :=
  ⟨rfl, rfl, by rw [World.logOf_emit_owned w h, if_neg hk, List.append_nil]⟩

theorem unchanged_setQueue (w : World) (q : TaskQueue) (hk : k' ≠ k) :
    Unchanged k' w (w.setQueue k q) :=
  ⟨by rw [World.find?_setQueue, if_neg hk], rfl, rfl⟩

theorem unchanged_cancelWaiting (h : SourcesOk w) (hq : w.taskQueues.find? k = some q)
    (hk : k' ≠ k) : Unchanged k' w (cancelWaiting w k q) where
  queue := by rw [find?_cancelWaiting, if_neg hk]
  pending := by rw [pendingOf_cancelWaiting h hq, if_neg hk]
  log := by rw [logOf_cancelWaiting, if_neg hk, List.append_nil]

theorem unchanged_gHashTableRemove (w : World) (hk : k' ≠ k) :
    Unchanged k' w (gHashTableRemove w k) := by
  cases hq : w.taskQueues.find? k with
  | none =>
    have : gHashTableRemove w k = w := by simp [gHashTableRemove, hq]
    rw [this]
    exact .refl k' w
  | some q =>
    refine ⟨by rw [find?_gHashTableRemove, if_neg hk], pendingOf_congr ?_ k', ?_⟩
    · simp [gHashTableRemove, hq, prvFreeCb]
    · rw [logOf_gHashTableRemove hq, if_neg hk, List.append_nil]

/-- The traversal of the table frees the queue that it has visited. -/
theorem unchanged_erase (w : World) (q : TaskQueue) (hk : k' ≠ k) :
    Unchanged k' w (prvFreeCb { w with taskQueues := w.taskQueues.erase k } k q) where
  queue := (HashTable.find?_erase _ _ _).trans (if_neg hk)
  pending := rfl
  log := by
    rw [prvFreeCb, World.logOf_emit_owned _ (ownedBy_freeCalls k q), if_neg hk, List.append_nil]
    rfl

theorem unchanged_deleteCurrentTask (hq : w.taskQueues.find? k = some q) (hk : k' ≠ k) :
    Unchanged k' w (deleteCurrentTask w k q) where
  queue := by rw [find?_deleteCurrentTask hq, if_neg hk]
  pending := by
    refine pendingOf_congr ?_ k'
    unfold deleteCurrentTask
    split <;> rfl
  log := by rw [logOf_deleteCurrentTask, if_neg hk, List.append_nil]

/-- A cancel that completes no task. -/
theorem unchanged_prvCancel (hS : SourcesOk w) (hq : w.taskQueues.find? k = some q)
    (hco : q.completesOnCancel sync = false) (h : prvCancel sync w k = .ok w') (hk : k' ≠ k) :
    Unchanged k' w w' := by
  unfold prvCancel at h
  cases hc : prvCancelOnly sync w k with
  | error fault => simp [hc] at h
  | ok r =>
    obtain ⟨b, w1⟩ := r
    have h1 : Unchanged k' w w1 := by
      obtain ⟨q0, hq0, hcases⟩ := prvCancelOnly_cases hc
      obtain rfl : q = q0 := Option.some.inj (hq.symm.trans hq0)
      rcases hcases with ⟨-, -, rfl⟩ | ⟨-, -, -, rfl⟩ | ⟨t, -, -, -, -, rfl⟩ |
        ⟨t, hcan, hcur, hs, -, -⟩
      · exact .refl k' w1
      · exact unchanged_cancelWaiting hS hq hk
      · exact (unchanged_cancelWaiting hS hq hk).trans
          (unchanged_emit _ (ownedBy_singleton rfl) hk)
      · simp [TaskQueue.completesOnCancel, hcan, hcur, hs] at hco
    cases b with
    | true =>
      obtain rfl : gHashTableRemove w1 k = w' := by simpa [hc] using h
      exact h1.trans (unchanged_gHashTableRemove w1 hk)
    | false =>
      obtain rfl : w1 = w' := by simpa [hc] using h
      exact h1

/-! ## Steps on one queue -/

/-- A step that takes one queue to `queue'`, with `n` tasks running after it, and leaves the others
alone. -/
structure Moves (k : TaskQueueKey) (w w' : World) (queue' : Option TaskQueue) (n : Nat)
    (es : List Event) : Prop where
  queue : w'.taskQueues.find? k = queue'
  others : ∀ k', k' ≠ k → Unchanged k' w w'
  running : w'.runningTasks = n
  quitting : w'.quitting = w.quitting
  log : w'.log = w.log ++ es

theorem Moves.refl (hq : w.taskQueues.find? k = some q) : Moves k w w (some q) w.runningTasks [] :=
  ⟨hq, fun k' _ => .refl k' w, rfl, rfl, by simp⟩

theorem Moves.trans {o o' : Option TaskQueue} {n n' : Nat} {es es' : List Event}
    (h : Moves k w w' o n es) (h' : Moves k w' w'' o' n' es') : Moves k w w'' o' n' (es ++ es') where
  queue := h'.queue
  others := fun k' hk => (h.others k' hk).trans (h'.others k' hk)
  running := h'.running
  quitting := h'.quitting.trans h.quitting
  log := by rw [h'.log, h.log, List.append_assoc]

/-- A dispatch takes the first task. -/
theorem moves_dispatch {t : TaskAtom} {ts : List TaskAtom} (hq : w.taskQueues.find? k = some q)
    (ht : q.tasks = t :: ts) : ∃ w', step w (.dispatch k) = .ok w' ∧
      Moves k w w' (some { q with cancelled := false, idleId := 0, currentTask := some t, tasks := ts })
        (guintSucc w.runningTasks) [.processCb k t q.userData] := by
  have hqd : (detach w (.processTask k)).taskQueues.find? k = some q := hq
  simp only [step, dispatchProcessTask, prvProcessTask, hqd, ht]
  refine ⟨_, rfl, World.find?_setQueue_self hqd _, fun k' hk => ?_, rfl, rfl, rfl⟩
  have hd : Unchanged k' w (detach w (.processTask k)) := by
    refine ⟨rfl, ?_, rfl⟩
    rw [pendingOf_detach, if_neg fun h => hk (IdleSource.processTask.inj h).symm]
  have hs := unchanged_setQueue (detach w (.processTask k))
    { q with cancelled := false, idleId := 0, currentTask := some t, tasks := ts } hk
  refine (hd.trans hs).trans ⟨rfl, rfl, ?_⟩
  exact (World.logOf_emit_owned _ (ownedBy_singleton rfl) k').trans
    (by rw [if_neg hk, List.append_nil]; rfl)

/-- A task that is added while another one runs waits. -/
theorem moves_addTask {c : TaskAtom} (t : TaskAtom) (hq : w.taskQueues.find? k = some q)
    (hc : q.currentTask = some c) : ∃ w', step w (.addTask k t) = .ok w' ∧
      Moves k w w' (some { q with tasks := q.tasks ++ [t] }) w.runningTasks [.addTask k t] := by
  have hw : step w (.addTask k t) = .ok ((w.emit [.addTask k t]).setQueue k
      { q with tasks := q.tasks ++ [t] }) := by
    simp [step, dleynaTaskQueueAddTask, hq, hc]
  refine ⟨_, hw, World.find?_setQueue_self hq _, fun k' hk => ?_, rfl, rfl, rfl⟩
  exact (unchanged_emit w (ownedBy_singleton rfl) hk).trans (unchanged_setQueue _ _ hk)

/-- A queue is drained, and its running task goes on. -/
theorem moves_cancelQueue {t : TaskAtom} (hS : SourcesOk w) (hq : w.taskQueues.find? k = some q)
    (hcan : q.cancelled = false) (hc : q.currentTask = some t) (hs : sync t = false) :
    ∃ w', step w (.cancelQueue k sync) = .ok w' ∧ Moves k w w' (some q.drain) w.runningTasks
      (cancelAndFreeCalls k q ++ [.cancelCb k t q.userData]) := by
  have hw : step w (.cancelQueue k sync) =
      .ok ((cancelWaiting w k q).emit [.cancelCb k t q.userData]) := by
    simp [step, dleynaTaskProcessorCancelQueue, prvCancel, prvCancelOnly, hq, hcan, hc, hs]
  refine ⟨_, hw, find?_cancelWaiting_self hq, fun k' hk => ?_, cancelWaiting_runningTasks w k q,
    cancelWaiting_quitting w k q, ?_⟩
  · exact (unchanged_cancelWaiting hS hq hk).trans (unchanged_emit _ (ownedBy_singleton rfl) hk)
  · rw [World.emit_log, ← List.append_assoc]
    unfold cancelWaiting
    split <;> rfl

/-- The last task of a queue completes. -/
theorem moves_taskCompleted {t : TaskAtom} (hq : w.taskQueues.find? k = some q)
    (hqt : w.quitting = false) (hd : q.deferRemove = false) (hc : q.currentTask = some t)
    (ht : q.tasks = []) : ∃ w', step w (.taskCompleted k t) = .ok w' ∧
      w'.pendingOf k = w.pendingOf k ∧
      Moves k w w' (if q.autoRemove = true then none else some { q with currentTask := none })
        (guintPred w.runningTasks) ([.completed k t, .deleteCb k t q.userData] ++
          if q.autoRemove = true then freeCalls k q else []) := by
  set w0 := w.emit [.completed k t] with hw0
  set w1 := deleteCurrentTask w0 k q with hw1
  have hq0 : w0.taskQueues.find? k = some q := hq
  have hq1 : w1.taskQueues.find? k = some { q with currentTask := none } := by
    rw [hw1, find?_deleteCurrentTask hq0, if_pos rfl]
  have hu : ∀ k', k' ≠ k → Unchanged k' w w1 := fun k' hk =>
    (unchanged_emit w (ownedBy_singleton rfl) hk).trans (unchanged_deleteCurrentTask hq0 hk)
  have hp : w1.pendingOf k = w.pendingOf k := by
    refine pendingOf_congr ?_ k
    rw [hw1, deleteCurrentTask, hc]
    rfl
  have hl : w1.log = w.log ++ [.completed k t, .deleteCb k t q.userData] := by
    rw [hw1, deleteCurrentTask, hc]
    simp [hw0, World.emit, World.setQueue]
  have hr : w1.runningTasks = guintPred w.runningTasks := deleteCurrentTask_runningTasks w0 k q
  have hqt1 : w1.quitting = false := (deleteCurrentTask_quitting w0 k q).trans hqt
  have hstep : step w (.taskCompleted k t) =
      .ok (if q.autoRemove = true then gHashTableRemove w1 k else w1) := by
    simp [step, dleynaTaskQueueTaskCompleted, ← hw0, hq0, ← hw1, hqt1, hd, ht]
  refine ⟨_, hstep, ?_⟩
  cases q.autoRemove with
  | true =>
    rw [if_pos rfl, if_pos rfl, if_pos rfl]
    obtain ⟨hs', hr', hqt', hl'⟩ := gHashTableRemove_rest hq1
    refine ⟨(pendingOf_congr hs' k).trans hp, by simp [find?_gHashTableRemove],
      fun k' hk => (hu k' hk).trans (unchanged_gHashTableRemove w1 hk), hr'.trans hr,
      hqt'.trans (hqt1.trans hqt.symm), ?_⟩
    rw [hl', hl, List.append_assoc]
    rfl
  | false =>
    rw [if_neg Bool.false_ne_true, if_neg Bool.false_ne_true, if_neg Bool.false_ne_true,
      List.append_nil]
    exact ⟨hp, hq1, hu, hr, hqt1.trans hqt.symm, hl⟩

end DleynaCore
