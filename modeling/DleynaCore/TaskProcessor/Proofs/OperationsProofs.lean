import DleynaCore.TaskProcessor.QueueView

/-!
# What the operations do to a queue

Each operation is described by what it does to the record of every queue and to the events about
it, so that no later proof unfolds an operation to find that out.
-/

namespace DleynaCore

/-! ## Events about one queue -/

/-- All of the events are about the queue `k`. -/
def OwnedBy (k : TaskQueueKey) (es : List Event) : Prop := ∀ e ∈ es, e.key = some k

theorem ownedBy_singleton {k : TaskQueueKey} {e : Event} (h : e.key = some k) : OwnedBy k [e] :=
  fun _ he => List.mem_singleton.mp he ▸ h

theorem ownedBy_cancelAndFreeCalls (k : TaskQueueKey) (q : TaskQueue) :
    OwnedBy k (cancelAndFreeCalls k q) := by
  intro e he
  obtain ⟨t, -, he⟩ := List.mem_flatMap.mp he
  simp only [List.mem_cons, List.not_mem_nil, or_false] at he
  rcases he with rfl | rfl <;> rfl

theorem ownedBy_freeCalls (k : TaskQueueKey) (q : TaskQueue) : OwnedBy k (freeCalls k q) := by
  intro e he
  rcases List.mem_append.mp he with he | he
  · obtain ⟨t, -, rfl⟩ := List.mem_map.mp he
    rfl
  · split at he
    · rw [List.mem_singleton.mp he]; rfl
    · exact absurd he (List.not_mem_nil)

theorem filter_owned {k : TaskQueueKey} {es : List Event} (h : OwnedBy k es) (k' : TaskQueueKey) :
    es.filter (fun e => e.key = some k') = if k' = k then es else [] := by
  split
  · next hk => exact List.filter_eq_self.mpr fun e he => by simp [h e he, hk]
  · next hk =>
    exact List.filter_eq_nil_iff.mpr fun e he => by simp [h e he, Ne.symm hk]

/-! ## The primitives

`find?` and `logOf` after each primitive. -/

namespace World

@[simp] theorem emit_taskQueues (w : World) (es : List Event) :
    (w.emit es).taskQueues = w.taskQueues := rfl

@[simp] theorem emit_sources (w : World) (es : List Event) : (w.emit es).sources = w.sources := rfl

@[simp] theorem emit_attached (w : World) (es : List Event) :
    (w.emit es).attached = w.attached := rfl

@[simp] theorem emit_runningTasks (w : World) (es : List Event) :
    (w.emit es).runningTasks = w.runningTasks := rfl

@[simp] theorem emit_quitting (w : World) (es : List Event) :
    (w.emit es).quitting = w.quitting := rfl

@[simp] theorem emit_version (w : World) (es : List Event) : (w.emit es).version = w.version := rfl

@[simp] theorem emit_log (w : World) (es : List Event) : (w.emit es).log = w.log ++ es := rfl

@[simp] theorem logOf_emit (w : World) (es : List Event) (k : TaskQueueKey) :
    (w.emit es).logOf k = w.logOf k ++ es.filter fun e => e.key = some k := by
  simp [logOf, emit]

theorem logOf_emit_owned (w : World) {es : List Event} {k : TaskQueueKey} (h : OwnedBy k es)
    (k' : TaskQueueKey) : (w.emit es).logOf k' = w.logOf k' ++ if k' = k then es else [] := by
  rw [logOf_emit, filter_owned h]

@[simp] theorem setQueue_sources (w : World) (k : TaskQueueKey) (q : TaskQueue) :
    (w.setQueue k q).sources = w.sources := rfl

@[simp] theorem setQueue_attached (w : World) (k : TaskQueueKey) (q : TaskQueue) :
    (w.setQueue k q).attached = w.attached := rfl

@[simp] theorem setQueue_runningTasks (w : World) (k : TaskQueueKey) (q : TaskQueue) :
    (w.setQueue k q).runningTasks = w.runningTasks := rfl

@[simp] theorem setQueue_quitting (w : World) (k : TaskQueueKey) (q : TaskQueue) :
    (w.setQueue k q).quitting = w.quitting := rfl

@[simp] theorem setQueue_version (w : World) (k : TaskQueueKey) (q : TaskQueue) :
    (w.setQueue k q).version = w.version := rfl

@[simp] theorem setQueue_log (w : World) (k : TaskQueueKey) (q : TaskQueue) :
    (w.setQueue k q).log = w.log := rfl

@[simp] theorem logOf_setQueue (w : World) (k : TaskQueueKey) (q : TaskQueue) (k' : TaskQueueKey) :
    (w.setQueue k q).logOf k' = w.logOf k' := rfl

theorem find?_setQueue (w : World) (k : TaskQueueKey) (q : TaskQueue) (k' : TaskQueueKey) :
    (w.setQueue k q).taskQueues.find? k' =
      if k' = k then (w.taskQueues.find? k).map fun _ => q else w.taskQueues.find? k' :=
  HashTable.find?_modify _ _ _ _

theorem find?_setQueue_self {w : World} {k : TaskQueueKey} {q : TaskQueue}
    (h : w.taskQueues.find? k = some q) (q' : TaskQueue) :
    (w.setQueue k q').taskQueues.find? k = some q' := by
  simp [find?_setQueue, h]

end World

@[simp] theorem logOf_idleAddProcessTask (w : World) (k k' : TaskQueueKey) :
    (idleAddProcessTask w k).logOf k' = w.logOf k' := rfl

theorem find?_idleAddProcessTask (w : World) (k k' : TaskQueueKey) :
    (idleAddProcessTask w k).taskQueues.find? k' =
      if k' = k then (w.taskQueues.find? k).map fun q => { q with idleId := w.attached + 1 }
      else w.taskQueues.find? k' :=
  HashTable.find?_modify _ _ _ _

@[simp] theorem idleAddOnQuitCb_taskQueues (w : World) :
    (idleAddOnQuitCb w).taskQueues = w.taskQueues := rfl

@[simp] theorem logOf_idleAddOnQuitCb (w : World) (k : TaskQueueKey) :
    (idleAddOnQuitCb w).logOf k = w.logOf k := by
  simp [idleAddOnQuitCb, gIdleAdd, World.logOf, Event.key]

theorem find?_gHashTableRemove (w : World) (k k' : TaskQueueKey) :
    (gHashTableRemove w k).taskQueues.find? k' =
      if k' = k then none else w.taskQueues.find? k' := by
  unfold gHashTableRemove
  cases h : w.taskQueues.find? k with
  | none =>
    by_cases hk : k' = k
    · simp [hk, h]
    · simp [hk]
  | some q => exact HashTable.find?_erase _ _ _

theorem logOf_gHashTableRemove {w : World} {k : TaskQueueKey} {q : TaskQueue}
    (h : w.taskQueues.find? k = some q) (k' : TaskQueueKey) :
    (gHashTableRemove w k).logOf k' = w.logOf k' ++ if k' = k then freeCalls k q else [] := by
  unfold gHashTableRemove
  rw [h]
  exact World.logOf_emit_owned _ (ownedBy_freeCalls k q) k'

/-- What removing a registered queue leaves of the processor, but for its table. -/
theorem gHashTableRemove_rest {w : World} {k : TaskQueueKey} {q : TaskQueue}
    (h : w.taskQueues.find? k = some q) :
    (gHashTableRemove w k).sources = w.sources ∧
      (gHashTableRemove w k).runningTasks = w.runningTasks ∧
      (gHashTableRemove w k).quitting = w.quitting ∧
      (gHashTableRemove w k).log = w.log ++ freeCalls k q := by
  simp [gHashTableRemove, h, prvFreeCb]

/-- The fold of `g_hash_table_remove_all` only adds to the history. -/
theorem foldl_prvFreeCb (l : List (TaskQueueKey × TaskQueue)) (w : World) :
    l.foldl (fun w e => prvFreeCb w e.1 e.2) w = w.emit (l.flatMap fun e => freeCalls e.1 e.2) := by
  induction l generalizing w with
  | nil => simp [World.emit]
  | cons e l ih =>
    rw [List.foldl_cons, ih]
    simp [prvFreeCb, World.emit]

theorem gHashTableRemoveAll_eq (w : World) :
    gHashTableRemoveAll w =
      { w with
        taskQueues := .empty
        version := if w.taskQueues.size = 0 then w.version else w.version + 1
        log := w.log ++ w.taskQueues.entries.flatMap fun e => freeCalls e.1 e.2 } := by
  rw [gHashTableRemoveAll, foldl_prvFreeCb]
  rfl

@[simp] theorem gHashTableRemoveAll_taskQueues (w : World) :
    (gHashTableRemoveAll w).taskQueues = .empty := by
  rw [gHashTableRemoveAll_eq]

/-- The calls made when the queue of `k`, if there is one, is freed. -/
def dropCalls (T : TaskQueues) (k : TaskQueueKey) : List Event :=
  match T.find? k with
  | some q => freeCalls k q
  | none => []

theorem dropCalls_some {T : TaskQueues} {k : TaskQueueKey} {q : TaskQueue}
    (h : T.find? k = some q) : dropCalls T k = freeCalls k q := by
  simp [dropCalls, h]

theorem dropCalls_none {T : TaskQueues} {k : TaskQueueKey} (h : T.find? k = none) :
    dropCalls T k = [] := by
  simp [dropCalls, h]

/-- Among the calls for all entries, those about one key are the calls for its entry. -/
theorem filter_freeCalls (T : TaskQueues) (k : TaskQueueKey) :
    (T.entries.flatMap fun e => freeCalls e.1 e.2).filter (fun e => e.key = some k) =
      dropCalls T k := by
  have key : ∀ l : List (TaskQueueKey × TaskQueue), k ∉ l.map Prod.fst →
      (l.flatMap fun e => freeCalls e.1 e.2).filter (fun e => e.key = some k) = [] := by
    intro l hl
    refine List.filter_eq_nil_iff.mpr fun e he => ?_
    obtain ⟨x, hx, he⟩ := List.mem_flatMap.mp he
    rw [ownedBy_freeCalls _ _ e he]
    simpa using fun hk : x.1 = k => hl (hk ▸ List.mem_map_of_mem hx)
  cases h : T.find? k with
  | none => rw [dropCalls_none h]; exact key _ (HashTable.find?_eq_none.mp h)
  | some q =>
    obtain ⟨pre, post, he, h1, h2⟩ := HashTable.entries_split h
    rw [dropCalls_some h, he, List.flatMap_append, List.flatMap_cons, List.filter_append,
      List.filter_append, key pre h1, key post h2, filter_owned (ownedBy_freeCalls k q)]
    simp

theorem logOf_gHashTableRemoveAll (w : World) (k : TaskQueueKey) :
    (gHashTableRemoveAll w).logOf k = w.logOf k ++ dropCalls w.taskQueues k := by
  rw [gHashTableRemoveAll_eq, ← filter_freeCalls]
  simp [World.logOf]

@[simp] theorem deleteCurrentTask_quitting (w : World) (k : TaskQueueKey) (q : TaskQueue) :
    (deleteCurrentTask w k q).quitting = w.quitting := by
  unfold deleteCurrentTask
  split <;> rfl

@[simp] theorem deleteCurrentTask_runningTasks (w : World) (k : TaskQueueKey) (q : TaskQueue) :
    (deleteCurrentTask w k q).runningTasks = guintPred w.runningTasks := by
  unfold deleteCurrentTask
  split <;> rfl

theorem find?_deleteCurrentTask {w : World} {k : TaskQueueKey} {q : TaskQueue}
    (h : w.taskQueues.find? k = some q) (k' : TaskQueueKey) :
    (deleteCurrentTask w k q).taskQueues.find? k' =
      if k' = k then some { q with currentTask := none } else w.taskQueues.find? k' := by
  unfold deleteCurrentTask
  cases hc : q.currentTask with
  | some t => simpa [h] using World.find?_setQueue (w.emit _) k { q with currentTask := none } k'
  | none =>
    have hq : q = { q with currentTask := none } := by rw [← hc]
    by_cases hk : k' = k
    · simp [hk, h, ← hq]
    · simp [hk]

theorem logOf_deleteCurrentTask (w : World) (k : TaskQueueKey) (q : TaskQueue)
    (k' : TaskQueueKey) :
    (deleteCurrentTask w k q).logOf k' =
      w.logOf k' ++ if k' = k then q.deleteCurrent k else [] := by
  unfold deleteCurrentTask TaskQueue.deleteCurrent
  cases hc : q.currentTask with
  | some t =>
    exact w.logOf_emit_owned (ownedBy_singleton (e := .deleteCb k t q.userData) rfl) k'
  | none => simp [World.logOf]

theorem find?_cancelWaiting (w : World) (k : TaskQueueKey) (q : TaskQueue) (k' : TaskQueueKey) :
    (cancelWaiting w k q).taskQueues.find? k' =
      if k' = k then (w.taskQueues.find? k).map fun _ => q.drain else w.taskQueues.find? k' := by
  unfold cancelWaiting
  split <;> exact HashTable.find?_modify _ _ _ _

theorem logOf_cancelWaiting (w : World) (k : TaskQueueKey) (q : TaskQueue) (k' : TaskQueueKey) :
    (cancelWaiting w k q).logOf k' =
      w.logOf k' ++ if k' = k then cancelAndFreeCalls k q else [] := by
  rw [← World.logOf_emit_owned w (ownedBy_cancelAndFreeCalls k q)]
  unfold cancelWaiting
  split <;> rfl

@[simp] theorem cancelWaiting_quitting (w : World) (k : TaskQueueKey) (q : TaskQueue) :
    (cancelWaiting w k q).quitting = w.quitting := by
  unfold cancelWaiting
  split <;> rfl

@[simp] theorem cancelWaiting_runningTasks (w : World) (k : TaskQueueKey) (q : TaskQueue) :
    (cancelWaiting w k q).runningTasks = w.runningTasks := by
  unfold cancelWaiting
  split <;> rfl

@[simp] theorem cancelWaiting_version (w : World) (k : TaskQueueKey) (q : TaskQueue) :
    (cancelWaiting w k q).version = w.version := by
  unfold cancelWaiting
  split <;> rfl

theorem find?_cancelWaiting_self {w : World} {k : TaskQueueKey} {q : TaskQueue}
    (h : w.taskQueues.find? k = some q) :
    (cancelWaiting w k q).taskQueues.find? k = some q.drain := by
  simp [find?_cancelWaiting, h]

/-- What `prv_cancel_only` can do to a registered queue. -/
theorem prvCancelOnly_cases {sync : TaskAtom → Bool} {w w' : World} {k : TaskQueueKey} {b : Bool}
    (h : prvCancelOnly sync w k = .ok (b, w')) : ∃ q, w.taskQueues.find? k = some q ∧
      ((q.cancelled = true ∧ b = false ∧ w' = w) ∨
        (q.cancelled = false ∧ q.currentTask = none ∧ b = q.autoRemove ∧
          w' = cancelWaiting w k q) ∨
        (∃ t, q.cancelled = false ∧ q.currentTask = some t ∧ sync t = false ∧ b = false ∧
          w' = (cancelWaiting w k q).emit [.cancelCb k t q.userData]) ∨
        ∃ t, q.cancelled = false ∧ q.currentTask = some t ∧ sync t = true ∧ b = false ∧
          dleynaTaskQueueTaskCompleted
            ((cancelWaiting w k q).emit [.cancelCb k t q.userData, .completed k t]) k =
              .ok w') := by
  unfold prvCancelOnly at h
  cases hq : w.taskQueues.find? k with
  | none => simp [hq] at h
  | some q =>
    refine ⟨q, rfl, ?_⟩
    simp only [hq] at h
    cases hc : q.cancelled with
    | true =>
      obtain ⟨rfl, rfl⟩ : b = false ∧ w' = w := by simpa [hc, eq_comm] using h
      exact Or.inl ⟨rfl, rfl, rfl⟩
    | false =>
      simp only [hc, Bool.false_eq_true, if_false] at h
      cases ht : q.currentTask with
      | none =>
        simp only [ht, Except.ok.injEq, Prod.mk.injEq] at h
        exact Or.inr (Or.inl ⟨rfl, rfl, h.1.symm, h.2.symm⟩)
      | some t =>
        simp only [ht] at h
        cases hs : sync t with
        | false =>
          simp only [hs, Bool.false_eq_true, if_false, Except.ok.injEq, Prod.mk.injEq] at h
          exact Or.inr (Or.inr (Or.inl ⟨t, rfl, rfl, hs, h.1.symm, h.2.symm⟩))
        | true =>
          simp only [hs, if_true] at h
          split at h
          · simp at h
          · next w3 h3 =>
            simp only [Except.ok.injEq, Prod.mk.injEq] at h
            obtain ⟨rfl, rfl⟩ := h
            refine Or.inr (Or.inr (Or.inr ⟨t, rfl, rfl, hs, rfl, ?_⟩))
            simpa [World.emit] using h3

/-! ## The shape of a record -/

@[simp] theorem shape_tasks (q : TaskQueue) : q.shape.tasks = q.tasks := rfl

@[simp] theorem shape_currentTask (q : TaskQueue) : q.shape.currentTask = q.currentTask := rfl

@[simp] theorem shape_deferRemove (q : TaskQueue) : q.shape.deferRemove = q.deferRemove := rfl

@[simp] theorem shape_cancelled (q : TaskQueue) : q.shape.cancelled = q.cancelled := rfl

@[simp] theorem shape_taskQueueFinallyCb (q : TaskQueue) :
    q.shape.taskQueueFinallyCb = q.taskQueueFinallyCb := rfl

@[simp] theorem shape_userData (q : TaskQueue) : q.shape.userData = q.userData := rfl

@[simp] theorem shape_autoStart (q : TaskQueue) : q.shape.autoStart = q.autoStart := rfl

@[simp] theorem shape_autoRemove (q : TaskQueue) : q.shape.autoRemove = q.autoRemove := rfl

@[simp] theorem cancelCompleteCalls_shape (k : TaskQueueKey) (q : TaskQueue) (t : TaskAtom) :
    q.shape.cancelCompleteCalls k t = q.cancelCompleteCalls k t := rfl

@[simp] theorem freeCalls_shape (k : TaskQueueKey) (q : TaskQueue) :
    freeCalls k q.shape = freeCalls k q := rfl

@[simp] theorem cancelAndFreeCalls_shape (k : TaskQueueKey) (q : TaskQueue) :
    cancelAndFreeCalls k q.shape = cancelAndFreeCalls k q := rfl

@[simp] theorem deleteCurrent_shape (k : TaskQueueKey) (q : TaskQueue) :
    q.shape.deleteCurrent k = q.deleteCurrent k := rfl

@[simp] theorem drain_shape (q : TaskQueue) : q.shape.drain = q.drain := rfl

@[simp] theorem shape_drain (q : TaskQueue) : q.drain.shape = q.drain := rfl

@[simp] theorem shape_idleId_eq_zero (q : TaskQueue) : q.shape.idleId = 0 ↔ q.idleId = 0 := by
  unfold TaskQueue.shape
  split <;> simp [*]

@[simp] theorem shape_idleId_beq (q : TaskQueue) : (q.shape.idleId == 0) = (q.idleId == 0) := by
  rw [Bool.eq_iff_iff, beq_iff_eq, beq_iff_eq, shape_idleId_eq_zero]

end DleynaCore
