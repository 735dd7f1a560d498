import DleynaCore.TaskProcessor.Proofs.QueuesProofs

/-!
# The history only grows

No operation rewrites the history of the run, and what a step appends to it is what the requests of
the step append to the histories of the queues.
-/

namespace DleynaCore

variable {w w' w'' : World} {k : TaskQueueKey} {q : TaskQueue}

/-- The history of `w` is the beginning of the history of `w'`. -/
def Extends (w w' : World) : Prop := w.log <+: w'.log

theorem Extends.refl (w : World) : Extends w w := List.prefix_refl _

theorem Extends.trans (h : Extends w w') (h' : Extends w' w'') : Extends w w'' :=
  List.IsPrefix.trans h h'

theorem extends_emit (w : World) (es : List Event) : Extends w (w.emit es) := List.prefix_append _ _

theorem extends_of_eq (h : w'.log = w.log) : Extends w w' := by
  unfold Extends
  rw [h]

theorem extends_gHashTableRemove (w : World) (k : TaskQueueKey) :
    Extends w (gHashTableRemove w k) := by
  unfold gHashTableRemove
  split
  · exact List.prefix_append _ _
  · exact .refl w

theorem extends_gHashTableRemoveAll (w : World) : Extends w (gHashTableRemoveAll w) := by
  rw [gHashTableRemoveAll_eq]
  exact List.prefix_append _ _

theorem extends_idleAddOnQuitCb (w : World) : Extends w (idleAddOnQuitCb w) :=
  List.prefix_append _ _

theorem extends_idleAddProcessTask (w : World) (k : TaskQueueKey) :
    Extends w (idleAddProcessTask w k) := List.prefix_refl _

theorem extends_deleteCurrentTask (w : World) (k : TaskQueueKey) (q : TaskQueue) :
    Extends w (deleteCurrentTask w k q) := by
  unfold Extends deleteCurrentTask
  cases q.currentTask with
  | some t =>
    simp only
    exact List.prefix_append _ _
  | none =>
    simp only
    exact List.prefix_refl _

theorem extends_taskCompleted (h : dleynaTaskQueueTaskCompleted w k = .ok w') : Extends w w' := by
  unfold dleynaTaskQueueTaskCompleted at h
  split at h
  · simp at h
  · next q hq =>
    refine (extends_deleteCurrentTask w k q).trans ?_
    obtain rfl := Except.ok.inj h
    split
    · exact (extends_idleAddOnQuitCb _).trans (extends_gHashTableRemoveAll _)
    · split
      · exact extends_gHashTableRemove _ _
      · split
        · exact extends_idleAddProcessTask _ _
        · split
          · exact extends_gHashTableRemove _ _
          · exact .refl _

theorem extends_cancelWaiting (w : World) (k : TaskQueueKey) (q : TaskQueue) :
    Extends w (cancelWaiting w k q) := by
  unfold cancelWaiting
  split <;> exact List.prefix_append _ _

theorem extends_prvCancelOnly {sync : TaskAtom → Bool} {b : Bool}
    (h : prvCancelOnly sync w k = .ok (b, w')) : Extends w w' := by
  obtain ⟨q, -, hcases⟩ := prvCancelOnly_cases h
  rcases hcases with ⟨-, -, rfl⟩ | ⟨-, -, -, rfl⟩ | ⟨t, -, -, -, -, rfl⟩ | ⟨t, -, -, -, -, hw⟩
  · exact .refl _
  · exact extends_cancelWaiting w k q
  · exact (extends_cancelWaiting w k q).trans (extends_emit _ _)
  · exact ((extends_cancelWaiting w k q).trans (extends_emit _ _)).trans (extends_taskCompleted hw)

theorem extends_prvCancel {sync : TaskAtom → Bool} (h : prvCancel sync w k = .ok w') :
    Extends w w' := by
  unfold prvCancel at h
  split at h
  · simp at h
  · next w1 h1 =>
    obtain rfl := Except.ok.inj h
    exact (extends_prvCancelOnly h1).trans (extends_gHashTableRemove _ _)
  · next w1 h1 =>
    obtain rfl := Except.ok.inj h
    exact extends_prvCancelOnly h1

theorem extends_prvFreeQueueFor {hit : TaskQueueKey → Bool} {sync : TaskAtom → Bool} {b : Bool}
    (h : prvFreeQueueFor hit sync w k = .ok (b, w')) : Extends w w' := by
  unfold prvFreeQueueFor at h
  split at h
  · simp at h
  · split at h
    · simp only at h
      split at h
      · simp at h
      · next w2 h2 =>
        split at h
        · simp at h
        · have hw := (Prod.mk.inj (Except.ok.inj h)).2
          subst hw
          have h0 := extends_prvCancel h2
          exact h0
    · obtain ⟨-, rfl⟩ := Prod.mk.inj (Except.ok.inj h)
      exact .refl _

/-- A traversal extends the history if its callback does. -/
theorem extends_foreachRemove {f : World → TaskQueueKey → Except Fault (Bool × World)}
    (hf : ∀ w k b w', f w k = .ok (b, w') → Extends w w') {ks : List TaskQueueKey}
    (h : gHashTableForeachRemove f ks w = .ok w') : Extends w w' := by
  induction ks generalizing w with
  | nil =>
    obtain rfl := Except.ok.inj h
    exact .refl _
  | cons k ks ih =>
    unfold gHashTableForeachRemove at h
    split at h
    · simp at h
    · next w1 h1 =>
      refine (hf _ _ _ _ h1).trans ?_
      split at h
      · obtain rfl := Except.ok.inj h
        exact .refl _
      · exact ih h
    · next w1 h1 =>
      refine (hf _ _ _ _ h1).trans ?_
      split at h
      · simp at h
      · next q hq =>
        refine Extends.trans (show Extends w1
          (prvFreeCb { w1 with taskQueues := w1.taskQueues.erase k } k q) from
            List.prefix_append _ _) ?_
        simp only at h
        split at h
        · obtain rfl := Except.ok.inj h
          exact .refl _
        · exact ih h

/-- No step rewrites the history. -/
theorem extends_step {op : Op} (h : step w op = .ok w') : Extends w w' := by
  cases op with
  | addQueue key flags =>
    obtain rfl := Except.ok.inj h
    unfold dleynaTaskProcessorAddQueue
    split
    · exact List.prefix_append _ _
    · exact (extends_emit w [.addQueue key flags]).trans (List.prefix_append _ _)
  | addTask queueId task =>
    simp only [step, dleynaTaskQueueAddTask] at h
    split at h
    · simp at h
    · obtain rfl := Except.ok.inj h
      refine (extends_emit w [.addTask queueId task]).trans ?_
      split
      · exact extends_of_eq rfl
      · split <;> exact extends_of_eq rfl
  | start queueId =>
    simp only [step, dleynaTaskQueueStart] at h
    split at h
    · simp at h
    · obtain rfl := Except.ok.inj h
      split
      · exact .refl _
      · split
        · exact .refl _
        · split
          · split <;> exact extends_of_eq rfl
          · split
            · exact extends_gHashTableRemove _ _
            · exact .refl _
  | cancelQueue queueId sync => exact extends_prvCancel h
  | removeQueuesForSource source sync | removeQueuesForSink sink sync =>
    exact extends_foreachRemove (fun _ _ _ _ hf => extends_prvFreeQueueFor hf) h
  | setQuitting sync =>
    simp only [step, dleynaTaskProcessorSetQuitting] at h
    split at h
    · simp at h
    · next w3 h3 =>
      obtain rfl := Except.ok.inj h
      have h2 := extends_foreachRemove (fun _ _ _ _ hf => extends_prvCancelOnly hf) h3
      refine Extends.trans ?_ (h2.trans (extends_gHashTableRemoveAll w3))
      refine (extends_emit { w with quitting := true } [.setQuitting]).trans ?_
      split
      · exact extends_idleAddOnQuitCb _
      · exact .refl _
  | taskCompleted queueId task =>
    exact (extends_emit w [.completed queueId task]).trans (extends_taskCompleted h)
  | setFinally queueId finallyCb =>
    simp only [step, dleynaTaskQueueSetFinally] at h
    split at h
    · simp at h
    · exact extends_of_eq (Except.ok.inj h ▸ rfl)
  | setUserData queueId userData =>
    simp only [step, dleynaTaskQueueSetUserData] at h
    split at h
    · simp at h
    · exact extends_of_eq (Except.ok.inj h ▸ rfl)
  | dispatch queueId =>
    simp only [step, dispatchProcessTask, prvProcessTask] at h
    split at h
    · simp at h
    · split at h
      · simp at h
      · obtain rfl := Except.ok.inj h
        exact List.prefix_append _ _
  | dispatchQuit =>
    obtain rfl := Except.ok.inj h
    exact List.prefix_append _ _
  | rehash taskQueues =>
    obtain rfl := Except.ok.inj h
    exact .refl _

/-! ## What a step adds to the history -/

theorem effect_dispatch {op : Op} (he : effect w op k = some .dispatch) : op = .dispatch k := by
  cases asked_of_effect he
  rfl

/-- A task is processed by the dispatch of its queue, and by no other step. -/
theorem process_step {op : Op} {es : List Event} (hI : Inv w) (hg : Guard w op)
    (hs : step w op = .ok w') (hl : w'.log = w.log ++ es) {t : TaskAtom} {u : Gpointer}
    (he : Event.processCb k t u ∈ es) : op = .dispatch k := by
  obtain ⟨es', hlog, hes⟩ := serve_log ((hI.simulates hg hs).view k)
  have hmem : Event.processCb k t u ∈ es' := by
    have h1 : w'.logOf k = w.logOf k ++ es.filter fun e => e.key = some k := by
      simp [World.logOf, hl]
    have h2 : w'.logOf k = w.logOf k ++ es' := hlog
    rw [← List.append_cancel_left (h1.symm.trans h2)]
    exact List.mem_filter.mpr ⟨he, by simp [Event.key]⟩
  rcases hes with ⟨t', -, rfl⟩ | ⟨hr, -⟩ | ⟨flags, -, rfl⟩ | hq
  · simp at hmem
  · exact effect_dispatch hr
  · simp at hmem
  · exact absurd (hq _ hmem) (by simp [Event.quiet])

/-- The history of the shutdown is part of the history. -/
theorem mem_quitLog {e : Event} (he : e.key = none) : e ∈ w.quitView.log ↔ e ∈ w.log := by
  simp [World.quitView, he]

/-- The flag is only ever set, and only by `dleyna_task_processor_set_quitting`. -/
theorem quitting_step {op : Op} (hI : Inv w) (hg : Guard w op) (hs : step w op = .ok w')
    (hop : ∀ sync, op ≠ .setQuitting sync) : w'.quitting = w.quitting := by
  have hq := congrArg QuitView.quitting (hI.simulates hg hs).quit
  refine Eq.trans (b := (quitAfter w op).quitting) hq ?_
  cases op with
  | setQuitting sync => exact absurd rfl (hop sync)
  | taskCompleted queueId task | cancelQueue queueId sync =>
    rw [quitAfter]
    split <;> rfl
  | _ => rfl

/-- `dleyna_task_processor_set_quitting` sets the flag. -/
theorem quitting_quitAfter (w : World) (sync : TaskAtom → Bool) :
    (quitAfter w (.setQuitting sync)).quitting = true := by
  simp only [quitAfter, QuitView.setQuitting, QuitView.schedule]
  (repeat' split) <;> rfl

/-- Once `dleyna_task_processor_set_quitting` was called the processor is quitting. -/
theorem quitting_of_mem {P : World → Op → Prop} {ops : List Op} (h : processor.Run P ops w)
    (hm : Event.setQuitting ∈ w.log) : w.quitting = true := by
  refine h.invariant (I := fun w => .setQuitting ∈ w.log → w.quitting = true)
    (fun hm => by simp [processor, World.new] at hm) ?_ hm
  intro _ w op w' hrun hI hg _ hs hm
  have hq := ((inv_run hrun).simulates hg hs).quit
  have hm : .setQuitting ∈ w'.quitView.log := (mem_quitLog rfl).mpr hm
  show w'.quitView.quitting = true
  have hI : .setQuitting ∈ w.quitView.log → w.quitView.quitting = true := fun hm =>
    hI ((mem_quitLog rfl).mp hm)
  rw [hq] at hm ⊢
  cases op with
  | setQuitting sync => exact quitting_quitAfter w sync
  | dispatchQuit =>
    simp only [quitAfter, List.mem_append, List.mem_singleton, reduceCtorEq, or_false] at hm
    exact hI hm
  | taskCompleted queueId task | cancelQueue queueId sync =>
    simp only [quitAfter] at hm ⊢
    split at hm
    · next hl =>
      rw [if_pos hl]
      simp only [QuitView.schedule, List.mem_append, List.mem_singleton, reduceCtorEq,
        or_false] at hm
      exact hI hm
    · next hl =>
      rw [if_neg hl]
      exact hI hm
  | _ => exact hI hm

end DleynaCore
