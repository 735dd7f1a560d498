import DleynaCore.TaskProcessor.Proofs.CancelledOnceProofs
import DleynaCore.TaskProcessor.Proofs.UnchangedProofs

/-!
# What cancelling a queue achieves

A queue that is not marked is drained, its running task is sent its cancel callback, and everything
else stays. A marked queue is left as it is; so its waiting tasks, which have been added since it was
marked, are not cancelled.
-/

namespace DleynaCore

variable {w w' : World} {k : TaskQueueKey} {q q' : TaskQueue} {t : TaskAtom} {ops : List Op}
  {log es : List Event} {r : Request} {v v' : QueueView} {P : World → Op → Prop}
  {sync : TaskAtom → Bool}

/-! ## Marked queues -/

theorem CancelSent.append (h : CancelSent log k t) (es : List Event) :
    CancelSent (log ++ es) k t := by
  obtain ⟨l1, u, l2, u', rfl, hm⟩ := h
  exact ⟨l1, u, l2 ++ es, u', by simp, List.mem_append_left _ hm⟩

theorem CancelSent.of_logOf (h : CancelSent (w.logOf k) k t) : CancelSent w.log k t := by
  obtain ⟨l1, u, l2, u', hl, hm⟩ := h
  obtain ⟨m1, m2, hlog, rfl, hm2⟩ := List.filter_eq_append_iff.mp hl
  obtain ⟨m3, m4, rfl, -, -, rfl⟩ := List.filter_eq_cons_iff.mp hm2
  exact ⟨m1 ++ m3, u, m4, u', by simp [hlog], (List.mem_filter.mp hm).1⟩

/-- A running task was handed to its process callback. -/
theorem QueueOk.cancelSent (h : QueueOk k q log) (hc : q.currentTask = some t) {u : Gpointer}
    (he : .cancelCb k t u ∈ es) : CancelSent (log ++ es) k t := by
  obtain ⟨f, hf, hft⟩ := List.mem_filterMap.mp (h.inFlight hc).1
  obtain ⟨e, hel, hef⟩ := List.mem_filterMap.mp hf
  cases e with
  | processCb k' t' u' =>
    simp only [jobEvent, Option.ite_none_right_eq_some, Option.some.injEq] at hef
    obtain ⟨rfl, rfl⟩ := hef
    obtain rfl : t' = t := by simpa using hft
    obtain ⟨l1, l2, rfl⟩ := List.append_of_mem hel
    exact ⟨l1, u', l2 ++ es, u, by simp, List.mem_append_right _ he⟩
  | addTask k' t' | completed k' t' | cancelCb k' t' u' | deleteCb k' t' u' =>
    simp only [jobEvent, Option.ite_none_right_eq_some, Option.some.injEq] at hef
    obtain ⟨-, rfl⟩ := hef
    simp at hft
  | _ => simp [jobEvent] at hef

/-- The running task of a marked queue was sent its cancel callback, and a marked `AUTO_REMOVE` queue
without one has tasks waiting. -/
structure Noticed (k : TaskQueueKey) (q : TaskQueue) (log : List Event) : Prop where
  sent : ∀ t, q.currentTask = some t → CancelSent log k t
  waits : q.autoRemove = true → q.currentTask = none → q.tasks ≠ []

theorem Kept.noticed (h : Kept k q r q' es) (hok : QueueOk k q log)
    (hn : q.cancelled = true → Noticed k q log) (hc : q'.cancelled = true) :
    Noticed k q' (log ++ es) := by
  have hmono : q.cancelled = true → ∀ t, q.currentTask = some t → CancelSent (log ++ es) k t :=
    fun hc t ht => ((hn hc).sent t ht).append es
  cases h with
  | start | startWaiting _ _ _ | removeDeferred _ | removeMarked _ _ | setFinally | setUserData =>
    exact ⟨hmono hc, (hn hc).waits⟩
  | addTask _ | addTaskStart _ _ _ => exact ⟨hmono hc, fun _ _ => by simp⟩
  | cancelMarked hcan => exact ⟨hmono hcan, (hn hcan).waits⟩
  | cancelIdle hcur ha =>
    refine ⟨fun t ht => absurd (hcur.symm.trans ht) (by simp), fun ha' => ?_⟩
    exact absurd (ha.symm.trans ha') (by simp)
  | cancelRunning hcur _ | removeRunning hcur _ =>
    refine ⟨fun t ht => ?_, fun _ hnone => absurd (hcur.symm.trans hnone) (by simp)⟩
    obtain rfl := Option.some.inj (hcur.symm.trans ht)
    exact hok.cancelSent hcur (List.mem_append_right _ (List.mem_singleton_self _))
  | cancelCompleted _ _ _ _ ha =>
    exact ⟨fun t ht => by simp at ht, fun ha' => absurd (ha.symm.trans ha') (by simp)⟩
  | complete _ _ ha =>
    exact ⟨fun t ht => by simp at ht, fun ha' => absurd (ha.symm.trans ha') (by simp)⟩
  | completeNext _ ht => exact ⟨fun t ht => by simp at ht, fun _ _ => ht⟩
  | dispatch _ => simp at hc

def QueueView.Noticed (k : TaskQueueKey) (v : QueueView) : Prop :=
  ∀ q, v.queue = some q → q.cancelled = true → DleynaCore.Noticed k q v.log

theorem serve?_noticed {r : Option Request} (h : v.Noticed k) (hok : v.Ok k)
    (hs : v.serve? k r = .ok v') : v'.Noticed k := by
  cases served_of_serve? hs with
  | idle | absent _ _ => exact h
  | added _ =>
    intro q hq hc
    obtain rfl := Option.some.inj hq
    simp [TaskQueue.new] at hc
  | gone _ _ => exact fun q hq => absurd hq (by simp [QueueView.put])
  | kept hq hk =>
    intro q1 hq1 hc
    obtain rfl := Option.some.inj hq1
    exact hk.noticed (hok.of_some hq).2 (h _ hq) hc

theorem noticed_run (h : processor.Run P ops w) (k : TaskQueueKey) : (w.view k).Noticed k := by
  refine h.invariant (I := fun w => (w.view k).Noticed k) ?_ ?_
  · intro q hq
    simp [World.view, processor, World.new] at hq
  · intro _ w op w' hrun hN hg _ hs
    have hI := inv_run hrun
    exact serve?_noticed hN (hI.queues k) ((hI.simulates hg hs).view k)

/-! ## Cancelling a queue -/

/-- What a queue that is not marked is left as when it is cancelled. -/
structure DrainedTo (k : TaskQueueKey) (q : TaskQueue) (v v' : QueueView) (es : List Event) :
    Prop where
  log : v'.log = v.log ++ (cancelAndFreeCalls k q ++ es)
  pending : v'.pending = 0
  sent : ∀ t, q.currentTask = some t → ∃ u, .cancelCb k t u ∈ es
  removed : q.autoRemove = true → q.currentTask = none → v'.queue = none

theorem serve_drained (hq : v.queue = some q) (hcan : q.cancelled = false)
    (hr : r = .cancel sync ∨ r = .quitCancel sync) (hs : v.serve k r = .ok v') :
    ∃ es, DrainedTo k q v v' es := by
  have hstops : q.stops r = true := by
    rcases hr with rfl | rfl <;> simp [TaskQueue.stops, hcan]
  cases served_of_serve hs with
  | absent hn _ | added hn => simp [hq] at hn
  | @gone q0 _ _ hq0 hg =>
    obtain rfl : q = q0 := Option.some.inj (hq.symm.trans hq0)
    have hp : ∀ es, (v.put (q.stops r) none es).pending = 0 := fun es => by
      simp [QueueView.put, hstops]
    cases hg with
    | start _ _ _ | removeMarked _ _ _ | drop | complete _ | lastComplete =>
      rcases hr with hr | hr <;> cases hr
    | drained hc _ =>
      exact ⟨_, rfl, hp _, fun t ht => absurd (hc.symm.trans ht) (by simp), fun _ _ => rfl⟩
    | @completed _ _ t hc _ _ =>
      refine ⟨q.cancelCompleteCalls k t ++ freeCalls k q.drain, ?_, hp _, fun t' ht' => ?_,
        fun _ _ => rfl⟩
      · rw [QueueView.put, List.append_assoc]
      · obtain rfl := Option.some.inj (hc.symm.trans ht')
        exact ⟨q.userData, List.mem_append_left _ (by simp [TaskQueue.cancelCompleteCalls])⟩
    | @left _ t hc _ =>
      refine ⟨[.cancelCb k t q.userData] ++ freeCalls k q.drain, ?_, hp _, fun t' ht' => ?_,
        fun _ _ => rfl⟩
      · rw [QueueView.put, List.append_assoc]
      · obtain rfl := Option.some.inj (hc.symm.trans ht')
        exact ⟨q.userData, List.mem_append_left _ (List.mem_singleton_self _)⟩
  | @kept q0 q' _ _ hq0 hk =>
    obtain rfl : q = q0 := Option.some.inj (hq.symm.trans hq0)
    cases hk with
    | cancelMarked hm => simp [hcan] at hm
    | cancelIdle hc ha =>
      refine ⟨[], by simp [QueueView.put], rfl, fun t ht => absurd (hc.symm.trans ht) (by simp),
        fun ha' => absurd (ha.symm.trans ha') (by simp)⟩
    | @cancelRunning _ t hc _ =>
      refine ⟨_, rfl, rfl, fun t' ht' => ?_, fun _ hn => absurd (hc.symm.trans hn) (by simp)⟩
      obtain rfl := Option.some.inj (hc.symm.trans ht')
      exact ⟨q.userData, List.mem_singleton_self _⟩
    | @cancelCompleted _ t _ hc _ _ ha =>
      refine ⟨_, rfl, rfl, fun t' ht' => ?_, fun ha' => absurd (ha.symm.trans ha') (by simp)⟩
      obtain rfl := Option.some.inj (hc.symm.trans ht')
      exact ⟨q.userData, by simp [TaskQueue.cancelCompleteCalls]⟩
    | _ => rcases hr with hr | hr <;> cases hr

theorem cancelQueue_marked (hq : w.taskQueues.find? k = some q) (hc : q.cancelled = true) :
    step w (.cancelQueue k sync) = .ok w := by
  simp [step, dleynaTaskProcessorCancelQueue, prvCancel, prvCancelOnly, hq, hc]

theorem pendingOf_eq_nil (h : (w.view k).pending = 0) : w.pendingOf k = [] :=
  List.length_eq_zero_iff.mp h

/-- A path only adds to the history. -/
theorem extends_path (h : processor.Path P w w') (hr : processor.Run P ops w) : Extends w w' :=
  h.invariant hr (.refl w) fun _ _ _ _ _ hI _ _ hs => hI.trans (extends_step hs)

theorem Extends.logOf (h : Extends w w') (k : TaskQueueKey) :
    ∃ es, w'.logOf k = w.logOf k ++ es := by
  obtain ⟨es, hes⟩ := h
  refine ⟨es.filter fun e => e.key = some k, ?_⟩
  rw [World.logOf, ← hes, List.filter_append]
  rfl

/-- A queue that is not marked is cancelled. -/
theorem cancelEffective_unmarked (h : processor.Run Any ops w) (hq : w.taskQueues.find? k = some q)
    (hc : q.cancelled = false) (hs : step w (.cancelQueue k sync) = .ok w') :
    CancelEffective sync w k q w' := by
  have hI := inv_run h
  have hg : Guard w (.cancelQueue k sync) := trivial
  have hrun' := h.snoc (a := Op.cancelQueue k sync) hg trivial hs
  have hv := (hI.simulates hg hs).view k
  have hr : ∃ r, effect w (.cancelQueue k sync) k = some r ∧
      (r = .cancel sync ∨ r = .quitCancel sync) := by
    simp only [effect, if_true]
    split
    · exact ⟨_, rfl, Or.inr rfl⟩
    · exact ⟨_, rfl, Or.inl rfl⟩
  obtain ⟨r, he, hr⟩ := hr
  rw [he] at hv
  have hvq : (w.view k).queue = some q.shape := by simp [World.view, hq]
  obtain ⟨es, hd⟩ := serve_drained hvq hc hr hv
  have hlog : w'.logOf k = w.logOf k ++ (cancelAndFreeCalls k q ++ es) := hd.log
  refine ⟨fun t ht w'' hp => ?_, pendingOf_eq_nil hd.pending, fun t ht => ?_, fun ha hcur => ?_,
    fun hco => ?_⟩
  · obtain ⟨ops'', hrun''⟩ := hp.run hrun'
    obtain ⟨es', hes'⟩ := (extends_path hp hrun').logOf k
    refine cancelledOnce_of_drained hI hq ht hrun'' (l := es ++ es') ?_
    rw [hes', hlog]
    simp
  · obtain ⟨u, hu⟩ := hd.sent t ht
    have hsent := (hI.queueOk hq).cancelSent ht (List.mem_append_right (cancelAndFreeCalls k q) hu)
    rw [← hlog] at hsent
    exact hsent.of_logOf
  · have hn := hd.removed ha hcur
    simpa [World.view] using hn
  · have hS := hI.simulates hg hs
    refine ⟨fun k' hk => unchanged_prvCancel hI.sources hq hco hs hk, ?_, ?_⟩
    · have hrun := hS.running
      rw [runningAfter, completesOnCancel_of_find? sync hq, hco] at hrun
      exact hrun
    · exact quitting_step hI hg hs (by simp)

/-- Nothing is left to do in a marked queue without waiting tasks. -/
theorem cancelEffective_empty (h : processor.Run Any ops w) (hq : w.taskQueues.find? k = some q)
    (hc : q.cancelled = true) (ht : q.tasks = []) : CancelEffective sync w k q w := by
  have hI := inv_run h
  have hn := noticed_run h k q.shape (by simp [World.view, hq]) hc
  refine ⟨by simp [ht], ?_, fun t hcur => (hn.sent t hcur).of_logOf, fun ha hcur => ?_,
    fun _ => ⟨fun k' _ => .refl k' w, rfl, rfl⟩⟩
  · rw [hI.sources.linked k q hq, if_pos]
    by_contra h0
    exact ((hI.queueOk hq).idle (by simpa using h0)).2 ht
  · exact absurd ht (hn.waits ha hcur)

/-- A waiting task of a marked queue goes on waiting. -/
theorem not_cancelEffective (hI : Inv w) (h : processor.Run Any ops w)
    (hq : w.taskQueues.find? k = some q) (ht : t ∈ q.tasks) : ¬ CancelEffective sync w k q w := by
  intro hE
  obtain ⟨u, hu⟩ := hE.waiting t ht w .refl
  have hm : Event.cancelCb k t u ∈ callsFor t w.log := by simp [hu]
  have hadd : t ∈ addedTasks k w.log :=
    job_added hI (List.mem_filter.mp hm).1 (f := .cancelled t) (if_pos rfl)
  rw [← callsFor_logOf h hadd, callsFor_waiting hI hq ht] at hu
  simp at hu

/-- Cancelling a queue is effective unless the queue is marked and has tasks waiting. -/
theorem cancelEffective_iff (h : processor.Run Any ops w) (hq : w.taskQueues.find? k = some q)
    (sync : TaskAtom → Bool) : ∃ w', step w (.cancelQueue k sync) = .ok w' ∧
      (CancelEffective sync w k q w' ↔ q.cancelled = false ∨ q.tasks = []) := by
  cases hc : q.cancelled with
  | false =>
    obtain ⟨w', hs⟩ := cancelQueue_registered hq sync
    exact ⟨w', hs, iff_of_true (cancelEffective_unmarked h hq hc hs) (Or.inl rfl)⟩
  | true =>
    refine ⟨w, cancelQueue_marked hq hc, fun hE => Or.inr ?_, fun ht => ?_⟩
    · refine List.eq_nil_iff_forall_not_mem.mpr fun t ht => ?_
      exact not_cancelEffective (inv_run h) h hq ht hE
    · exact cancelEffective_empty h hq hc (ht.resolve_left (by simp))

/-- A queue with a running and a waiting task. -/
theorem cancelEffective_running :
    ∃ w', step (processor.final Any [.addQueue ⟨1, "a", "b"⟩ flagAutoStart,
        .addTask ⟨1, "a", "b"⟩ 7, .dispatch ⟨1, "a", "b"⟩, .addTask ⟨1, "a", "b"⟩ 8])
        (.cancelQueue ⟨1, "a", "b"⟩ fun _ => true) = .ok w' ∧
      (CancelEffective (fun _ => true) (processor.final Any [.addQueue ⟨1, "a", "b"⟩ flagAutoStart,
          .addTask ⟨1, "a", "b"⟩ 7, .dispatch ⟨1, "a", "b"⟩, .addTask ⟨1, "a", "b"⟩ 8])
        ⟨1, "a", "b"⟩ { TaskQueue.new flagAutoStart with tasks := [8], currentTask := some 7 } w' ↔
          false = false ∨ [8] = []) :=
  cancelEffective_iff (System.run_final (by decide)) (by decide) _

/-- Cancel a queue, add a task, and cancel the queue again. -/
def cancelTwice : List Op :=
  [.addQueue ⟨1, "a", "b"⟩ flagAutoStart, .cancelQueue ⟨1, "a", "b"⟩ fun _ => true,
    .addTask ⟨1, "a", "b"⟩ 7]

/-- The second cancel does nothing: the task is still waiting, and its dispatch is pending. -/
theorem cancelIneffective_reachable :
    processor.Run Any cancelTwice (processor.final Any cancelTwice) ∧
      ∃ queue, (processor.final Any cancelTwice).taskQueues.find? ⟨1, "a", "b"⟩ = some queue ∧
        step (processor.final Any cancelTwice) (.cancelQueue ⟨1, "a", "b"⟩ fun _ => true) =
          .ok (processor.final Any cancelTwice) ∧
        ¬ CancelEffective (fun _ => true) (processor.final Any cancelTwice) ⟨1, "a", "b"⟩ queue
          (processor.final Any cancelTwice) := by
  refine ⟨System.run_final (by decide),
    { TaskQueue.new flagAutoStart with tasks := [7], cancelled := true, idleId := 1 }, by decide,
    by rfl, fun hE => ?_⟩
  have hp : (processor.final Any cancelTwice).pendingOf ⟨1, "a", "b"⟩ = [1] := by decide
  simp [hE.pending] at hp

end DleynaCore
