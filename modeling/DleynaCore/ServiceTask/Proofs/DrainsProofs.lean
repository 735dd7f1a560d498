import DleynaCore.ServiceTask.Proofs.StepsProofs
import DleynaCore.TaskProcessor.Proofs.QuitTraversalProofs

/-!
# Quitting with service queues

Cancelling a service task completes it inside the traversal of `prv_cancel_all_queues`. Quitting drains
the queues exactly if these completions do not keep the traversal from a queue with a running task,
and no task in flight is hidden from it.
-/

namespace DleynaCore

variable {w w' : ServiceWorld} {P : World → Op → Prop} {k : TaskQueueKey} {t : TaskAtom}
  {s : ServiceTask} {q : TaskQueue}

theorem lifts_neverQuits : Lifts NeverQuits where
  dispatch := fun _ _ => trivial
  taskCompleted := fun _ _ _ => trivial
  cancelQueue := fun _ _ _ => trivial

theorem ServiceInv.mono {Q : World → Op → Prop} {c : Phase} (hPQ : ∀ w op, P w op → Q w op)
    (h : ServiceInv P c w) : ServiceInv Q c w :=
  ⟨h.run.imp fun _ hrun => hrun.mono hPQ, h.alive, h.key, h.pending, h.actions, h.distinct, h.settled,
    h.current⟩

/-- A task in flight is in memory, and its action is pending. -/
theorem ServiceInv.pending_of_inFlight (h : ServiceInv P .idle w)
    (hf : InFlight w.processor.log k t) :
    ∃ s, w.tasks t = some s ∧ s.queueId = k ∧ s.pAction ≠ 0 := by
  have hI := h.inv
  obtain ⟨u, hu⟩ := mem_processedTasks hf.1
  have hadd : t ∈ addedTasks k w.processor.log :=
    job_added hI hu (f := .begun t) (if_pos rfl)
  have hdel : w.processor.log.any (Event.deletes t) = false := by
    refine Bool.eq_false_of_not_eq_true fun hd => hI.not_deleted hf ?_
    obtain ⟨k', u', hu'⟩ := ServiceStep.exists_deleteCb hd
    have hj : jobEvent k' (.deleteCb k' t u') = some (.deleted t) := if_pos rfl
    obtain rfl := h.key_unique (job_added hI hu' hj) hadd
    exact List.mem_filterMap.mpr ⟨.deleted t, List.mem_filterMap.mpr ⟨_, hu', hj⟩, rfl⟩
  obtain ⟨s, hs⟩ := Option.isSome_iff_exists.mp ((h.alive t).mpr ⟨⟨k, hadd⟩, hdel⟩)
  obtain rfl := h.key_unique (h.key t s hs) hadd
  exact ⟨s, hs, rfl, (h.pending t s hs).mpr ⟨hf, by simp [Phase.task, Phase.current]⟩⟩

section Registered

variable (hreg : ∀ x ∈ inFlightTasks w.processor.log,
  ∃ e ∈ w.processor.taskQueues.entries, e.1 = x.1 ∧ e.2.cancelled = false)

include hreg

/-- A task in flight is the running task of its queue. -/
theorem running_of_inFlight (h : ServiceInv P .idle w) (hf : InFlight w.processor.log k t) :
    ∃ q, w.processor.taskQueues.find? k = some q ∧ q.currentTask = some t ∧ q.cancelled = false := by
  obtain ⟨⟨k', q⟩, he, hk, hcan⟩ := hreg (k, t) (mem_inFlightTasks.mpr hf)
  obtain rfl : k' = k := hk
  have hq := HashTable.find?_eq_some.mpr he
  exact ⟨q, hq, h.inv.current_of_inFlight hq hf, hcan⟩

/-- The running task of a queue completes inside its cancel callback. -/
theorem completesOnCancel_of_busy (h : ServiceInv P .idle w)
    (hq : w.processor.taskQueues.find? k = some q) (hb : q.busy = true) :
    q.completesOnCancel w.sync = true ∧ q.deferRemove = false := by
  obtain ⟨t, hc⟩ := Option.isSome_iff_exists.mp hb
  have hf := h.inv.inFlight hq hc
  obtain ⟨s, hs, -, ha⟩ := h.pending_of_inFlight hf
  obtain ⟨q', hq', -, hcan⟩ := running_of_inFlight hreg h hf
  obtain rfl : q = q' := Option.some.inj (hq.symm.trans hq')
  refine ⟨by simp [TaskQueue.completesOnCancel, hc, hcan, sync_of_task hs, ha], ?_⟩
  refine Bool.eq_false_of_not_eq_true fun hd => ?_
  have hmark := ((h.inv.queueOk hq).deferred hd).2
  simp [hcan] at hmark

/-- The counter is the number of queues with a running task. -/
theorem running_eq_countP {ops : List Op} (h : ServiceInv P .idle w)
    (hrun : processor.Run NeverQuits ops w.processor) :
    w.processor.runningTasks = w.processor.taskQueues.entries.countP fun e => e.2.busy := by
  have hlen := h.inv.length_inFlightTasks fun k t hf => by
    obtain ⟨q, hq, hc, -⟩ := running_of_inFlight hreg h hf
    exact ⟨q, hq, hc⟩
  have hle := HashTable.count_le_size w.processor.taskQueues TaskQueue.busy
  have hsize := size_run hrun
  rw [(counts_run hrun).2, hlen, Nat.mod_eq_of_lt (by omega)]
  rfl

theorem running_lt {ops : List Op} (h : ServiceInv P .idle w)
    (hrun : processor.Run NeverQuits ops w.processor) : w.processor.runningTasks < guintSize := by
  have hle := HashTable.count_le_size w.processor.taskQueues TaskQueue.busy
  rw [running_eq_countP hreg h hrun]
  exact lt_of_le_of_lt hle (size_run hrun)

/-- Which queues with running tasks quitting reaches. -/
theorem reached_busy_iff {ops : List Op} (h : ServiceInv P .idle w)
    (hrun : processor.Run NeverQuits ops w.processor) :
    (∀ e ∈ w.processor.taskQueues.entries, e.2.busy = true → w.processor.Reached w.sync e.1) ↔
      w.processor.taskQueues.entries.Pairwise fun e e' =>
        e.2.busy = true → e.2.autoRemove = true → e'.2.busy = false :=
  reached_iff (HashTable.keys_nodup _) (running_eq_countP hreg h hrun) (running_lt hreg h hrun)
    fun _ he hb => completesOnCancel_of_busy hreg h (HashTable.find?_eq_some.mpr he) hb

end Registered

/-- A step of quitting from the main loop, with its callbacks. -/
structure Quits (w : ServiceWorld) (p : World) (es : List Event) (w' : ServiceWorld) : Prop where
  inv : ServiceInv Any .idle w
  run : ∃ ops, processor.Run NeverQuits ops w.processor
  step : ServiceStep Any .idle w (.setQuitting w.sync) p es
  replayed : Replayed { w with processor := p } es w'

theorem quits {ops : List ServiceOp} (h : service.Run (OnClient NeverQuits) ops w) :
    ∃ p es w', serviceStep w .setQuitting = .ok w' ∧ Quits w p es w' := by
  have hinv := serviceInv_run lifts_neverQuits h
  have hany : ServiceInv Any .idle w := hinv.mono fun _ _ _ => trivial
  obtain ⟨p, hp⟩ := setQuitting_ok hinv.inv w.sync
  rcases process_cases .processor hany (guard_setQuitting _ w.sync) trivial
    (by simp [Op.Agrees, Op.syncs]) (by simp) (by simp) (by simp) with
    ⟨fault, hs, -⟩ | ⟨p, es, w', hst, he, hr⟩
  · simp [hp] at hs
  · exact ⟨p, es, w', he, hany, hinv.run, hst, hr⟩

namespace Quits

variable {p : World} {es : List Event}

/-- A task in flight that was cancelled was found by the traversal. -/
theorem reached (h : Quits w p es w') (hD : Drained w w') (hf : InFlight w.processor.log k t) :
    ∃ q, w.processor.taskQueues.find? k = some q ∧ q.cancelled = false ∧
      w.processor.Reached w.sync k := by
  obtain ⟨s, hs, rfl, ha⟩ := h.inv.pending_of_inFlight hf
  rcases (h.replayed.history _ rfl).mp (hD.cancelled t s hs ha) with hold | ⟨t', s', he, hc, hs', -⟩
  · -- a task whose action was cancelled earlier is not in flight
    rcases h.inv.settled t (Or.inl ⟨_, Or.inr hold⟩) with hd | ⟨k, hk⟩
    · simp [Phase.done] at hd
    · have hadd : t ∈ addedTasks k w.processor.log :=
        job_added h.inv.inv (mem_completedTasks_iff.mp hk) (f := .finished t) (if_pos rfl)
      obtain rfl := h.inv.key_unique hadd (h.inv.key t s hs)
      exact absurd hk hf.2
  · obtain rfl := (ServiceEvent.cancelled.inj he).1
    obtain ⟨k, u, hu⟩ := ServiceStep.exists_cancelCb hc
    obtain rfl := h.step.key_of_cancelCb hu hs
    exact reached_of_cancelCb h.inv.inv h.step.step h.step.log hu

theorem drainable (h : Quits w p es w') (hD : Drained w w') : Drainable w := by
  have hreg : ∀ x ∈ inFlightTasks w.processor.log,
      ∃ e ∈ w.processor.taskQueues.entries, e.1 = x.1 ∧ e.2.cancelled = false := by
    rintro ⟨k, t⟩ hx
    obtain ⟨q, hq, hcan, -⟩ := h.reached hD (mem_inFlightTasks.mp hx)
    exact ⟨(k, q), HashTable.find?_eq_some.mp hq, rfl, hcan⟩
  obtain ⟨ops, hrun⟩ := h.run
  refine ⟨hreg, (reached_busy_iff hreg h.inv hrun).mp fun e he hb => ?_⟩
  obtain ⟨t, hc⟩ := Option.isSome_iff_exists.mp hb
  obtain ⟨-, -, -, hr⟩ := h.reached hD (h.inv.inv.inFlight (HashTable.find?_eq_some.mpr he) hc)
  exact hr

/-- The callbacks of a registered queue are told that it goes. -/
theorem dismissed (h : Quits w p es w') (hw : Drainable w)
    (hq : w.processor.taskQueues.find? k = some q) :
    ∃ es', p.logOf k = w.processor.logOf k ++ es' ∧ Dismissed k q es' ∧ ∀ e ∈ es', e ∈ es := by
  obtain ⟨ops, hrun⟩ := h.run
  obtain ⟨es', hl, hd⟩ := quit_dismissed h.inv.inv h.step.step hq fun hb =>
    ⟨(completesOnCancel_of_busy hw.registered h.inv hq hb).1,
      (reached_busy_iff hw.registered h.inv hrun).mpr hw.apart _ (HashTable.find?_eq_some.mp hq) hb⟩
  refine ⟨es', hl, hd, fun e he => ?_⟩
  have hes : es' = es.filter fun e => e.key = some k := by
    have hl' : p.logOf k = w.processor.logOf k ++ es.filter fun e => e.key = some k := by
      simp [World.logOf, h.step.log]
    exact List.append_cancel_left (hl.symm.trans hl')
  rw [hes] at he
  exact (List.mem_filter.mp he).1

/-- A pending action is cancelled. -/
theorem cancelled (h : Quits w p es w') (hw : Drainable w) (hs : w.tasks t = some s)
    (ha : s.pAction ≠ 0) : es.any (Event.cancels t) = true := by
  obtain ⟨hf, -⟩ := (h.inv.pending t s hs).mp ha
  obtain ⟨q, hq, hc, -⟩ := running_of_inFlight hw.registered h.inv hf
  obtain ⟨es', -, hd, hsub⟩ := h.dismissed hw hq
  exact ServiceStep.any_cancels (hsub _ (hd.running t hc).1)

theorem scheduled (h : Quits w p es w') (hw : Drainable w) : p.log.countP Event.isSchedule = 1 := by
  obtain ⟨ops, hrun⟩ := h.run
  have hsim := h.inv.inv.simulates (guard_setQuitting _ w.sync) h.step.step
  have hold := unscheduled_run hrun
  rw [← countP_quitView _ key_isSchedule] at hold ⊢
  rw [hsim.quit]
  simp only [quitAfter, QuitView.setQuitting]
  by_cases h0 : w.processor.runningTasks = 0
  · -- nothing runs: `on_quit_cb` is scheduled at once
    have hnone : quitCompletes w.sync w.processor.runningTasks w.processor.taskQueues.entries =
        false := by
      rw [h0]
      exact quitCompletes_zero (size_run hrun)
    rw [if_pos h0, if_neg (by simp [hnone])]
    simp [QuitView.schedule, List.countP_append, hold, Event.isSchedule]
  · -- the last completion schedules it
    have hall : quitCompletes w.sync w.processor.runningTasks w.processor.taskQueues.entries =
        true := by
      refine quitCompletes_eq_true (HashTable.keys_nodup _)
        (running_eq_countP hw.registered h.inv hrun) (Nat.pos_of_ne_zero h0)
        (running_lt hw.registered h.inv hrun) fun e he hb => ?_
      have hq := HashTable.find?_eq_some.mpr he
      exact ⟨(completesOnCancel_of_busy hw.registered h.inv hq hb).1,
        (reached_busy_iff hw.registered h.inv hrun).mpr hw.apart e he hb⟩
    rw [if_neg h0, if_pos hall]
    simp [QuitView.schedule, List.countP_append, hold, Event.isSchedule]

theorem drained (h : Quits w p es w') (hw : Drainable w) : Drained w w' := by
  obtain ⟨ops, hrun⟩ := h.run
  obtain ⟨ops', hrun'⟩ := h.step.run
  have hproc : w'.processor = p := h.replayed.processor
  have hmem : ∀ {k e}, e ∈ p.logOf k → e ∈ p.log := fun he => (List.mem_filter.mp he).1
  have hdel : ∀ e ∈ w.processor.taskQueues.entries, ∀ t ∈ e.2.currentTask.toList ++ e.2.tasks,
      .deleteCb e.1 t e.2.userData ∈ p.log := by
    intro e he t ht
    obtain ⟨es', hl, hd, -⟩ := h.dismissed hw (HashTable.find?_eq_some.mpr he)
    refine hmem (k := e.1) ?_
    rw [hl]
    refine List.mem_append_right _ ?_
    rcases List.mem_append.mp ht with ht | ht
    · exact (hd.running t (by simpa using ht)).2
    · exact hd.waiting t ht
  refine ⟨fun t s hs ha => ?_, ?_, fun e he t ht => ?_, fun e he hcb => ?_, ?_, ?_, ?_⟩
  · exact (h.replayed.history _ rfl).mpr (Or.inr ⟨t, s, rfl, h.cancelled hw hs ha, hs, ha⟩)
  · refine List.eq_nil_iff_forall_not_mem.mpr fun ⟨a, t⟩ hm => ?_
    obtain ⟨s', hs', ha, ha0, -⟩ := h.replayed.ok a t hm
    obtain ⟨-, s, hs, he⟩ := ServiceStep.left h.replayed hs'
    split at he
    · rw [← ha, he] at ha0
      exact ha0 rfl
    · next hc =>
      rw [he] at ha
      exact hc (h.cancelled hw hs (ha ▸ ha0))
  · rw [hproc]
    exact deletes_eq_one hrun' (hdel e he t ht)
  · have hq := HashTable.find?_eq_some.mpr he
    obtain ⟨es', hl, hd, -⟩ := h.dismissed hw hq
    have hold := unfinished_run hrun e.1 (by simp [World.view, hq])
    rw [hproc, ← countP_isFinally_logOf, hl, List.countP_append, hd.finished,
      if_pos (Option.isSome_iff_ne_none.mpr hcb)]
    rw [show (w.processor.logOf e.1).countP (Event.isFinally e.1) = 0 from hold]
  · rw [hproc, (h.inv.inv.simulates (guard_setQuitting _ w.sync) h.step.step).running]
    refine quitRunning_eq_zero (HashTable.keys_nodup _)
      (running_eq_countP hw.registered h.inv hrun) (running_lt hw.registered h.inv hrun)
      fun e he hb => ?_
    have hq := HashTable.find?_eq_some.mpr he
    exact ⟨(completesOnCancel_of_busy hw.registered h.inv hq hb).1,
      (reached_busy_iff hw.registered h.inv hrun).mpr hw.apart e he hb⟩
  · have hsize := size_of_queues_none fun k => queues_setQuitting h.inv.inv h.step.step k
    rw [hproc]
    exact List.length_eq_zero_iff.mp hsize
  · rw [hproc]
    exact h.scheduled hw

end Quits

/-- In every run before quitting, quitting returns, and drains the queues exactly if they are
drainable. -/
theorem drained_iff {ops : List ServiceOp} (h : service.Run (OnClient NeverQuits) ops w) :
    ∃ w', serviceStep w .setQuitting = .ok w' ∧ (Drained w w' ↔ Drainable w) := by
  obtain ⟨p, es, w', hs, hq⟩ := quits h
  exact ⟨w', hs, hq.drainable, hq.drained⟩

/-- An action is pending on a plain queue, another one on an `AUTO_REMOVE` queue behind it, and a task
waits behind each. -/
def plainFirst : List ServiceOp :=
  [.call (.addQueue ⟨1, "a", "b"⟩ flagAutoStart), .call (.setFinally ⟨1, "a", "b"⟩ (some 4)),
    .call (.addQueue ⟨2, "c", "b"⟩ (flagAutoStart ||| flagAutoRemove)),
    .call (.addServiceTask ⟨1, "a", "b"⟩ 7 3 none 0), .call (.addServiceTask ⟨2, "c", "b"⟩ 8 3 none 0),
    .call (.addServiceTask ⟨1, "a", "b"⟩ 9 3 none 0), .dispatch ⟨1, "a", "b"⟩ [] 5 false,
    .dispatch ⟨2, "c", "b"⟩ [] 6 false]

theorem drained_plainFirst :
    ∃ w', serviceStep (service.final (OnClient NeverQuits) plainFirst) .setQuitting = .ok w' ∧
      Drained (service.final (OnClient NeverQuits) plainFirst) w' := by
  have hrun : service.Run (OnClient NeverQuits) plainFirst
      (service.final (OnClient NeverQuits) plainFirst) := System.run_final (by decide)
  obtain ⟨w', hs, hiff⟩ := drained_iff hrun
  exact ⟨w', hs, hiff.mpr (by decide)⟩

/-- Actions are pending on two `AUTO_REMOVE` queues. -/
def twoAutoRemove : List ServiceOp :=
  [.call (.addQueue ⟨1, "a", "b"⟩ (flagAutoStart ||| flagAutoRemove)),
    .call (.addQueue ⟨2, "c", "b"⟩ (flagAutoStart ||| flagAutoRemove)),
    .call (.addServiceTask ⟨1, "a", "b"⟩ 7 3 none 0), .call (.addServiceTask ⟨2, "c", "b"⟩ 8 3 none 0),
    .dispatch ⟨1, "a", "b"⟩ [] 5 false, .dispatch ⟨2, "c", "b"⟩ [] 6 false]

theorem notDrained_reachable :
    service.Run (OnClient NeverQuits) twoAutoRemove
        (service.final (OnClient NeverQuits) twoAutoRemove) ∧
      ∃ w', serviceStep (service.final (OnClient NeverQuits) twoAutoRemove) .setQuitting = .ok w' ∧
        ¬ Drained (service.final (OnClient NeverQuits) twoAutoRemove) w' :=
  ⟨System.run_final (by decide), _, rfl, fun h => absurd h.running (by decide)⟩

end DleynaCore
