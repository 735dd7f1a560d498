import DleynaCore.TaskProcessor.Proofs.QuitCallbackProofs
import DleynaCore.TaskProcessor.Proofs.RunningProofs

/-!
# What quitting reaches

`dleyna_task_processor_set_quitting` returns, and the queues that its traversal reaches are known: a
completion inside the traversal that removes a queue keeps it from the queues behind.
-/

namespace DleynaCore

open JobQueue

variable {w w' : World} {k : TaskQueueKey} {q q' : TaskQueue} {t : TaskAtom} {ops : List Op}
  {sync : TaskAtom → Bool} {es : List (TaskQueueKey × TaskQueue)} {n : Nat}

/-- Quitting does not fault. -/
theorem setQuitting_ok (hI : Inv w) (sync : TaskAtom → Bool) :
    ∃ w', step w (.setQuitting sync) = .ok w' := by
  simp only [step, dleynaTaskProcessorSetQuitting, prvCancelAllQueues]
  set w1 : World := { w with quitting := true }.emit [.setQuitting] with hw1
  set w2 : World := if w1.runningTasks = 0 then idleAddOnQuitCb w1 else w1 with hw2
  obtain ⟨hS2, hv2, -, -, hT2, hqt2⟩ := quitting_begun hI.sources hw1 hw2
  obtain ⟨w3, h3⟩ := cancelAll_ok sync w.taskQueues.entries (HashTable.keys_nodup _) hS2
    hqt2 fun e he => by
      rw [hv2]
      simp [World.view, HashTable.find?_eq_some.mpr he]
  have h3' : gHashTableForeachRemove (prvCancelCb sync) w2.taskQueues.keys w2 = .ok w3 := by
    rw [hT2]
    exact h3
  exact ⟨gHashTableRemoveAll w3, by rw [h3']⟩

/-! ## The queues with running tasks -/

/-- When every running task completes inside its cancel callback, the traversal reaches all queues
with running tasks exactly if none of them is behind an `AUTO_REMOVE` one. -/
theorem reached_iff (hnd : (es.map Prod.fst).Nodup) (hn : n = es.countP fun e => e.2.busy)
    (hlt : n < guintSize)
    (hco : ∀ e ∈ es, e.2.busy = true →
      e.2.completesOnCancel sync = true ∧ e.2.deferRemove = false) :
    (∀ e ∈ es, e.2.busy = true → e.1 ∈ reachedKeys sync n es) ↔
      es.Pairwise fun e e' => e.2.busy = true → e.2.autoRemove = true → e'.2.busy = false := by
  induction es generalizing n with
  | nil => simp
  | cons e es ih =>
    obtain ⟨k, q⟩ := e
    obtain ⟨hk, hnd⟩ := List.nodup_cons.mp hnd
    have hne : ∀ e ∈ es, e.1 ≠ k := fun e he hc => hk (List.mem_map.mpr ⟨e, he, hc⟩)
    have hco' := fun e he => hco e (List.mem_cons_of_mem _ he)
    rw [List.countP_cons] at hn
    rw [List.pairwise_cons, reachedKeys]
    -- whether the queues behind are reached when the traversal goes on
    have hgo : ∀ m, m = es.countP (fun e => e.2.busy) → m < guintSize →
        ((∀ e ∈ (k, q) :: es, e.2.busy = true → e.1 ∈ k :: reachedKeys sync m es) ↔
          es.Pairwise fun e e' => e.2.busy = true → e.2.autoRemove = true → e'.2.busy = false) := by
      intro m hm hml
      rw [← ih hnd hm hml hco']
      refine ⟨fun h e he hb => ?_, fun h e he hb => ?_⟩
      · exact (List.mem_cons.mp (h e (List.mem_cons_of_mem _ he) hb)).resolve_left (hne e he)
      · rcases List.mem_cons.mp he with rfl | he
        · exact List.mem_cons_self
        · exact List.mem_cons_of_mem _ (h e he hb)
    by_cases hb : q.busy = true
    · obtain ⟨hc, hd⟩ := hco (k, q) List.mem_cons_self hb
      have hd : q.deferRemove = false := hd
      have hpred : guintPred n = es.countP fun e => e.2.busy := by
        rw [if_pos hb] at hn
        rw [guintPred_eq (by omega) hlt.le]
        omega
      rw [if_pos hc]
      by_cases hab : q.abandons n = true
      · rw [if_pos hab]
        have hlast : q.autoRemove = false → ∀ e ∈ es, e.2.busy = false := by
          intro ha
          have h0 : guintPred n = 0 := by simpa [TaskQueue.abandons, hd, ha] using hab
          rw [hpred, List.countP_eq_zero] at h0
          simpa using h0
        constructor
        · intro h
          have hnone : ∀ e ∈ es, e.2.busy = false := fun e he =>
            Bool.eq_false_of_not_eq_true fun hbe =>
              hne e he (List.mem_singleton.mp (h e (List.mem_cons_of_mem _ he) hbe))
          refine ⟨fun e he _ _ => hnone e he, List.pairwise_of_forall_mem_list fun e he e' he' _ _ => ?_⟩
          exact hnone e' he'
        · rintro ⟨h1, -⟩ e he hbe
          rcases List.mem_cons.mp he with rfl | he
          · exact List.mem_cons_self
          · have hnone : e.2.busy = false := by
              cases ha : q.autoRemove with
              | true => exact h1 e he hb ha
              | false => exact hlast ha e he
            simp [hnone] at hbe
      · rw [if_neg hab, hgo _ hpred (by rw [hpred]; omega)]
        have ha : q.autoRemove = false := by
          simp only [TaskQueue.abandons, Bool.or_eq_true, not_or, Bool.not_eq_true] at hab
          exact hab.2
        simp [ha]
    · have hb : q.busy = false := by simpa using hb
      have hc : q.completesOnCancel sync = false := Bool.eq_false_of_not_eq_true fun hc => by
        simp [busy_of_completesOnCancel hc] at hb
      rw [if_neg (by simp [hc]), hgo n (by simpa [hb] using hn) hlt]
      simp [hb]

/-- A traversal completes the last running task exactly if it leaves none. -/
theorem quitCompletes_eq (hpos : 0 < n) :
    quitCompletes sync n es = (quitRunning sync n es == 0) := by
  induction es generalizing n with
  | nil =>
    have hne : n ≠ 0 := by omega
    simp [quitCompletes, quitRunning, hne]
  | cons e es ih =>
    obtain ⟨k, q⟩ := e
    unfold quitCompletes quitRunning
    by_cases hco : q.completesOnCancel sync = true
    · rw [if_pos hco, if_pos hco]
      by_cases hab : q.abandons n = true
      · rw [if_pos hab, if_pos hab]
      · rw [if_neg hab, if_neg hab]
        have hne : guintPred n ≠ 0 := by
          simp only [TaskQueue.abandons, Bool.or_eq_true, not_or, beq_iff_eq] at hab
          exact hab.1.1
        exact ih (by omega)
    · rw [if_neg hco, if_neg hco]
      exact ih hpos

/-- When all running tasks are completed, the last of them is. -/
theorem quitCompletes_eq_true (hnd : (es.map Prod.fst).Nodup)
    (hn : n = es.countP fun e => e.2.busy) (hpos : 0 < n) (hlt : n < guintSize)
    (h : ∀ e ∈ es, e.2.busy = true →
      e.2.completesOnCancel sync = true ∧ e.1 ∈ reachedKeys sync n es) :
    quitCompletes sync n es = true := by
  rw [quitCompletes_eq hpos, quitRunning_eq_zero hnd hn hlt h]
  rfl

/-! ## Before quitting -/

theorem size_run {P : World → Op → Prop} (h : processor.Run P ops w) :
    w.taskQueues.size < guintSize := by
  refine h.invariant (I := fun w => w.taskQueues.size < guintSize) (by decide) ?_
  intro _ _ _ _ hrun hlt hg _ hs
  exact size_step (inv_run hrun) hlt hg hs

/-- A processor that was never quit has not scheduled `on_quit_cb`. -/
theorem unscheduled_run (h : processor.Run NeverQuits ops w) :
    w.log.countP Event.isSchedule = 0 := by
  rw [← countP_quitView w key_isSchedule]
  refine h.invariant (I := fun w => w.quitView.log.countP Event.isSchedule = 0) (by decide) ?_
  intro _ w op w' hrun h0 hg hop hs
  have hl : w.lastTask = false := by simp [World.lastTask, (counts_run hrun).1]
  rw [((inv_run hrun).simulates hg hs).quit]
  cases op with
  | setQuitting sync => exact hop.elim
  | taskCompleted queueId task | cancelQueue queueId sync => simpa [quitAfter, hl] using h0
  | dispatchQuit => simpa [quitAfter, List.countP_append, Event.isSchedule] using h0
  | _ => exact h0

/-! ## Finally callbacks -/

/-- The finally callback of a registered queue has not been called. -/
def QueueView.Unfinished (k : TaskQueueKey) (v : QueueView) : Prop :=
  v.queue ≠ none → v.log.countP (Event.isFinally k) = 0

theorem countP_isFinally_freeCalls :
    (freeCalls k q).countP (Event.isFinally k) = if q.taskQueueFinallyCb.isSome = true then 1 else 0 := by
  rw [freeCalls, List.countP_append, List.countP_map]
  have h0 : q.tasks.countP (Event.isFinally k ∘ fun task => .deleteCb k task q.userData) = 0 :=
    List.countP_eq_zero.mpr fun t _ => by simp [Event.isFinally]
  rw [h0, Nat.zero_add]
  cases q.taskQueueFinallyCb <;> simp [Event.isFinally]

theorem countP_isFinally_cancelAndFreeCalls :
    (cancelAndFreeCalls k q).countP (Event.isFinally k) = 0 := by
  refine List.countP_eq_zero.mpr fun e he => ?_
  obtain ⟨t, -, ht⟩ := List.mem_flatMap.mp he
  rcases List.mem_cons.mp ht with rfl | ht
  · simp [Event.isFinally]
  · simp [List.mem_singleton.mp ht, Event.isFinally]

theorem countP_isFinally_cancelCompleteCalls :
    (q.cancelCompleteCalls k t).countP (Event.isFinally k) = 0 := by
  simp [TaskQueue.cancelCompleteCalls, Event.isFinally]

theorem countP_isFinally_completed :
    ([Event.completed k t] ++ q.deleteCurrent k).countP (Event.isFinally k) = 0 := by
  unfold TaskQueue.deleteCurrent
  split <;> simp [Event.isFinally]

/-- A queue that stays is not finished. -/
theorem Kept.unfinished {r : Request} {es : List Event} (h : Kept k q r q' es) :
    es.countP (Event.isFinally k) = 0 := by
  cases h with
  | start | startWaiting _ _ _ | addTask _ | addTaskStart _ _ _ | cancelMarked _ | removeDeferred _
  | removeMarked _ _ | dispatch _ | setFinally | setUserData => rfl
  | cancelIdle _ _ => exact countP_isFinally_cancelAndFreeCalls
  | cancelRunning _ _ | removeRunning _ _ =>
    rw [List.countP_append, countP_isFinally_cancelAndFreeCalls]
    rfl
  | cancelCompleted _ _ _ _ _ =>
    rw [List.countP_append, countP_isFinally_cancelAndFreeCalls,
      countP_isFinally_cancelCompleteCalls]
  | complete _ _ _ | completeNext _ _ => exact countP_isFinally_completed

theorem serve?_unfinished {v v' : QueueView} {r : Option Request} (h : v.Unfinished k)
    (hf : ∀ r', r = some r' → r'.Fits k v) (hs : v.serve? k r = .ok v') : v'.Unfinished k := by
  cases served_of_serve? hs with
  | idle | absent _ _ => exact h
  | added _ =>
    have hlog : v.log = [] := hf _ rfl
    intro _
    simp [QueueView.put, hlog, Event.isFinally]
  | gone _ _ => exact fun hne => absurd rfl hne
  | kept hq hk =>
    intro _
    rw [QueueView.put, List.countP_append, h (by simp [hq]), hk.unfinished]

theorem unfinished_run {P : World → Op → Prop} (h : processor.Run P ops w) (k : TaskQueueKey) :
    (w.view k).Unfinished k := by
  refine h.invariant (I := fun w => (w.view k).Unfinished k) (fun hne => absurd rfl hne) ?_
  intro _ w op w' hrun hU hg _ hs
  exact serve?_unfinished hU (fun r he => fits_of_guard hg he)
    (((inv_run hrun).simulates hg hs).view k)

theorem countP_isFinally_logOf :
    (w.logOf k).countP (Event.isFinally k) = w.log.countP (Event.isFinally k) := by
  rw [World.logOf, List.countP_filter]
  refine List.countP_congr fun e _ => ?_
  cases e <;> simp [Event.isFinally, Event.key]

/-! ## Deletions -/

theorem Inv.deleted_nodup (hI : Inv w) (k : TaskQueueKey) : (deletedTasks k w.log).Nodup := by
  rcases hI.history k with ⟨ws, r, hh⟩ | ⟨ws, r, hh⟩
  · exact (List.nodup_append.mp (List.nodup_append.mp hh.nodup).1).1
  · have hnd : (deletedJobs (jobEvents k w.log) ++ r.toList).Nodup :=
      hh.conserve.nodup_iff.mpr hh.added_nodup
    exact (List.nodup_append.mp hnd).1

theorem countP_deletes {P : World → Op → Prop} (h : processor.Run P ops w)
    (ht : t ∈ addedTasks k w.log) :
    w.log.countP (Event.deletes t) = (deletedTasks k w.log).count t := by
  refine countP_eq_count_of_added h ht (fun e he => task_of_deletes he) fun e f hf => ?_
  cases hf <;> simp [Event.deletes]

/-- A task whose deletion is in the history was deleted once. -/
theorem deletes_eq_one {P : World → Op → Prop} (h : processor.Run P ops w) {u : Gpointer}
    (he : .deleteCb k t u ∈ w.log) : w.log.countP (Event.deletes t) = 1 := by
  have hI := inv_run h
  have hj : jobEvent k (.deleteCb k t u) = some (.deleted t) := if_pos rfl
  have hadd : t ∈ addedTasks k w.log := job_added hI he hj
  rw [countP_deletes h hadd]
  refine List.count_eq_one_of_mem (hI.deleted_nodup k) ?_
  exact List.mem_filterMap.mpr ⟨.deleted t, List.mem_filterMap.mpr ⟨_, he, hj⟩, rfl⟩

/-! ## What quitting calls -/

theorem deleteCb_mem_freeCalls (ht : t ∈ q.tasks) : Event.deleteCb k t q.userData ∈ freeCalls k q :=
  List.mem_append_left _ (List.mem_map.mpr ⟨t, ht, rfl⟩)

theorem deleteCb_mem_cancelAndFreeCalls (ht : t ∈ q.tasks) :
    Event.deleteCb k t q.userData ∈ cancelAndFreeCalls k q :=
  List.mem_flatMap.mpr ⟨t, ht, by simp⟩

/-- What the callbacks of a queue are told when it goes for good. -/
structure Dismissed (k : TaskQueueKey) (q : TaskQueue) (es : List Event) : Prop where
  waiting : ∀ t ∈ q.tasks, .deleteCb k t q.userData ∈ es
  running : ∀ t, q.currentTask = some t →
    .cancelCb k t q.userData ∈ es ∧ .deleteCb k t q.userData ∈ es
  finished : es.countP (Event.isFinally k) = if q.taskQueueFinallyCb.isSome = true then 1 else 0

theorem dismissed_drop (hc : q.currentTask = none) : Dismissed k q (freeCalls k q) where
  waiting := fun _ => deleteCb_mem_freeCalls
  running := by simp [hc]
  finished := countP_isFinally_freeCalls

theorem dismissed_quitCancel {o : Option TaskQueue} {es : List Event}
    (hs : q.serve k (.quitCancel sync) = .ok (o, es))
    (hsync : ∀ t, q.currentTask = some t → sync t = true) : Dismissed k q es := by
  have hfin : (freeCalls k q.drain).countP (Event.isFinally k) =
      if q.taskQueueFinallyCb.isSome = true then 1 else 0 :=
    countP_isFinally_freeCalls (q := q.drain)
  rw [← (Prod.mk.inj (Except.ok.inj hs)).2]
  cases hc : q.currentTask with
  | none =>
    refine ⟨fun t ht => List.mem_append_left _ (deleteCb_mem_cancelAndFreeCalls ht), by simp [hc], ?_⟩
    rw [List.countP_append, countP_isFinally_cancelAndFreeCalls, hfin, Nat.zero_add]
  | some t =>
    simp only [if_pos (hsync t hc)]
    refine ⟨fun t ht => ?_, fun t' ht => ?_, ?_⟩
    · exact List.mem_append_left _ (List.mem_append_left _ (deleteCb_mem_cancelAndFreeCalls ht))
    · obtain rfl : t = t' := Option.some.inj (hc.symm.trans ht)
      constructor <;>
        exact List.mem_append_left _ (List.mem_append_right _ (by simp [TaskQueue.cancelCompleteCalls]))
    · rw [List.countP_append, List.countP_append, countP_isFinally_cancelAndFreeCalls,
        countP_isFinally_cancelCompleteCalls, hfin, Nat.zero_add]

/-- Quitting dismisses every queue, if it reaches those with running tasks and their cancel callbacks
complete these. -/
theorem quit_dismissed (hI : Inv w) (hs : step w (.setQuitting sync) = .ok w')
    (hq : w.taskQueues.find? k = some q)
    (hb : q.busy = true → q.completesOnCancel sync = true ∧ w.Reached sync k) :
    ∃ es, w'.logOf k = w.logOf k ++ es ∧ Dismissed k q es := by
  have hv := (hI.simulates (guard_setQuitting w sync) hs).view k
  have hvq : (w.view k).queue = some q.shape := by simp [World.view, hq]
  simp only [effect, QueueView.serve?, isCancelled_of_find? hq] at hv
  split at hv
  · next hreach =>
    simp only [QueueView.serve, hvq] at hv
    split at hv
    · simp at hv
    · next o es hsv =>
      refine ⟨es, (congrArg QueueView.log (Except.ok.inj hv)).symm, ?_⟩
      have hd : Dismissed k q.shape es := dismissed_quitCancel hsv fun t ht => by
        have hc : q.currentTask = some t := ht
        have hco := (hb (by simp [TaskQueue.busy, hc])).1
        simpa [TaskQueue.completesOnCancel, hc, hreach.2] using hco
      exact ⟨hd.waiting, hd.running, hd.finished⟩
  · next hreach =>
    have hc : q.currentTask = none := by
      cases hc : q.currentTask with
      | none => rfl
      | some t =>
        obtain ⟨hco, hr⟩ := hb (by simp [TaskQueue.busy, hc])
        simp only [TaskQueue.completesOnCancel, Bool.and_eq_true, Bool.not_eq_true'] at hco
        exact absurd ⟨hr, hco.1⟩ hreach
    simp only [QueueView.serve, hvq, TaskQueue.serve, Except.ok.injEq] at hv
    exact ⟨freeCalls k q, (congrArg QueueView.log hv).symm, dismissed_drop hc⟩

/-- A cancel callback that quitting makes is for a queue that the traversal reaches. -/
theorem reached_of_cancelCb {es : List Event} {u : Gpointer} (hI : Inv w)
    (hs : step w (.setQuitting sync) = .ok w') (hl : w'.log = w.log ++ es)
    (he : .cancelCb k t u ∈ es) :
    ∃ q, w.taskQueues.find? k = some q ∧ q.cancelled = false ∧ w.Reached sync k := by
  rcases step_events hI (guard_setQuitting w sync) hs hl k with ⟨-, h⟩ | ⟨q, r, o, hq, her, hsv⟩
  · simpa using h _ he rfl
  · have hr := serve_cancels hsv (List.mem_filter.mpr ⟨he, by simp [Event.key]⟩)
    cases asked_of_effect her with
    | reached _ hreach hcan => exact ⟨q, hq, isCancelled_of_find? hq ▸ hcan, hreach⟩
    | passed _ _ => simp [Request.cancels] at hr

end DleynaCore
