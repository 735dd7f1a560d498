import DleynaCore.TaskProcessor.Proofs.TaskEventsProofs

/-!
# Tasks that are cancelled while they wait

A queue that is drained hands each of its waiting tasks to the cancel and to the delete callback. No
callback was handed the task before, and none is after its deletion.
-/

namespace DleynaCore

open JobQueue

variable {w w' : World} {k : TaskQueueKey} {q : TaskQueue} {t : TaskAtom} {ops : List Op}
  {log l l' : List Event} {e : Event} {P : World → Op → Prop} {u : Gpointer}

/-! ## The callbacks of a task -/

theorem callsFor_append : callsFor t (l ++ l') = callsFor t l ++ callsFor t l' :=
  List.filter_append ..

theorem callsFor_processCb :
    callsFor t (.processCb k t u :: l) = .processCb k t u :: callsFor t l :=
  List.filter_cons_of_pos (by simp [Event.processes])

theorem callsFor_cancelCb : callsFor t (.cancelCb k t u :: l) = .cancelCb k t u :: callsFor t l :=
  List.filter_cons_of_pos (by simp [Event.cancels])

theorem callsFor_deleteCb : callsFor t (.deleteCb k t u :: l) = .deleteCb k t u :: callsFor t l :=
  List.filter_cons_of_pos (by simp [Event.deletes])

theorem task_of_callsFor (h : e ∈ callsFor t log) : e.task = some t := by
  have hp := (List.mem_filter.mp h).2
  rw [Bool.or_eq_true, Bool.or_eq_true] at hp
  rcases hp with (hp | hp) | hp
  · exact task_of_processes hp
  · exact task_of_cancels hp
  · exact task_of_deletes hp

theorem callsFor_eq_nil (h : ∀ e ∈ log, e.task ≠ some t) : callsFor t log = [] := by
  refine List.eq_nil_iff_forall_not_mem.mpr fun e he => ?_
  exact h e (List.mem_filter.mp he).1 (task_of_callsFor he)

/-- The callbacks of a task are those of its queue. -/
theorem callsFor_logOf (h : processor.Run P ops w) (ht : t ∈ addedTasks k w.log) :
    callsFor t (w.logOf k) = callsFor t w.log := by
  rw [callsFor, World.logOf, List.filter_filter]
  refine List.filter_congr fun e he => ?_
  by_cases hp : (e.processes t || e.cancels t || e.deletes t) = true
  · obtain ⟨k', f, hk', hf, hft⟩ :=
      jobEvent_of_task (task_of_callsFor (List.mem_filter.mpr ⟨he, hp⟩))
    obtain rfl := added_unique h (hft ▸ job_added (inv_run h) he hf) ht
    simp [hp, hk']
  · rw [Bool.not_eq_true] at hp
    simp [hp]

/-- A waiting task was not handed to any callback yet. -/
theorem callsFor_waiting (hI : Inv w) (hq : w.taskQueues.find? k = some q) (ht : t ∈ q.tasks) :
    callsFor t (w.logOf k) = [] := by
  have hh := (hI.queueOk hq).history
  obtain ⟨hb, hc⟩ := waiting_untouched hh ht
  have hd := hh.waiting_notMem ht
  refine List.filter_eq_nil_iff.mpr fun e he hp => ?_
  have hk : e.key = some k := by simpa using (List.mem_filter.mp he).2
  have hmem : ∀ {f}, jobEvent k e = some f → f ∈ jobEvents k (w.logOf k) := fun hf =>
    List.mem_filterMap.mpr ⟨e, he, hf⟩
  cases e with
  | processCb k' t' u =>
    obtain rfl : t' = t := by simpa [Event.processes, Event.cancels, Event.deletes] using hp
    exact hb (List.mem_filterMap.mpr ⟨_, hmem (if_pos (Option.some.inj hk)), rfl⟩)
  | cancelCb k' t' u =>
    obtain rfl : t' = t := by simpa [Event.processes, Event.cancels, Event.deletes] using hp
    exact hc (List.mem_filterMap.mpr ⟨_, hmem (if_pos (Option.some.inj hk)), rfl⟩)
  | deleteCb k' t' u =>
    obtain rfl : t' = t := by simpa [Event.processes, Event.cancels, Event.deletes] using hp
    exact hd (List.mem_filterMap.mpr ⟨_, hmem (if_pos (Option.some.inj hk)), rfl⟩)
  | _ => simp [Event.processes, Event.cancels, Event.deletes] at hp

/-- No callback is handed a task after its deletion. -/
theorem callsFor_after (h : processor.Run P ops w)
    (hl : w.logOf k = l ++ .deleteCb k t u :: l') : callsFor t l' = [] := by
  have hsub : List.Sublist (w.logOf k) w.log := List.filter_sublist
  have hlast := (deletedLast_run h).sublist hsub
  rw [hl, List.pairwise_append, List.pairwise_cons] at hlast
  exact callsFor_eq_nil fun e he => hlast.2.1.1 e he t (by simp [Event.deletes])

/-! ## Draining -/

theorem cancelAndFreeCalls_split {ts ts' : List TaskAtom} (h : q.tasks = ts ++ t :: ts') :
    cancelAndFreeCalls k q = cancelAndFreeCalls k { q with tasks := ts } ++
      .cancelCb k t q.userData :: .deleteCb k t q.userData ::
        cancelAndFreeCalls k { q with tasks := ts' } := by
  simp [cancelAndFreeCalls, h]

theorem callsFor_cancelAndFreeCalls (ht : t ∉ q.tasks) :
    callsFor t (cancelAndFreeCalls k q) = [] := by
  refine callsFor_eq_nil fun e he het => ?_
  obtain ⟨t', ht', he⟩ := List.mem_flatMap.mp he
  have htt : t' = t := by
    simp only [List.mem_cons, List.not_mem_nil, or_false] at he
    rcases he with rfl | rfl <;> simpa [Event.task] using het
  exact ht (htt ▸ ht')

/-- A waiting task that was drained was cancelled once. -/
theorem cancelledOnce_of_drained (hI : Inv w) (hq : w.taskQueues.find? k = some q)
    (ht : t ∈ q.tasks) (h : processor.Run P ops w')
    (hl : w'.logOf k = w.logOf k ++ (cancelAndFreeCalls k q ++ l)) : CancelledOnce w'.log k t := by
  obtain ⟨ts, ts', hts⟩ := List.append_of_mem ht
  have hnd : q.tasks.Nodup := by
    have := (hI.queueOk hq).history.nodup
    rw [List.nodup_append] at this
    exact this.2.1
  have hnot : t ∉ ts := by
    rw [hts, List.nodup_append] at hnd
    exact fun hm => hnd.2.2 t hm t List.mem_cons_self rfl
  -- the calls for the tasks in front of it, its own, and the rest
  have hsplit : w'.logOf k =
      (w.logOf k ++ cancelAndFreeCalls k { q with tasks := ts } ++ [.cancelCb k t q.userData]) ++
        .deleteCb k t q.userData :: (cancelAndFreeCalls k { q with tasks := ts' } ++ l) := by
    rw [hl, cancelAndFreeCalls_split hts]
    simp
  have hadd : t ∈ addedTasks k w'.log := by
    have hm : Event.deleteCb k t q.userData ∈ w'.logOf k := by simp [hsplit]
    exact job_added (inv_run h) (List.mem_filter.mp hm).1 (f := .deleted t) (if_pos rfl)
  have hbefore : callsFor t (cancelAndFreeCalls k { q with tasks := ts }) = [] :=
    callsFor_cancelAndFreeCalls hnot
  refine ⟨q.userData, ?_⟩
  rw [← callsFor_logOf h hadd, hsplit, callsFor_append, callsFor_append, callsFor_append,
    callsFor_waiting hI hq ht, hbefore, callsFor_cancelCb, callsFor_deleteCb,
    callsFor_after h hsplit]
  rfl

end DleynaCore
