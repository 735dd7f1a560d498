import DleynaCore.TaskProcessor.Properties
import DleynaCore.TaskProcessor.Proofs.QueuesProofs

/-!
# The representation of queues and the order of service

Both are read off the queue invariant, which holds in every run.
-/

namespace DleynaCore

open JobQueue

variable {w : World} {k : TaskQueueKey} {q : TaskQueue} {ops : List Op}

/-- The representation invariant holds of every registered queue in every run. -/
theorem represented_run (h : processor.Run Any ops w) (hq : w.taskQueues.find? k = some q) :
    Represented w k q := by
  have hI := inv_run h
  have hok := hI.queueOk hq
  have hp := hI.sources.linked k q hq
  have h0 : q.shape.idleId ≠ 0 ↔ q.idleId ≠ 0 := not_congr (shape_idleId_eq_zero q)
  refine ⟨hp, fun hi => hok.idle (h0.mpr hi), fun hd => (hok.deferred hd).1, fun ha ht => ?_,
    fun ha ht => hok.lingers ha ?_⟩
  · refine (hok.started ha ht).imp_right fun hi => ?_
    rw [hp, if_neg (h0.mp hi)]
    simp
  · simpa [processedTasks] using ht

/-- Two queues, one of them busy with a second task waiting and the other one scheduled. -/
theorem represented_busy :
    Represented
      (processor.final Any
        [.addQueue ⟨1, "a", "b"⟩ 1, .addTask ⟨1, "a", "b"⟩ 7, .addQueue ⟨2, "a", "c"⟩ 3,
          .dispatch ⟨1, "a", "b"⟩, .addTask ⟨1, "a", "b"⟩ 8, .addTask ⟨2, "a", "c"⟩ 9])
      ⟨2, "a", "c"⟩ { TaskQueue.new 3 with tasks := [9], idleId := 2 } :=
  represented_run (System.run_final (by decide)) (by decide)

/-! ## First in, first out -/

/-- What the history of a queue is, in the table or not. -/
theorem Inv.history (h : Inv w) (k : TaskQueueKey) :
    (∃ ws r, History (jobEvents k w.log) ws r) ∨ ∃ ws r, Discarded (jobEvents k w.log) ws r := by
  have hok := h.queues k
  cases hq : w.taskQueues.find? k with
  | some q =>
    have hh := (h.queueOk hq).history
    rw [jobEvents_logOf] at hh
    exact Or.inl ⟨_, _, hh⟩
  | none =>
    rw [QueueView.Ok] at hok
    simp only [World.view, hq, Option.map_none, jobEvents_logOf] at hok
    exact Or.inr hok

/-- At every moment the tasks processed are those completed, followed by the one in flight. -/
theorem Inv.one_running (h : Inv w) {l : List Event} (hl : l <+: w.log) :
    ∃ r : Option TaskAtom, processedTasks k l = completedTasks k l ++ r.toList := by
  have hpre : jobEvents k l <+: jobEvents k w.log := hl.filterMap _
  rcases h.history k with ⟨ws, r, hh⟩ | ⟨ws, r, hh⟩
  · exact hh.one_running hpre
  · exact hh.one_running hpre

theorem Inv.one_inFlight (h : Inv w) {l : List Event} (hl : l <+: w.log) {t t' : TaskAtom}
    (ht : InFlight l k t) (ht' : InFlight l k t') : t = t' := by
  obtain ⟨r, hr⟩ := h.one_running (k := k) hl
  have hmem : ∀ {a}, InFlight l k a → r = some a := fun {a} ha => by
    have hm := ha.1
    rw [hr] at hm
    rcases List.mem_append.mp hm with hm | hm
    · exact absurd hm ha.2
    · simpa using hm
  exact Option.some.inj ((hmem ht).symm.trans (hmem ht'))

/-- Before a task is processed it is the first one waiting, and none is in flight. -/
theorem Inv.before_process (h : Inv w) {l1 l2 : List Event} {t : TaskAtom} {u : Gpointer}
    (hl : w.log = l1 ++ .processCb k t u :: l2) : ∃ ws, History (jobEvents k l1) (t :: ws) none := by
  have he : jobEvents k w.log = jobEvents k l1 ++ .begun t :: jobEvents k l2 := by
    rw [hl, jobEvents_append]
    simp [jobEvents, jobEvent]
  rcases h.history k with ⟨ws, r, hh⟩ | ⟨ws, r, hh⟩
  · exact hh.before_begin he
  · exact hh.before_begin he

theorem Inv.processed_sublist (h : Inv w) (k : TaskQueueKey) :
    (processedTasks k w.log).Sublist (addedTasks k w.log) := by
  rcases h.history k with ⟨ws, r, hh⟩ | ⟨ws, r, hh⟩
  · obtain ⟨before, h1, h2, -⟩ := hh.fifo
    show (begunJobs _).Sublist (addedJobs _)
    rw [h1]
    exact h2.trans (List.sublist_append_left _ _)
  · exact hh.begun_sublist

/-- A waiting task has neither begun nor been cancelled. -/
theorem waiting_untouched {es : List (JobEvent TaskAtom)} {ws : List TaskAtom}
    {r : Option TaskAtom} (h : History es ws r) {t : TaskAtom} (ht : t ∈ ws) :
    t ∉ begunJobs es ∧ t ∉ cancelledJobs es := by
  have hnd := h.nodup
  rw [List.append_assoc, List.nodup_append, List.nodup_append] at hnd
  have hr : r ≠ some t := by
    rintro rfl
    exact hnd.2.1.2.2 t (by simp) t ht rfl
  refine ⟨fun hb => ?_, fun hc => ?_⟩
  · obtain ⟨before, h1, h2, -⟩ := h.fifo
    have hadd := h.added_nodup
    rw [h1, List.nodup_append] at hadd
    exact hadd.2.2 t (h2.subset hb) t ht rfl
  · rcases h.cancelled_mem hc with hd | hd
    · exact h.waiting_notMem ht hd
    · exact hr hd

/-- Every queue serves its tasks in order and one at a time in every run. -/
theorem servesInOrder_run (h : processor.Run Any ops w) (k : TaskQueueKey) : ServesInOrder w k where
  one := fun _ hl _ _ ht ht' => (inv_run h).one_inFlight hl ht ht'
  first := by
    intro l1 l2 t u hl
    obtain ⟨ws, hh⟩ := (inv_run h).before_process hl
    obtain ⟨before, h1, -, h3⟩ := hh.fifo
    have hb : begunJobs (jobEvents k l1) = finishedJobs (jobEvents k l1) := by
      simpa using hh.begun_eq
    refine ⟨before, ws, h1, fun t' ht' => ?_⟩
    rcases h3 t' ht' with h3 | h3
    · rw [hb] at h3
      exact Or.inl h3
    · exact Or.inr h3
  sublist := (inv_run h).processed_sublist k
  waiting := by
    intro q hq
    have hh := ((inv_run h).queueOk hq).history
    rw [jobEvents_logOf] at hh
    obtain ⟨before, h1, -, h3⟩ := hh.fifo
    exact ⟨before, h1, h3, fun t ht => waiting_untouched hh ht⟩

/-- A queue that has served two tasks and had a third one cancelled. -/
theorem servesInOrder_cancelled :
    ServesInOrder
      (processor.final Any
        [.addQueue ⟨1, "a", "b"⟩ 1, .addTask ⟨1, "a", "b"⟩ 7, .addTask ⟨1, "a", "b"⟩ 8,
          .dispatch ⟨1, "a", "b"⟩, .addTask ⟨1, "a", "b"⟩ 9, .taskCompleted ⟨1, "a", "b"⟩ 7,
          .dispatch ⟨1, "a", "b"⟩, .cancelQueue ⟨1, "a", "b"⟩ fun _ => true])
      ⟨1, "a", "b"⟩ :=
  servesInOrder_run (System.run_final (by decide)) _

end DleynaCore
