import DleynaCore.TaskProcessor.Proofs.QuitTraversalProofs

/-!
# What the finally callback tells

A cancel marks the queue, and a dispatch removes the mark. So a queue is marked as long as one of its
tasks was cancelled since its last dispatch, and the finally callback is passed the mark.
-/

namespace DleynaCore

open JobQueue

variable {w w' : World} {k : TaskQueueKey} {q q' : TaskQueue} {t : TaskAtom} {ops : List Op}
  {log l l' es : List Event} {r : Request} {v v' : QueueView} {cb : Gpointer} {c : Bool}
  {u : Gpointer}

/-! ## Since the last dispatch -/

theorem upToDispatch_append_sinceDispatch (k : TaskQueueKey) (log : List Event) :
    upToDispatch k log ++ sinceDispatch k log = log := by
  unfold upToDispatch sinceDispatch List.rdropWhile List.rtakeWhile
  rw [← List.reverse_append, List.takeWhile_append_dropWhile, List.reverse_reverse]

theorem sinceDispatch_concat (k : TaskQueueKey) (log : List Event) (e : Event) :
    sinceDispatch k (log ++ [e]) =
      if e.dispatches k = true then [] else sinceDispatch k log ++ [e] := by
  rw [sinceDispatch, List.rtakeWhile_concat]
  cases e.dispatches k <;> rfl

theorem processedTasks_singleton {e : Event} (h : processedTasks k [e] = []) :
    e.dispatches k = false := by
  cases e with
  | processCb k' t u =>
    by_contra hne
    have hk : k' = k := by simpa [Event.dispatches] using hne
    simp [processedTasks, jobEvents, jobEvent, begunJobs, hk] at h
  | _ => rfl

/-- Events that are no dispatches belong to the time since the last one. -/
theorem sinceDispatch_append (h : processedTasks k es = []) :
    sinceDispatch k (log ++ es) = sinceDispatch k log ++ es := by
  induction es using List.reverseRecOn with
  | nil => simp
  | append_singleton es e ih =>
    rw [processedTasks_append, List.append_eq_nil_iff] at h
    rw [← List.append_assoc, sinceDispatch_concat, if_neg (by simp [processedTasks_singleton h.2]),
      ih h.1, List.append_assoc]

theorem sinceDispatch_dispatch (t : TaskAtom) (u : Gpointer) :
    sinceDispatch k (log ++ [.processCb k t u]) = [] := by
  simp [sinceDispatch_concat, Event.dispatches]

/-- A task of the queue was cancelled since its last dispatch. -/
def CancelledSince (k : TaskQueueKey) (log : List Event) : Prop :=
  cancelledTasks k (sinceDispatch k log) ≠ []

/-- What the queue shares with the other queues does not matter. -/
theorem sinceDispatch_logOf (k : TaskQueueKey) (log : List Event) :
    sinceDispatch k (log.filter fun e => e.key = some k) =
      (sinceDispatch k log).filter fun e => e.key = some k := by
  induction log using List.reverseRecOn with
  | nil => rfl
  | append_singleton log e ih =>
    rw [List.filter_append, sinceDispatch_concat]
    by_cases hk : e.key = some k
    · rw [List.filter_singleton, decide_eq_true hk, cond_true, sinceDispatch_concat, ih]
      cases e.dispatches k <;> simp [hk]
    · have hd : e.dispatches k = false := by
        cases e <;> simp_all [Event.dispatches, Event.key]
      rw [List.filter_singleton, decide_eq_false hk, cond_false, List.append_nil, ih, hd]
      simp [hk]

theorem cancelledSince_filter :
    CancelledSince k (log.filter fun e => e.key = some k) ↔ CancelledSince k log := by
  rw [CancelledSince, CancelledSince, sinceDispatch_logOf, cancelledTasks, jobEvents_filter]
  rfl

theorem cancelledSince_append (h : processedTasks k es = []) :
    CancelledSince k (log ++ es) ↔ CancelledSince k log ∨ cancelledTasks k es ≠ [] := by
  rw [CancelledSince, sinceDispatch_append h, cancelledTasks_append, ne_eq, List.append_eq_nil_iff,
    not_and_or]
  rfl

/-! ## The calls of a request -/

@[simp] theorem cancelledTasks_freeCalls : cancelledTasks k (freeCalls k q) = [] := by
  simp [cancelledTasks, jobEvents_freeCalls]

@[simp] theorem cancelledTasks_completed (t : TaskAtom) :
    cancelledTasks k ([.completed k t] ++ q.deleteCurrent k) = [] := by
  unfold TaskQueue.deleteCurrent
  cases q.currentTask <;> simp [cancelledTasks, jobEvents, jobEvent]

theorem notMem_of_countP (h : es.countP (Event.isFinally k) = 0) :
    .finallyCb k cb c u ∉ es := by
  intro hm
  have := List.countP_eq_zero.mp h _ hm
  simp [Event.isFinally] at this

/-- The finally callback is passed the mark of the queue. -/
theorem cancelled_of_freeCalls (h : .finallyCb k cb c u ∈ freeCalls k q) : c = q.cancelled := by
  rcases List.mem_append.mp h with h | h
  · obtain ⟨t, -, ht⟩ := List.mem_map.mp h
    cases ht
  · cases hcb : q.taskQueueFinallyCb with
    | none => simp [hcb] at h
    | some cb' =>
      simp only [hcb, List.mem_singleton, Event.finallyCb.injEq] at h
      exact h.2.2.1

/-- A queue that goes was marked before, or its tasks are cancelled while it goes; else none is. -/
theorem Gone.tells (h : Gone k q r es) (he : .finallyCb k cb c u ∈ es) :
    c = true ∨ c = q.cancelled ∧ cancelledTasks k es = [] ∧ processedTasks k es = [] := by
  have hcalls : .finallyCb k cb c u ∉ cancelAndFreeCalls k q :=
    notMem_of_countP countP_isFinally_cancelAndFreeCalls
  cases h with
  | start _ _ _ | removeMarked _ _ _ | drop =>
    exact Or.inr ⟨cancelled_of_freeCalls he, cancelledTasks_freeCalls, processedTasks_freeCalls⟩
  | drained _ _ =>
    exact Or.inl (cancelled_of_freeCalls ((List.mem_append.mp he).resolve_left hcalls))
  | completed _ _ _ =>
    rcases List.mem_append.mp he with he | he
    · refine absurd ((List.mem_append.mp he).resolve_left hcalls) ?_
      exact notMem_of_countP countP_isFinally_cancelCompleteCalls
    · exact Or.inl (cancelled_of_freeCalls he)
  | left _ _ =>
    rcases List.mem_append.mp he with he | he
    · exact absurd ((List.mem_append.mp he).resolve_left hcalls) (by simp)
    · exact Or.inl (cancelled_of_freeCalls he)
  | complete _ | lastComplete =>
    rcases List.mem_append.mp he with he | he
    · exact absurd he (notMem_of_countP countP_isFinally_completed)
    · refine Or.inr ⟨cancelled_of_freeCalls he, ?_, ?_⟩
      · rw [cancelledTasks_append, cancelledTasks_completed, cancelledTasks_freeCalls]
        rfl
      · rw [processedTasks_append, (flights_completed _).1, processedTasks_freeCalls]
        rfl

/-- A queue that stays is dispatched, or marked when its tasks are cancelled. -/
theorem Kept.marks (h : Kept k q r q' es) :
    (∃ t, es = [.processCb k t q.userData]) ∨ processedTasks k es = [] ∧
      (q'.cancelled = true ∨ q'.cancelled = q.cancelled ∧ cancelledTasks k es = []) := by
  cases h with
  | dispatch _ => exact Or.inl ⟨_, rfl⟩
  | start | startWaiting _ _ _ | cancelMarked _ | removeDeferred _ | removeMarked _ _ | setFinally
  | setUserData => exact Or.inr ⟨rfl, Or.inr ⟨rfl, rfl⟩⟩
  | addTask _ | addTaskStart _ _ _ =>
    refine Or.inr ⟨?_, Or.inr ⟨rfl, ?_⟩⟩ <;>
      simp [processedTasks, cancelledTasks, jobEvents, jobEvent, begunJobs, cancelledJobs]
  | cancelIdle _ _ => exact Or.inr ⟨processedTasks_cancelAndFreeCalls, Or.inl rfl⟩
  | cancelRunning _ _ | removeRunning _ _ =>
    refine Or.inr ⟨?_, Or.inl rfl⟩
    rw [processedTasks_append, processedTasks_cancelAndFreeCalls]
    simp [processedTasks, jobEvents, jobEvent, begunJobs]
  | cancelCompleted _ _ _ _ _ =>
    refine Or.inr ⟨?_, Or.inl rfl⟩
    rw [processedTasks_append, processedTasks_cancelAndFreeCalls,
      (flights_cancelCompleteCalls _).1]
    rfl
  | complete _ _ _ | completeNext _ _ =>
    exact Or.inr ⟨(flights_completed _).1, Or.inr ⟨rfl, cancelledTasks_completed _⟩⟩

/-! ## Runs -/

/-- The queue is marked if one of its tasks was cancelled since its last dispatch, and the finally
callback is told. -/
structure QueueView.Marks (k : TaskQueueKey) (v : QueueView) : Prop where
  flag : ∀ q, v.queue = some q → CancelledSince k v.log → q.cancelled = true
  told : ∀ l1 cb c u l2, v.log = l1 ++ .finallyCb k cb c u :: l2 → CancelledSince k l1 → c = true

theorem serve?_marks {r : Option Request} (h : v.Marks k) (hf : ∀ r', r = some r' → r'.Fits k v)
    (hs : v.serve? k r = .ok v') : v'.Marks k := by
  cases served_of_serve? hs with
  | idle | absent _ _ => exact h
  | added _ =>
    have hlog : v.log = [] := hf _ rfl
    refine ⟨fun q _ hc => absurd ?_ hc, fun l1 cb c u l2 hl => ?_⟩
    · simp [QueueView.put, hlog, sinceDispatch, cancelledTasks, jobEvents, List.rtakeWhile,
        Event.dispatches, jobEvent, cancelledJobs]
    · have hm : Event.finallyCb k cb c u ∈ l1 ++ .finallyCb k cb c u :: l2 := by simp
      rw [← hl, QueueView.put, hlog] at hm
      simp at hm
  | gone hq hg =>
    rename_i q r' es
    refine ⟨by simp [QueueView.put], fun l1 cb c u l2 hl hc => ?_⟩
    rcases split_append hl with ⟨l2', hl'⟩ | ⟨l1', rfl, hes⟩
    · exact h.told l1 cb c u l2' hl' hc
    · have hm : Event.finallyCb k cb c u ∈ es := by simp [hes]
      rcases hg.tells hm with ht | ⟨rfl, hcan, hp⟩
      · exact ht
      · rw [hes, cancelledTasks_append, List.append_eq_nil_iff] at hcan
        rw [hes, processedTasks_append, List.append_eq_nil_iff] at hp
        rw [cancelledSince_append hp.1] at hc
        exact h.flag _ hq (hc.resolve_right fun hne => hne hcan.1)
  | kept hq hk =>
    rename_i q q' r' es
    constructor
    · rintro q1 hq1 hc
      obtain rfl : q' = q1 := Option.some.inj hq1
      rcases hk.marks with ⟨t, rfl⟩ | ⟨hp, hm⟩
      · refine absurd ?_ hc
        rw [QueueView.put, sinceDispatch_dispatch]
        rfl
      · rcases hm with hm | ⟨hm, hcan⟩
        · exact hm
        · have hc : CancelledSince k (v.log ++ es) := hc
          rw [cancelledSince_append hp] at hc
          rw [hm]
          exact h.flag _ hq (hc.resolve_right fun hne => hne hcan)
    · intro l1 cb c u l2 hl hc
      rcases split_append hl with ⟨l2', hl'⟩ | ⟨l1', rfl, hes⟩
      · exact h.told l1 cb c u l2' hl' hc
      · have hm : Event.finallyCb k cb c u ∈ es := by simp [hes]
        exact absurd hm (notMem_of_countP hk.unfinished)

theorem marks_run {P : World → Op → Prop} (h : processor.Run P ops w) (k : TaskQueueKey) :
    (w.view k).Marks k := by
  refine h.invariant (I := fun w => (w.view k).Marks k) ?_ ?_
  · constructor
    · intro q hq
      simp [World.view, processor, World.new] at hq
    · intro l1 cb c u l2 hl
      simp [World.view, World.logOf, processor, World.new] at hl
  · intro _ w op w' hrun hM hg _ hs
    exact serve?_marks hM (fun r he => fits_of_guard hg he)
      (((inv_run hrun).simulates hg hs).view k)

/-! ## The argument -/

/-- What the marks of all queues say about a history. -/
theorem finallyTells_of_marks (h : ∀ k, (w.view k).Marks k) : FinallyTells w.log := by
  intro l1 k cb c u l2 hl hf
  have hcancel : CancelledSince k l1 → c = true := by
    intro hc
    have hlog : (w.view k).log = (l1.filter fun e => e.key = some k) ++
        .finallyCb k cb c u :: l2.filter fun e => e.key = some k := by
      simp [World.view, World.logOf, hl, Event.key]
    exact (h k).told _ cb c u _ hlog (cancelledSince_filter.mpr hc)
  refine ⟨hcancel, fun hc t _ => ?_⟩
  have hsince : cancelledTasks k (sinceDispatch k l1) = [] := by
    by_contra hne
    simp [hcancel hne] at hc
  by_cases hcan : t ∈ cancelledTasks k l1
  · rw [← upToDispatch_append_sinceDispatch k l1, cancelledTasks_append, hsince,
      List.append_nil] at hcan
    exact Or.inr (Or.inl hcan)
  · by_cases hp : t ∈ processedTasks k l1
    · have hdone : t ∈ completedTasks k l1 := by
        by_contra hnc
        exact hf t ⟨hp, hnc⟩
      exact Or.inl ⟨hdone, hcan⟩
    · exact Or.inr (Or.inr ⟨hp, hcan⟩)

/-- In every run, and when the processor is freed after it, the finally callbacks tell whether a
task was cancelled since the last dispatch of the queue. -/
theorem finallyTells_run (h : processor.Run Any ops w) :
    FinallyTells w.log ∧ FinallyTells (dleynaTaskProcessorFree w).log := by
  refine ⟨finallyTells_of_marks (marks_run h), finallyTells_of_marks fun k => ?_⟩
  refine serve?_marks (marks_run h k) ?_ (free_view (inv_run h) k)
  rintro r rfl'
  cases rfl'
  trivial

/-- Cancel a queue while a task runs, add another one, and let both complete. -/
def cancelThenAdd : List Op :=
  [.addQueue ⟨1, "a", "b"⟩ (flagAutoStart ||| flagAutoRemove), .setFinally ⟨1, "a", "b"⟩ (some 5),
    .addTask ⟨1, "a", "b"⟩ 7, .dispatch ⟨1, "a", "b"⟩, .addTask ⟨1, "a", "b"⟩ 8,
    .cancelQueue ⟨1, "a", "b"⟩ fun _ => false, .addTask ⟨1, "a", "b"⟩ 9,
    .taskCompleted ⟨1, "a", "b"⟩ 7, .dispatch ⟨1, "a", "b"⟩, .taskCompleted ⟨1, "a", "b"⟩ 9]

/-- Its finally callback tells of no cancel since the last dispatch. -/
theorem finallyTells_cancelThenAdd : FinallyTells (processor.final Any cancelThenAdd).log ∧
    FinallyTells (dleynaTaskProcessorFree (processor.final Any cancelThenAdd)).log :=
  finallyTells_run (System.run_final (by decide : (processor.exec Any _ cancelThenAdd).isSome = true))

/-- The finally callback is passed `FALSE`, though a running task and a waiting one were
cancelled. -/
theorem finallyUntold_reachable :
    processor.Run Any cancelThenAdd (processor.final Any cancelThenAdd) ∧
      ∃ l1, (processor.final Any cancelThenAdd).log =
          l1 ++ [.finallyCb ⟨1, "a", "b"⟩ 5 false 0] ∧
        (∀ t, ¬ InFlight l1 ⟨1, "a", "b"⟩ t) ∧ 7 ∈ cancelledTasks ⟨1, "a", "b"⟩ l1 ∧
        8 ∈ addedTasks ⟨1, "a", "b"⟩ l1 ∧ 8 ∉ processedTasks ⟨1, "a", "b"⟩ l1 ∧
        8 ∈ cancelledTasks ⟨1, "a", "b"⟩ l1 := by
  refine ⟨System.run_final (by decide), (processor.final Any cancelThenAdd).log.dropLast,
    by decide, fun t ht => ?_, by decide, by decide, by decide, by decide⟩
  have heq : processedTasks ⟨1, "a", "b"⟩ (processor.final Any cancelThenAdd).log.dropLast =
      completedTasks ⟨1, "a", "b"⟩ (processor.final Any cancelThenAdd).log.dropLast := by decide
  exact ht.2 (heq ▸ ht.1)

end DleynaCore
