import DleynaCore.TaskProcessor.Properties
import DleynaCore.TaskProcessor.Proofs.QueuesProofs

/-!
# The account of every task

`prv_free_cb` deletes the waiting tasks of a queue without a word to `task_cancel_cb`. Under the
condition that no queue is freed with tasks waiting, every queue that has gone has the history of a
queue that was emptied first, and every task is accounted for when the processor is freed.
-/

namespace DleynaCore

open JobQueue

variable {w w' : World} {k : TaskQueueKey} {q : TaskQueue} {ops : List Op}

/-! ## Queues that go are empty -/

/-- A queue that is not in the table was emptied. -/
def QueueView.Emptied (k : TaskQueueKey) (v : QueueView) : Prop :=
  v.queue = none → ∃ r, History (jobEvents k v.log) [] r

/-- The request does not remove the queue with tasks waiting. -/
def Request.KeepsTasks (v : QueueView) : Request → Prop
  | .remove _ => ∀ q, v.queue = some q → q.cancelled = true → q.busy = false → q.tasks = []
  | .complete _ => ∀ q, v.queue = some q → q.deferRemove = true → q.tasks = []
  | .lastComplete _ | .drop => ∀ q, v.queue = some q → q.tasks = []
  | _ => True

/-- The history of an empty queue that is freed. -/
theorem history_freed {log es : List Event} {r : Option TaskAtom}
    (h : History (jobEvents k (log ++ es)) [] r) (ht : q.tasks = []) :
    ∃ r, History (jobEvents k (log ++ (es ++ freeCalls k q))) [] r := by
  refine ⟨r, ?_⟩
  rw [← List.append_assoc, jobEvents_append (log ++ es), jobEvents_freeCalls, ht]
  simpa using h

/-- A registered queue that goes is empty. -/
theorem gone_emptied {v : QueueView} {r : Request} {es : List Event}
    (hok : QueueOk k q v.log) (hv : v.queue = some q) (hf : r.Fits k v) (hr : r.KeepsTasks v)
    (hg : Gone k q r es) : ∃ r, History (jobEvents k (v.log ++ es)) [] r := by
  have hh : History (jobEvents k (v.log ++ [])) q.tasks q.currentTask := by
    simpa using hok.history
  have hfree : q.tasks = [] → ∃ r, History (jobEvents k (v.log ++ freeCalls k q)) [] r := fun ht =>
    history_freed (by rwa [ht] at hh) ht
  have hdone : ∀ {t}, InFlight v.log k t → q.tasks = [] →
      ∃ r, History (jobEvents k (v.log ++ ([.completed k t] ++ q.deleteCurrent k ++
        freeCalls k q))) [] r := by
    intro t hfl ht
    have hd := hok.completed (hok.current_of_inFlight hfl)
    rw [ht] at hd
    exact history_freed hd ht
  cases hg with
  | start hd ht ha => exact hfree ht
  | removeMarked hd hc hcan => exact hfree (hr q hv hcan (by simp [TaskQueue.busy, hc]))
  | drop => exact hfree (hr q hv)
  | drained hc _ => exact history_freed hok.drained rfl
  | completed hc _ _ => exact history_freed (hok.cancelCompleted hc) rfl
  | left hc _ => exact history_freed (hok.cancelRunning hc) rfl
  | complete hreq => exact hdone hf (hreq.elim (hr q hv) id)
  | lastComplete => exact hdone hf (hr q hv)

theorem serve_emptied {v v' : QueueView} {r : Option Request} (hv : v.Ok k) (he : v.Emptied k)
    (hf : ∀ r', r = some r' → r'.Fits k v) (hr : ∀ r', r = some r' → r'.KeepsTasks v)
    (hs : v.serve? k r = .ok v') : v'.Emptied k := by
  intro hn
  rcases gone_of_serve hs hn with rfl | ⟨q, r, es, hq, rfl, hg, rfl⟩
  · exact he hn
  · exact gone_emptied (hv.of_some hq).2 hq (hf r rfl) (hr r rfl) hg

/-- The condition on a step is what each of its requests needs. -/
theorem keepsTasks_of_step {op : Op} {r : Request} (hc : KeepsTasks w op)
    (he : effect w op k = some r) : r.KeepsTasks (w.view k) := by
  cases asked_of_effect he with
  | removeForSource _ | removeForSink _ =>
    intro q hq hcan hb
    obtain ⟨q0, hm, -, rfl⟩ := entry_of_view hq
    exact hc _ hm rfl hcan hb
  | passed sync hr =>
    intro q hq
    obtain ⟨q0, hm, h0, rfl⟩ := entry_of_view hq
    by_contra ht
    obtain ⟨hcan, hreach⟩ := hc _ hm ht
    exact hr ⟨hreach, by rw [isCancelled_of_find? h0]; exact hcan⟩
  | completeLast _ hl | completeOther _ _ hl =>
    intro q hq
    obtain ⟨q0, hm, -, rfl⟩ := entry_of_view hq
    exact hc _ hm (Or.inl hl)
  | complete _ _ =>
    intro q hq hd
    obtain ⟨q0, hm, -, rfl⟩ := entry_of_view hq
    exact hc _ hm (Or.inr ⟨rfl, hd⟩)
  | cancelOther _ hk hl =>
    intro q hq
    obtain ⟨q0, hm, -, rfl⟩ := entry_of_view hq
    exact hc _ hm hl hk
  | addQueue _ | addTask _ | start | cancel _ _ | cancelLast _ _ | reached _ _ _ | setFinally _
  | setUserData _ | dispatch => trivial

theorem emptied_run (h : processor.Run KeepsTasks ops w) (k : TaskQueueKey) :
    (w.view k).Emptied k := by
  have hall : ∀ k, (w.view k).Emptied k := by
    refine h.invariant (I := fun w => ∀ k, (w.view k).Emptied k) (fun k _ => ⟨none, .nil⟩) ?_
    intro _ w op w' hrun hE hg hc hs k
    have hI := inv_run hrun
    exact serve_emptied (hI.queues k) (hE k) (fun _ he => fits_of_guard hg he)
      (fun _ he => keepsTasks_of_step hc he) ((hI.simulates hg hs).view k)
  exact hall k

/-! ## A task belongs to one queue -/

theorem addedTasks_append (l l' : List Event) :
    addedTasks k (l ++ l') = addedTasks k l ++ addedTasks k l' := by
  simp [addedTasks]

theorem addedTasks_quiet {es : List Event} (h : Quiet es) : addedTasks k es = [] := by
  refine List.filterMap_eq_nil_iff.mpr fun je hje => ?_
  obtain ⟨e, he, hj⟩ := List.mem_filterMap.mp hje
  cases taskEvent_of_jobEvent hj with
  | added _ => cases h _ he
  | begun _ _ | finished _ | cancelled _ _ | deleted _ _ => rfl

/-- A task is added to a queue by the call that says so. -/
theorem added_step {op : Op} (hI : Inv w) (hg : Guard w op) (hs : step w op = .ok w')
    {t : TaskAtom} (ht : t ∈ addedTasks k w'.log) :
    t ∈ addedTasks k w.log ∨ op = .addTask k t := by
  obtain ⟨es, hlog, hes⟩ := serve_log ((hI.simulates hg hs).view k)
  have heq : ∀ w : World, addedTasks k (w.view k).log = addedTasks k w.log := fun w => by
    simp [World.view, addedTasks]
  rw [← heq w', hlog, addedTasks_append, heq w, List.mem_append] at ht
  rcases ht with ht | ht
  · exact Or.inl ht
  · refine Or.inr ?_
    rcases hes with ⟨t', he, rfl⟩ | ⟨-, t', u, rfl⟩ | ⟨flags, -, rfl⟩ | hq
    · have htt : t = t' := by simpa [addedTasks, jobEvents, jobEvent] using ht
      subst htt
      cases asked_of_effect he
      rfl
    · simp [addedTasks, jobEvents, jobEvent] at ht
    · simp [addedTasks, jobEvents, jobEvent] at ht
    · simp [addedTasks_quiet hq] at ht

/-- No task is added to two queues. -/
theorem added_unique {P : World → Op → Prop} (h : processor.Run P ops w) {t : TaskAtom}
    {k k' : TaskQueueKey} (hk : t ∈ addedTasks k w.log) (hk' : t ∈ addedTasks k' w.log) :
    k = k' := by
  have hall : ∀ t k k', t ∈ addedTasks k w.log → t ∈ addedTasks k' w.log → k = k' := by
    refine h.invariant
      (I := fun w => ∀ t k k', t ∈ addedTasks k w.log → t ∈ addedTasks k' w.log → k = k')
      (fun t k k' ht => by simp [processor, World.new, addedTasks] at ht) ?_
    intro _ w op w' hrun hU hg _ hs t k k' ht ht'
    have hI := inv_run hrun
    have hg : Guard w op := hg
    rcases added_step hI hg hs ht with ht | rfl
    · rcases added_step hI hg hs ht' with ht' | rfl
      · exact hU t k k' ht ht'
      · exact absurd (mem_allAdded ht) hg
    · rcases added_step hI hg hs ht' with ht' | he
      · exact absurd (mem_allAdded ht') hg
      · exact (Op.addTask.inj he).1
  exact hall t k k' hk hk'

/-! ## Accounts -/

/-- An event about a task of a queue is an event of its history. -/
theorem jobEvent_of_task {e : Event} {t : TaskAtom} (ht : e.task = some t) :
    ∃ k f, e.key = some k ∧ jobEvent k e = some f ∧ f.job = t := by
  cases e <;> simp only [Event.task, Option.some.injEq, reduceCtorEq] at ht <;> subst ht <;>
    exact ⟨_, _, rfl, if_pos rfl, rfl⟩

theorem task_of_processes {e : Event} {t : TaskAtom} (h : e.processes t = true) :
    e.task = some t := by
  cases e with
  | processCb k' t' u => exact congrArg some (beq_iff_eq.mp h)
  | _ => cases h

theorem task_of_cancels {e : Event} {t : TaskAtom} (h : e.cancels t = true) : e.task = some t := by
  cases e with
  | cancelCb k' t' u => exact congrArg some (beq_iff_eq.mp h)
  | _ => cases h

theorem task_of_deletes {e : Event} {t : TaskAtom} (h : e.deletes t = true) : e.task = some t := by
  cases e with
  | deleteCb k' t' u => exact congrArg some (beq_iff_eq.mp h)
  | _ => cases h

/-- An event of one kind about a task is told from what the events of its queue say. -/
theorem kind_iff {e : Event} {t : TaskAtom} {p : Event → Bool}
    {sel : JobEvent TaskAtom → Option TaskAtom} (htask : p e = true → e.task = some t)
    (hsel : ∀ f, TaskEvent k e f → (p e = true ↔ sel f = some t))
    (hkey : e.task = some t → e.key = some k) :
    p e = true ↔ (jobEvent k e).bind sel = some t := by
  cases hj : jobEvent k e with
  | none =>
    refine iff_of_false (fun hp => ?_) nofun
    obtain ⟨k', f, hk', hf, -⟩ := jobEvent_of_task (htask hp)
    obtain rfl : k' = k := Option.some.inj (hk'.symm.trans (hkey (htask hp)))
    rw [hj] at hf
    cases hf
  | some f =>
    rw [Option.bind_some]
    exact hsel f (taskEvent_of_jobEvent hj)

/-- The events of one kind about a task, counted in the history of its queue. -/
theorem countP_eq_count {log : List Event} {t : TaskAtom} {p : Event → Bool}
    {sel : JobEvent TaskAtom → Option TaskAtom}
    (hp : ∀ e ∈ log, p e = true ↔ (jobEvent k e).bind sel = some t) :
    log.countP p = ((jobEvents k log).filterMap sel).count t := by
  induction log with
  | nil => rfl
  | cons e log ih =>
    have ih := ih fun e he => hp e (List.mem_cons_of_mem _ he)
    have he := hp e List.mem_cons_self
    rw [List.countP_cons, ih]
    unfold jobEvents
    rw [List.filterMap_cons]
    cases hj : jobEvent k e with
    | none =>
      rw [hj] at he
      simp only [Option.bind_none, reduceCtorEq, iff_false] at he
      rw [if_neg he]
      rfl
    | some f =>
      rw [hj, Option.bind_some] at he
      simp only [List.filterMap_cons]
      cases hf : sel f with
      | none =>
        rw [hf] at he
        simp only [reduceCtorEq, iff_false] at he
        rw [if_neg he]
        rfl
      | some t' =>
        rw [hf, Option.some.injEq] at he
        rw [List.count_cons]
        by_cases htt : t' = t
        · rw [if_pos (he.mpr htt), if_pos (by simp [htt])]
        · rw [if_neg (fun hc => htt (he.mp hc)), if_neg (by simp [htt])]

/-- A task of a queue with a complete history is accounted for, if the task belongs to no other
queue. -/
theorem accountedFor_of_history {log : List Event} {t : TaskAtom}
    (h : History (jobEvents k log) [] none) (ht : t ∈ addedTasks k log)
    (hkey : ∀ e ∈ log, e.task = some t → e.key = some k) : AccountedFor log t := by
  have hnd : (deletedJobs (jobEvents k log)).Nodup := by simpa using h.nodup
  have hdel : t ∈ deletedJobs (jobEvents k log) := by
    have := h.conserve.symm.subset ht
    simpa using this
  have hbeg : begunJobs (jobEvents k log) = finishedJobs (jobEvents k log) := by
    simpa using h.begun_eq
  have hproc : ∀ e ∈ log, e.processes t = true ↔ (jobEvent k e).bind JobEvent.begun? = some t := by
    intro e he
    refine kind_iff task_of_processes (fun f hf => ?_) (hkey e he)
    cases hf <;> simp [Event.processes]
  have hdels : ∀ e ∈ log, e.deletes t = true ↔ (jobEvent k e).bind JobEvent.deleted? = some t := by
    intro e he
    refine kind_iff task_of_deletes (fun f hf => ?_) (hkey e he)
    cases hf <;> simp [Event.deletes]
  have hcans : ∀ e ∈ log, e.cancels t = true ↔ (jobEvent k e).bind JobEvent.cancelled? = some t := by
    intro e he
    refine kind_iff task_of_cancels (fun f hf => ?_) (hkey e he)
    cases hf <;> simp [Event.cancels]
  refine ⟨?_, ?_, ?_, ?_⟩
  · rw [countP_eq_count hproc]
    have hsub : (begunJobs (jobEvents k log)).Sublist (addedJobs (jobEvents k log)) :=
      (Discarded.of_history h).begun_sublist
    exact List.nodup_iff_count_le_one.mp (h.added_nodup.sublist hsub) t
  · rw [countP_eq_count hdels]
    exact List.count_eq_one_of_mem hnd hdel
  · rintro l1 e l2 hl hd e' he' ht'
    have hme : e ∈ log := by simp [hl]
    have hme' : e' ∈ log := by simp [hl, he']
    have hj : jobEvent k e = some (.deleted t) := by
      obtain ⟨f, hf, hft⟩ := Option.bind_eq_some_iff.mp ((hdels e hme).mp hd)
      cases taskEvent_of_jobEvent hf with
      | deleted t' u =>
        obtain rfl := Option.some.inj hft
        exact hf
      | added _ | begun _ _ | finished _ | cancelled _ _ => cases hft
    obtain ⟨k', f, hk', hf, hft⟩ := jobEvent_of_task ht'
    have hkk : k' = k := Option.some.inj (hk'.symm.trans (hkey e' hme' ht'))
    subst hkk
    have hdl := h.deletedLast
    rw [hl, jobEvents_append, jobEvents, jobEvents, List.filterMap_cons, hj] at hdl
    have hcons := (List.pairwise_append.mp hdl).2.1
    exact (List.pairwise_cons.mp hcons).1 f (List.mem_filterMap.mpr ⟨e', he', hf⟩) t rfl hft
  · intro hnp
    have hnb : t ∉ begunJobs (jobEvents k log) := by
      intro hb
      have hpos := List.count_pos_iff.mpr hb
      rw [← countP_eq_count hproc, List.countP_pos_iff] at hpos
      obtain ⟨e, he, hep⟩ := hpos
      rw [List.any_eq_false] at hnp
      exact hnp e he hep
    have hcan : t ∈ cancelledJobs (jobEvents k log) := by
      rcases h.deleted_mem hdel with hf | hc
      · exact absurd (hbeg ▸ hf) hnb
      · exact hc
    have hpos := List.count_pos_iff.mpr hcan
    rw [← countP_eq_count hcans, List.countP_pos_iff] at hpos
    exact List.any_eq_true.mpr hpos

/-! ## Freeing the processor -/

/-- What is seen of a queue when the processor is freed. -/
theorem free_view (hI : Inv w) (k : TaskQueueKey) :
    (w.view k).serve? k (some .drop) = .ok ((dleynaTaskProcessorFree w).view k) :=
  view_gHashTableRemoveAll hI.sources k

theorem free_emptied (h : processor.Run KeepsTasks ops w) (hw : NoWaitingTasks w)
    (k : TaskQueueKey) : ∃ r, History (jobEvents k (dleynaTaskProcessorFree w).log) [] r := by
  have hI := inv_run h
  have hE := serve_emptied (hI.queues k) (emptied_run h k)
    (by rintro r rfl'; cases rfl'; trivial)
    (by
      rintro r rfl'
      cases rfl'
      intro q hq
      obtain ⟨q0, hm, -, rfl⟩ := entry_of_view hq
      exact hw _ hm)
    (free_view hI k)
  obtain ⟨r, hr⟩ := hE (by simp [World.view, dleynaTaskProcessorFree])
  exact ⟨r, by simpa [World.view] using hr⟩

/-- Freeing the processor adds and processes nothing, and completes nothing. -/
theorem free_jobs (w : World) (k : TaskQueueKey) :
    addedTasks k (dleynaTaskProcessorFree w).log = addedTasks k w.log ∧
      processedTasks k (dleynaTaskProcessorFree w).log = processedTasks k w.log ∧
      completedTasks k (dleynaTaskProcessorFree w).log = completedTasks k w.log := by
  have hj : jobEvents k (dleynaTaskProcessorFree w).log =
      jobEvents k w.log ++ jobEvents k (dropCalls w.taskQueues k) := by
    rw [← jobEvents_logOf, dleynaTaskProcessorFree, logOf_gHashTableRemoveAll, jobEvents_append,
      jobEvents_logOf]
  have hd : ∃ ts : List TaskAtom, jobEvents k (dropCalls w.taskQueues k) = ts.map .deleted := by
    cases hq : w.taskQueues.find? k with
    | none => exact ⟨[], by rw [dropCalls_none hq]; rfl⟩
    | some q => exact ⟨q.tasks, by rw [dropCalls_some hq, jobEvents_freeCalls]⟩
  obtain ⟨ts, hts⟩ := hd
  have hnone : ∀ sel : JobEvent TaskAtom → Option TaskAtom, (∀ a, sel (.deleted a) = none) →
      ((ts.map JobEvent.deleted).filterMap sel) = [] := by
    intro sel hsel
    rw [List.filterMap_map]
    exact List.filterMap_eq_nil_iff.mpr fun a _ => hsel a
  refine ⟨?_, ?_, ?_⟩
  · rw [addedTasks, hj, hts, addedJobs, List.filterMap_append, hnone _ fun _ => rfl, List.append_nil]
    rfl
  · rw [processedTasks, hj, hts, begunJobs, List.filterMap_append, hnone _ fun _ => rfl,
      List.append_nil]
    rfl
  · rw [completedTasks, hj, hts, finishedJobs, List.filterMap_append, hnone _ fun _ => rfl,
      List.append_nil]
    rfl

theorem mem_processedTasks {log : List Event} {t : TaskAtom} (h : t ∈ processedTasks k log) :
    ∃ u, Event.processCb k t u ∈ log := by
  obtain ⟨f, hf, hft⟩ := List.mem_filterMap.mp h
  obtain ⟨e, he, hj⟩ := List.mem_filterMap.mp hf
  cases taskEvent_of_jobEvent hj with
  | begun t' u =>
    obtain rfl := Option.some.inj hft
    exact ⟨u, he⟩
  | added _ | finished _ | cancelled _ _ | deleted _ _ => cases hft

theorem mem_completedTasks {log : List Event} {t : TaskAtom} (h : Event.completed k t ∈ log) :
    t ∈ completedTasks k log :=
  List.mem_filterMap.mpr ⟨.finished t, List.mem_filterMap.mpr ⟨_, h, if_pos rfl⟩, rfl⟩

/-- In every run whose steps meet the condition, and that ends with the processor freed after every
started task was completed, and with no task waiting, every task is accounted for. -/
theorem accountedFor_free (h : processor.Run KeepsTasks ops w) (hdone : AllCompleted w.log)
    (hw : NoWaitingTasks w) {t : TaskAtom} (ht : t ∈ allAdded w.log) :
    AccountedFor (dleynaTaskProcessorFree w).log t := by
  have hI := inv_run h
  -- the queue that the task was added to
  obtain ⟨k, hk⟩ : ∃ k, t ∈ addedTasks k w.log := by
    obtain ⟨e, he, hsel⟩ := List.mem_filterMap.mp ht
    cases e with
    | addTask k t' =>
      obtain rfl : t' = t := by simpa using hsel
      exact ⟨k, List.mem_filterMap.mpr
        ⟨.added t', List.mem_filterMap.mpr ⟨_, he, if_pos rfl⟩, rfl⟩⟩
    | _ => simp at hsel
  -- nothing is in flight any more
  have hnone : ∃ r, History (jobEvents k (dleynaTaskProcessorFree w).log) [] r :=
    free_emptied h hw k
  obtain ⟨r, hr⟩ := hnone
  obtain ⟨hadd, hproc, hcomp⟩ := free_jobs w k
  have hr0 : r = none := by
    cases r with
    | none => rfl
    | some a =>
      have hb : processedTasks k (dleynaTaskProcessorFree w).log =
          completedTasks k (dleynaTaskProcessorFree w).log ++ [a] := hr.begun_eq
      have hnd : (processedTasks k (dleynaTaskProcessorFree w).log).Nodup :=
        hr.added_nodup.sublist (Discarded.of_history hr).begun_sublist
      rw [hb, List.nodup_append] at hnd
      have ha : a ∈ processedTasks k w.log := by
        rw [← hproc, hb]
        simp
      obtain ⟨u, hu⟩ := mem_processedTasks ha
      have hc := mem_completedTasks (hdone _ hu)
      rw [← hcomp] at hc
      exact absurd rfl (hnd.2.2 a hc a (by simp))
  subst hr0
  refine accountedFor_of_history hr (by rw [hadd]; exact hk) fun e he hte => ?_
  obtain ⟨k', f, hk', hf, hft⟩ := jobEvent_of_task hte
  obtain ⟨r', hr'⟩ := free_emptied h hw k'
  have hm := hr'.job_mem (List.mem_filterMap.mpr ⟨e, he, hf⟩)
  have hm' : t ∈ addedTasks k' w.log := by
    rw [← (free_jobs w k').1, ← hft]
    exact hm
  rw [hk', added_unique h hm' hk]

/-- One task is processed and completed, another one cancelled. -/
theorem accountedFor_cancelled :
    AccountedFor (dleynaTaskProcessorFree (processor.final KeepsTasks
      [.addQueue ⟨1, "a", "b"⟩ 1, .addTask ⟨1, "a", "b"⟩ 7, .addTask ⟨1, "a", "b"⟩ 8,
        .dispatch ⟨1, "a", "b"⟩, .cancelQueue ⟨1, "a", "b"⟩ fun _ => true])).log 8 :=
  accountedFor_free (System.run_final (by decide)) (by decide) (by decide) (by decide)

/-- A task is added to a queue that was cancelled, and the queue is removed. -/
def addToCancelled : List Op :=
  [.addQueue ⟨1, "a", "b"⟩ 0, .cancelQueue ⟨1, "a", "b"⟩ fun _ => false,
    .addTask ⟨1, "a", "b"⟩ 7, .removeQueuesForSource "a" fun _ => false]

theorem droppedTask_reachable :
    processor.Run Any addToCancelled (processor.final Any addToCancelled) ∧
      AllCompleted (processor.final Any addToCancelled).log ∧
      7 ∈ allAdded (processor.final Any addToCancelled).log ∧
      ¬ AccountedFor (dleynaTaskProcessorFree (processor.final Any addToCancelled)).log 7 := by
  refine ⟨System.run_final (by decide), by decide, by decide, fun h => ?_⟩
  have hc := h.cancelled (by decide)
  revert hc
  decide

end DleynaCore
