import DleynaCore.TaskProcessor.Proofs.RequestsProofs
import DleynaCore.TaskProcessor.Proofs.StepProofs

/-!
# The queue invariant

Each queue of the processor is a one-at-a-time queue in the sense of `JobQueue.History`: its waiting
tasks and its running task are those that its history leaves over. With this goes what the record
itself promises (`QueueOk`). The invariant holds in every run.
-/

namespace DleynaCore

open JobQueue

variable {k : TaskQueueKey} {q : TaskQueue} {log : List Event}

/-! ## Histories of the calls -/

/-- The events about the tasks of the queue `k`, with what they say. -/
inductive TaskEvent (k : TaskQueueKey) : Event → JobEvent TaskAtom → Prop where
  | added (t : TaskAtom) : TaskEvent k (.addTask k t) (.added t)
  | begun (t : TaskAtom) (u : Gpointer) : TaskEvent k (.processCb k t u) (.begun t)
  | finished (t : TaskAtom) : TaskEvent k (.completed k t) (.finished t)
  | cancelled (t : TaskAtom) (u : Gpointer) : TaskEvent k (.cancelCb k t u) (.cancelled t)
  | deleted (t : TaskAtom) (u : Gpointer) : TaskEvent k (.deleteCb k t u) (.deleted t)

theorem taskEvent_of_jobEvent {e : Event} {f : JobEvent TaskAtom} (h : jobEvent k e = some f) :
    TaskEvent k e f := by
  cases e with
  | addTask k' t | processCb k' t u | completed k' t | cancelCb k' t u | deleteCb k' t u =>
    simp only [jobEvent, Option.ite_none_right_eq_some, Option.some.injEq] at h
    obtain ⟨rfl, rfl⟩ := h
    constructor
  | _ => cases h

theorem task_of_jobEvent {e : Event} {f : JobEvent TaskAtom} (h : jobEvent k e = some f) :
    e.task = some f.job ∧ e.key = some k := by
  cases taskEvent_of_jobEvent h <;> exact ⟨rfl, rfl⟩

@[simp] theorem jobEvents_append (l l' : List Event) :
    jobEvents k (l ++ l') = jobEvents k l ++ jobEvents k l' := List.filterMap_append

@[simp] theorem jobEvents_nil : jobEvents k [] = [] := rfl

/-- The events about other queues say nothing about the tasks of the queue. -/
theorem jobEvents_filter (k : TaskQueueKey) (log : List Event) :
    jobEvents k (log.filter fun e => e.key = some k) = jobEvents k log := by
  unfold jobEvents
  rw [List.filterMap_filter]
  refine List.filterMap_congr fun e _ => ?_
  by_cases h : e.key = some k
  · simp [h]
  · rw [if_neg (by simpa using h)]
    cases hj : jobEvent k e with
    | none => rfl
    | some f => exact absurd (task_of_jobEvent hj).2 h

@[simp] theorem jobEvents_logOf (w : World) (k : TaskQueueKey) :
    jobEvents k (w.logOf k) = jobEvents k w.log := jobEvents_filter k w.log

theorem jobEvents_freeCalls (k : TaskQueueKey) (q : TaskQueue) :
    jobEvents k (freeCalls k q) = q.tasks.map .deleted := by
  have hmap : jobEvents k (q.tasks.map fun task => .deleteCb k task q.userData) =
      q.tasks.map .deleted := by
    rw [jobEvents, List.filterMap_map]
    simp only [Function.comp_def, jobEvent, if_true]
    exact congrFun (List.filterMap_eq_map (f := JobEvent.deleted)) _
  rw [freeCalls, jobEvents_append, hmap]
  cases q.taskQueueFinallyCb <;> simp [jobEvents, jobEvent]

theorem jobEvents_cancelAndFreeCalls (k : TaskQueueKey) (q : TaskQueue) :
    jobEvents k (cancelAndFreeCalls k q) =
      q.tasks.flatMap fun t => [JobEvent.cancelled t, JobEvent.deleted t] := by
  unfold cancelAndFreeCalls
  induction q.tasks with
  | nil => rfl
  | cons t ts ih =>
    rw [List.flatMap_cons, List.flatMap_cons, jobEvents_append, ih]
    simp [jobEvents, jobEvent]

theorem jobEvents_cancelCompleteCalls (k : TaskQueueKey) (q : TaskQueue) (t : TaskAtom) :
    jobEvents k (q.cancelCompleteCalls k t) = [.cancelled t, .finished t, .deleted t] := by
  simp [jobEvents, jobEvent, TaskQueue.cancelCompleteCalls]

theorem jobEvents_deleteCurrent (k : TaskQueueKey) {t : TaskAtom} (h : q.currentTask = some t) :
    jobEvents k (q.deleteCurrent k) = [.deleted t] := by
  simp [jobEvents, jobEvent, TaskQueue.deleteCurrent, h]

/-! ## The invariant of one queue -/

/-- What holds of the record of a registered queue with its history: (its source id taken to be `0`
or `1`) a pending dispatch means waiting tasks and no running one, a deferred removal waits for the
running task of a cancelled queue, an `AUTO_START` queue with waiting tasks is running or scheduled,
and an `AUTO_REMOVE` queue that processed a task is not left empty. -/
structure QueueOk (k : TaskQueueKey) (q : TaskQueue) (log : List Event) : Prop where
  history : History (jobEvents k log) q.tasks q.currentTask
  idle : q.idleId ≠ 0 → q.currentTask = none ∧ q.tasks ≠ []
  deferred : q.deferRemove = true → q.currentTask ≠ none ∧ q.cancelled = true
  started : q.autoStart = true → q.tasks ≠ [] → q.currentTask ≠ none ∨ q.idleId ≠ 0
  lingers : q.autoRemove = true → processedTasks k log ≠ [] →
    q.currentTask ≠ none ∨ q.tasks ≠ []

/-- The invariant of what is seen from a queue. A queue that is gone, or was never added, has the
history of a queue that was thrown away. -/
def QueueView.Ok (k : TaskQueueKey) (v : QueueView) : Prop :=
  match v.queue with
  | some q => v.pending = q.idleId ∧ QueueOk k q v.log
  | none => ∃ ws r, Discarded (jobEvents k v.log) ws r

theorem QueueView.Ok.of_some {v : QueueView} (h : v.Ok k) (hq : v.queue = some q) :
    v.pending = q.idleId ∧ QueueOk k q v.log := by
  simpa [QueueView.Ok, hq] using h

/-- A queue that stays in the table. -/
theorem QueueOk.put {v : QueueView} {b : Bool} {es : List Event} (h : QueueOk k q (v.log ++ es)) :
    (v.put b (some q) es).Ok k := ⟨rfl, h⟩

namespace QueueOk

/-- A task in flight is the running task. -/
theorem current_of_inFlight (h : QueueOk k q log) {t : TaskAtom} (ht : InFlight log k t) :
    q.currentTask = some t := by
  have hb := h.history.begun_eq
  have hm : t ∈ begunJobs (jobEvents k log) := ht.1
  rw [hb] at hm
  rcases List.mem_append.mp hm with hm | hm
  · exact absurd hm ht.2
  · simpa using hm

/-- The history of a queue that has been cancelled. -/
theorem drained (h : QueueOk k q log) :
    History (jobEvents k (log ++ cancelAndFreeCalls k q)) [] q.currentTask := by
  rw [jobEvents_append, jobEvents_cancelAndFreeCalls]
  exact h.history.cancelAll

/-- The history of a queue that is thrown away. -/
theorem discarded {es : List Event} (h : History (jobEvents k (log ++ es)) q.tasks q.currentTask) :
    ∃ ws r, Discarded (jobEvents k (log ++ (es ++ freeCalls k q))) ws r := by
  refine ⟨_, _, _, h, ?_⟩
  rw [← List.append_assoc, jobEvents_append (log ++ es), jobEvents_freeCalls]

/-- The history of a queue that is thrown away as it is. -/
theorem dropped (h : QueueOk k q log) :
    ∃ ws r, Discarded (jobEvents k (log ++ freeCalls k q)) ws r := by
  refine ⟨_, _, _, h.history, ?_⟩
  rw [jobEvents_append, jobEvents_freeCalls]

/-- A queue with a running task, whatever is done to its other fields. -/
theorem of_running {es : List Event} (hc : q.currentTask ≠ none) (hi : q.idleId = 0)
    (hd : q.deferRemove = true → q.cancelled = true)
    (hh : History (jobEvents k (log ++ es)) q.tasks q.currentTask) : QueueOk k q (log ++ es) where
  history := hh
  idle := fun h => absurd hi h
  deferred := fun h => ⟨hc, hd h⟩
  started := fun _ _ => Or.inl hc
  lingers := fun _ _ => Or.inl hc

theorem idle_of_running (h : QueueOk k q log) {t : TaskAtom} (ht : q.currentTask = some t) :
    q.idleId = 0 := by
  by_contra h0
  simp [(h.idle h0).1] at ht

/-- The running task completes inside its cancel callback. -/
theorem cancelCompleted (h : QueueOk k q log) {t : TaskAtom} (ht : q.currentTask = some t) :
    History (jobEvents k (log ++ (cancelAndFreeCalls k q ++ q.cancelCompleteCalls k t))) [] none := by
  have h1 := h.drained
  rw [ht] at h1
  have h2 := h1.cancelRunning.finish
  rw [← List.append_assoc, jobEvents_append (log ++ _), jobEvents_cancelCompleteCalls]
  simpa using h2

/-- The running task is told to stop. -/
theorem cancelRunning (h : QueueOk k q log) {t : TaskAtom} (ht : q.currentTask = some t) :
    History (jobEvents k (log ++ (cancelAndFreeCalls k q ++ [.cancelCb k t q.userData]))) []
      q.currentTask := by
  have h1 := h.drained
  rw [ht] at h1 ⊢
  rw [← List.append_assoc, jobEvents_append (log ++ _)]
  simpa [jobEvents, jobEvent] using h1.cancelRunning

/-- The running task completes. -/
theorem completed (h : QueueOk k q log) {t : TaskAtom} (ht : q.currentTask = some t) :
    History (jobEvents k (log ++ ([.completed k t] ++ q.deleteCurrent k))) q.tasks none := by
  have h1 := h.history
  rw [ht] at h1
  rw [← List.append_assoc, jobEvents_append, jobEvents_append, jobEvents_deleteCurrent k ht]
  simpa [jobEvents, jobEvent] using h1.finish

end QueueOk

/-- The record that is seen is that of an entry of the table. -/
theorem entry_of_view {w : World} (hq : (w.view k).queue = some q) :
    ∃ q0, (k, q0) ∈ w.taskQueues.entries ∧ w.taskQueues.find? k = some q0 ∧ q = q0.shape := by
  obtain ⟨q0, h0, rfl⟩ := Option.map_eq_some_iff.mp hq
  exact ⟨q0, HashTable.find?_eq_some.mp h0, h0, rfl⟩

/-! ## Requests keep the invariant -/

section Serve

variable {v v' : QueueView} {q' : TaskQueue} {r : Request} {es : List Event}

/-- A queue that goes leaves the history of a queue that was thrown away. -/
theorem QueueOk.gone (h : QueueOk k q v.log) (hf : r.Fits k v) (hg : Gone k q r es) :
    ∃ ws r, Discarded (jobEvents k (v.log ++ es)) ws r := by
  cases hg with
  | start _ _ _ | removeMarked _ _ _ | drop => exact h.dropped
  | drained _ _ => exact discarded (q := q.drain) h.drained
  | completed hc _ _ =>
    exact discarded (q := { q.drain with currentTask := none }) (h.cancelCompleted hc)
  | left hc _ => exact discarded (q := q.drain) (h.cancelRunning hc)
  | complete _ | lastComplete =>
    exact discarded (q := { q with currentTask := none }) (h.completed (h.current_of_inFlight hf))

/-- A queue that stays keeps its invariant. -/
theorem QueueOk.kept (h : QueueOk k q v.log) (hp : v.pending = q.idleId) (hf : r.Fits k v)
    (hk : Kept k q r q' es) : QueueOk k q' (v.log ++ es) := by
  have hadd : ∀ {t}, t ∉ addedTasks k v.log →
      History (jobEvents k (v.log ++ [.addTask k t])) (q.tasks ++ [t]) q.currentTask := by
    intro t ht
    rw [jobEvents_append]
    simpa [jobEvents, jobEvent] using h.history.add ht
  cases hk with
  | start | cancelMarked _ | removeDeferred _ => rwa [List.append_nil]
  | setFinally | setUserData =>
    rw [List.append_nil]
    exact ⟨h.history, h.idle, h.deferred, h.started, h.lingers⟩
  | startWaiting hd ht hc =>
    rw [List.append_nil]
    exact
      { history := h.history
        idle := fun _ => ⟨hc, ht⟩
        deferred := h.deferred
        started := fun _ _ => Or.inr one_ne_zero
        lingers := fun _ _ => Or.inr ht }
  | addTask hw =>
    exact
      { history := hadd hf
        idle := fun hi => ⟨(h.idle hi).1, by simp⟩
        deferred := h.deferred
        started := fun ha _ => by
          cases hd : q.deferRemove with
          | true => exact Or.inl (h.deferred hd).1
          | false => exact hw hd ha
        lingers := fun _ _ => Or.inr (by simp) }
  | addTaskStart hd ha hc =>
    exact
      { history := hadd hf
        idle := fun _ => ⟨hc, by simp⟩
        deferred := h.deferred
        started := fun _ _ => Or.inr one_ne_zero
        lingers := fun _ _ => Or.inr (by simp) }
  | cancelIdle hc ha =>
    exact
      { history := h.drained
        idle := fun hi => absurd rfl hi
        deferred := fun hd => ⟨(h.deferred hd).1, rfl⟩
        started := fun _ ht => absurd rfl ht
        lingers := fun ha' => absurd (ha.symm.trans ha') Bool.false_ne_true }
  | cancelRunning hc hs =>
    exact .of_running (by simp [TaskQueue.drain, hc]) rfl (fun _ => rfl) (h.cancelRunning hc)
  | cancelCompleted hcan hc hs hd ha =>
    exact
      { history := h.cancelCompleted hc
        idle := fun hi => absurd rfl hi
        deferred := fun hd' => absurd (hd.symm.trans hd') Bool.false_ne_true
        started := fun _ ht => absurd rfl ht
        lingers := fun ha' => absurd (ha.symm.trans ha') Bool.false_ne_true }
  | removeMarked hc hcan =>
    exact .of_running (by simp [hc]) (h.idle_of_running hc) (fun _ => hcan)
      (by rw [List.append_nil]; exact h.history)
  | removeRunning hc hs =>
    exact .of_running (by simp [TaskQueue.drain, hc]) rfl (fun _ => rfl) (h.cancelRunning hc)
  | complete hd ht ha =>
    have hc := h.current_of_inFlight hf
    exact
      { history := h.completed hc
        idle := fun hi => absurd (h.idle_of_running hc) hi
        deferred := fun hd' => absurd (hd.symm.trans hd') Bool.false_ne_true
        started := fun _ ht' => absurd ht ht'
        lingers := fun ha' => absurd (ha.symm.trans ha') Bool.false_ne_true }
  | completeNext hd ht =>
    exact
      { history := h.completed (h.current_of_inFlight hf)
        idle := fun _ => ⟨rfl, ht⟩
        deferred := fun hd' => absurd (hd.symm.trans hd') Bool.false_ne_true
        started := fun _ _ => Or.inr one_ne_zero
        lingers := fun _ _ => Or.inr ht }
  | @dispatch t ts ht =>
    have hc := (h.idle (hp ▸ hf)).1
    have hh := h.history
    rw [ht, hc] at hh
    exact .of_running (by simp) rfl (fun hd => absurd hc (h.deferred hd).1)
      (by simpa [jobEvents, jobEvent] using hh.begin)

/-- Every request keeps the invariant. -/
theorem serve_ok {r : Option Request} (hv : v.Ok k) (hr : ∀ r', r = some r' → r'.Fits k v)
    (hs : v.serve? k r = .ok v') : v'.Ok k := by
  cases served_of_serve? hs with
  | idle | absent _ _ => exact hv
  | @added flags hq =>
    have hlog : v.log = [] := hr _ rfl
    refine QueueOk.put ⟨?_, fun h => absurd rfl h, ?_, fun _ h => absurd rfl h, fun _ h => ?_⟩
    · rw [hlog]
      exact .nil
    · simp [TaskQueue.new]
    · rw [hlog] at h
      exact absurd rfl h
  | gone hq hg => exact (hv.of_some hq).2.gone (hr _ rfl) hg
  | kept hq hk =>
    obtain ⟨hp, hok⟩ := hv.of_some hq
    exact QueueOk.put (hok.kept hp (hr _ rfl) hk)

end Serve

/-! ## Runs -/

@[simp] theorem processedTasks_append (l l' : List Event) :
    processedTasks k (l ++ l') = processedTasks k l ++ processedTasks k l' := by
  simp [processedTasks]

@[simp] theorem completedTasks_append (l l' : List Event) :
    completedTasks k (l ++ l') = completedTasks k l ++ completedTasks k l' := by
  simp [completedTasks]

@[simp] theorem cancelledTasks_append (l l' : List Event) :
    cancelledTasks k (l ++ l') = cancelledTasks k l ++ cancelledTasks k l' := by
  simp [cancelledTasks]

/-- A task added to one queue was added. -/
theorem mem_allAdded {t : TaskAtom} (h : t ∈ addedTasks k log) : t ∈ allAdded log := by
  obtain ⟨je, hje, ht⟩ := List.mem_filterMap.mp h
  obtain ⟨e, he, hj⟩ := List.mem_filterMap.mp hje
  cases taskEvent_of_jobEvent hj with
  | added t' =>
    obtain rfl := Option.some.inj ht
    exact List.mem_filterMap.mpr ⟨_, he, rfl⟩
  | begun _ _ | finished _ | cancelled _ _ | deleted _ _ => cases ht

theorem inFlight_logOf {w : World} {t : TaskAtom} :
    InFlight (w.logOf k) k t ↔ InFlight w.log k t := by
  simp [InFlight, processedTasks, completedTasks]

/-- The guard of a step is what each queue is promised. -/
theorem fits_of_guard {w : World} {op : Op} {r : Request} (hg : Guard w op)
    (he : effect w op k = some r) : r.Fits k (w.view k) := by
  cases asked_of_effect he with
  | addQueue _ => exact hg.2.1
  | addTask task =>
    intro hm
    exact hg (mem_allAdded (by simpa [addedTasks, World.view] using hm))
  | complete _ _ | completeLast _ _ => exact inFlight_logOf.mpr hg
  | dispatch =>
    obtain ⟨⟨id, s⟩, hs, rfl⟩ := List.mem_map.mp hg
    exact (List.length_pos_of_mem (mem_pendingOf.mpr hs)).ne'
  | start | cancel _ _ | cancelLast _ _ | cancelOther _ _ _ | removeForSource _ | removeForSink _
  | reached _ _ _ | passed _ _ | completeOther _ _ _ | setFinally _ | setUserData _ => trivial

/-- The invariant of the processor. -/
structure Inv (w : World) : Prop where
  sources : SourcesOk w
  queues : ∀ k, (w.view k).Ok k

theorem Inv.queueOk {w : World} (h : Inv w) (hq : w.taskQueues.find? k = some q) :
    QueueOk k q.shape (w.logOf k) :=
  ((h.queues k).of_some (by simp [World.view, hq])).2

/-- A task in flight on a registered queue is its running task. -/
theorem Inv.current_of_inFlight {w : World} (h : Inv w) (hq : w.taskQueues.find? k = some q)
    {t : TaskAtom} (ht : InFlight w.log k t) : q.currentTask = some t := by
  refine (h.queueOk hq).current_of_inFlight ?_
  simpa [InFlight, processedTasks, completedTasks] using ht

/-- A step that does not fault answers the requests that it makes. -/
theorem Inv.simulates {w w' : World} {op : Op} (h : Inv w) (hg : Guard w op)
    (hs : step w op = .ok w') : Simulates w op w' := by
  refine step_simulates h.sources ?_ hg hs
  rintro k t q rfl hq
  have := (h.queueOk hq).idle_of_running (h.current_of_inFlight hq hg)
  simpa using this

theorem Inv.step {w w' : World} {op : Op} (h : Inv w) (hg : Guard w op)
    (hs : DleynaCore.step w op = .ok w') : Inv w' where
  sources := (h.simulates hg hs).sources
  queues := fun k =>
    serve_ok (h.queues k) (fun _ he => fits_of_guard hg he) ((h.simulates hg hs).view k)

theorem inv_new : Inv World.new where
  sources := sourcesOk_new
  queues := fun _ => ⟨[], none, .of_history .nil⟩

/-- The invariant holds in every run, whatever the condition on its steps. -/
theorem inv_run {P : World → Op → Prop} {ops : List Op} {w : World}
    (h : processor.Run P ops w) : Inv w :=
  h.invariant inv_new fun _ _ _ _ _ hI hg _ hs => hI.step hg hs

end DleynaCore
