import DleynaCore.TaskProcessor.Progress
import DleynaCore.TaskProcessor.Proofs.CompletionProofs
import DleynaCore.TaskProcessor.Proofs.DispatchProofs
import DleynaCore.TaskProcessor.Proofs.FinallyProofs

/-!
# The processor finishes its work

Each dispatch and each completion lowers the work that is ahead, and where no flight was lost and no
dispatch was left stale none of them faults. So the processor settles, and what it has done for each
queue is read off an invariant of the queue alone.
-/

namespace DleynaCore

variable {w w' w0 : World} {k : TaskQueueKey} {q q0 : TaskQueue} {ops : List Op} {v v' v0 : QueueView}
  {r : Request}

/-! ## Runs that keep their queues -/

/-- What holds when no task in flight and no dispatch was left behind. -/
structure Kempt (w : World) : Prop where
  inv : Inv w
  flights : FlightInv w
  settled : ∀ k, (w.view k).Settled

theorem kempt_run (h : processor.Run KeepsQueues ops w) : Kempt w where
  inv := inv_run h
  flights := flightInv_run (h.mono fun _ _ hP => hP.1)
  settled := settled_run (h.mono fun _ _ hP => hP.2)

theorem kempt_step {op : Op} (h : Kempt w) (hg : Guard w op) (hc : KeepsQueues w op)
    (hs : step w op = .ok w') : Kempt w' where
  inv := h.inv.step hg hs
  flights := flightInv_step h.inv h.flights hg hc.1 hs
  settled := settled_step h.inv h.settled hg hc.2 hs

/-- A task in flight runs in a registered queue. -/
theorem Kempt.registered (h : Kempt w) {t : TaskAtom} (ht : InFlight w.log k t) :
    ∃ q, w.taskQueues.find? k = some q ∧ q.currentTask = some t := by
  cases hq : w.taskQueues.find? k with
  | some q => exact ⟨q, rfl, h.inv.current_of_inFlight hq ht⟩
  | none =>
    have hbal := h.flights.balanced k (by simp [World.view, hq])
    have hfl := inFlight_logOf.mpr ht
    exact absurd (hbal ▸ hfl.1) hfl.2

/-- A pending dispatch finds its queue, with a task to start. -/
theorem Kempt.ready (h : Kempt w) (hk : IdleSource.processTask k ∈ w.sources.map Prod.snd) :
    ∃ q, w.taskQueues.find? k = some q ∧ q.idleId ≠ 0 ∧ q.tasks ≠ [] := by
  obtain ⟨⟨id, s⟩, hm, rfl⟩ := List.mem_map.mp hk
  have hp := mem_pendingOf.mpr hm
  cases hq : w.taskQueues.find? k with
  | none =>
    have h0 := h.settled k (by simp [World.view, hq])
    rw [show (w.view k).pending = (w.pendingOf k).length from rfl, List.length_eq_zero_iff] at h0
    simp [h0] at hp
  | some q =>
    obtain ⟨hi, -⟩ := pending_unique h.inv.sources hq hk
    have hok := (h.inv.queueOk hq).idle fun hz => hi ((shape_idleId_eq_zero q).mp hz)
    exact ⟨q, rfl, hi, hok.2⟩

/-- Neither a dispatch nor a completion faults. -/
theorem Kempt.advances (h : Kempt w) {op : Op} (hg : Guard w op) (ha : Advances w op) :
    ∃ w', step w op = .ok w' := by
  cases op with
  | dispatch k =>
    obtain ⟨q, hq, -, ht⟩ := h.ready hg
    obtain ⟨t, ts, hts⟩ := List.exists_cons_of_ne_nil ht
    have hqd : (detach w (.processTask k)).taskQueues.find? k = some q := hq
    simp only [step, dispatchProcessTask, prvProcessTask, hqd, hts]
    exact ⟨_, rfl⟩
  | taskCompleted k t =>
    obtain ⟨q, hq, -⟩ := h.registered hg
    simp only [step, dleynaTaskQueueTaskCompleted, World.emit_taskQueues, hq]
    exact ⟨_, rfl⟩
  | _ => exact ha.elim

/-- While the processor is not quitting, dispatches and completions leave nothing behind. -/
theorem keepsQueues_advances {op : Op} (hqt : w.quitting = false) (ha : Advances w op) :
    KeepsQueues w op := by
  cases op with
  | dispatch k => exact ⟨trivial, trivial⟩
  | taskCompleted k t =>
    refine ⟨trivial, fun hl => ?_⟩
    simp [World.lastTask, hqt] at hl
  | _ => exact ha.elim

/-! ## The work ahead -/

@[simp] theorem active_shape (q : TaskQueue) : q.shape.active = q.active := by
  unfold TaskQueue.active TaskQueue.busy
  rw [shape_currentTask]
  by_cases h : q.idleId = 0 <;> simp [TaskQueue.shape, h]

@[simp] theorem work_shape (q : TaskQueue) : q.shape.work = q.work := by
  unfold TaskQueue.work TaskQueue.busy
  rw [active_shape, shape_tasks, shape_currentTask]

/-- What a queue has ahead of it, as far as it can be seen. -/
def QueueView.work (v : QueueView) : Nat := (v.queue.map TaskQueue.work).getD 0

theorem view_work (w : World) (k : TaskQueueKey) :
    (w.view k).work = ((w.taskQueues.find? k).map TaskQueue.work).getD 0 := by
  simp [QueueView.work, World.view, Option.map_map, Function.comp_def]

/-- A step on one queue alone changes the work by that of the queue. -/
theorem work_step {op : Op} (hS : Simulates w op w') (he : ∀ k', k' ≠ k → effect w op k' = none) :
    w'.work + (w.view k).work = w.work + (w'.view k).work := by
  rw [view_work, view_work]
  refine HashTable.total_eq_of_find?_ne k fun k' hk => ?_
  have hv := hS.view k'
  rw [he k' hk] at hv
  have hq : (w'.view k').queue = (w.view k').queue := by rw [← Except.ok.inj hv]
  have hmap := congrArg (Option.map TaskQueue.work) hq
  simpa [World.view, Option.map_map, Function.comp_def] using hmap

/-- What a dispatch makes of a queue. -/
theorem of_serve_dispatch (hs : v.serve k .dispatch = .ok v') : ∃ q t ts, v.queue = some q ∧
    q.tasks = t :: ts ∧ v' = v.put false
      (some { q with cancelled := false, idleId := 0, currentTask := some t, tasks := ts })
      [.processCb k t q.userData] := by
  unfold QueueView.serve at hs
  cases hq : v.queue with
  | none => simp [hq] at hs
  | some q =>
    cases ht : q.tasks with
    | nil => simp [hq, TaskQueue.serve, ht] at hs
    | cons t ts =>
      refine ⟨q, t, ts, rfl, ht, ?_⟩
      simpa [hq, TaskQueue.serve, ht, TaskQueue.stops, eq_comm] using hs

/-- What a completion makes of a queue. -/
theorem of_serve_complete {t : TaskAtom} (hs : v.serve k (.complete t) = .ok v') :
    ∃ q, v.queue = some q ∧ v' = v.put false (q.finish k).1
      ([.completed k t] ++ q.deleteCurrent k ++ (q.finish k).2) := by
  unfold QueueView.serve at hs
  cases hq : v.queue with
  | none => simp [hq] at hs
  | some q =>
    refine ⟨q, rfl, ?_⟩
    simpa [hq, TaskQueue.serve, TaskQueue.stops, eq_comm] using hs

theorem work_serve_dispatch (hv : v.Ok k) (hf : Request.dispatch.Fits k v)
    (hs : v.serve k .dispatch = .ok v') : v'.work < v.work := by
  obtain ⟨q, t, ts, hq, ht, rfl⟩ := of_serve_dispatch hs
  obtain ⟨hp, hok⟩ := hv.of_some hq
  have hi : q.idleId ≠ 0 := by
    rw [← hp]
    exact hf
  have hc := (hok.idle hi).1
  have hold : v.work = 2 * (ts.length + 1) := by
    simp [QueueView.work, hq, TaskQueue.work, TaskQueue.active, TaskQueue.busy, hi, hc, ht]
  have hnew : (v.put false (some { q with cancelled := false, idleId := 0, currentTask := some t, tasks := ts })
      [.processCb k t q.userData]).work = 2 * ts.length + 1 := by
    simp [QueueView.work, QueueView.put, TaskQueue.work, TaskQueue.active, TaskQueue.busy]
  omega

theorem work_serve_complete {t : TaskAtom} (hv : v.Ok k) (hf : (Request.complete t).Fits k v)
    (hs : v.serve k (.complete t) = .ok v') : v'.work < v.work := by
  obtain ⟨q, hq, rfl⟩ := of_serve_complete hs
  have hc := (hv.of_some hq).2.current_of_inFlight hf
  have hold : v.work = 2 * q.tasks.length + 1 := by
    simp [QueueView.work, hq, TaskQueue.work, TaskQueue.active, TaskQueue.busy, hc]
  have hnew : ((q.finish k).1.map TaskQueue.work).getD 0 ≤ 2 * q.tasks.length := by
    rcases finish_cases k q with ⟨h, -⟩ | ⟨h, -, -⟩ | ⟨h, -, ht, -⟩
    · simp [h]
    · simp [h, TaskQueue.work, TaskQueue.active, TaskQueue.busy]
    · simp [h, TaskQueue.work, TaskQueue.busy, ht]
  have : (v.put false (q.finish k).1 ([.completed k t] ++ q.deleteCurrent k ++ (q.finish k).2)).work =
      ((q.finish k).1.map TaskQueue.work).getD 0 := rfl
  omega

/-- Every dispatch and every completion lowers the work that is ahead. -/
theorem work_lt {op : Op} (hI : Inv w) (hg : Guard w op) (ha : Advances w op)
    (hs : step w op = .ok w') : w'.work < w.work := by
  have hS := hI.simulates hg hs
  cases op with
  | dispatch k =>
    have he : effect w (.dispatch k) k = some .dispatch := if_pos rfl
    have hv := hS.view k
    rw [he] at hv
    have hlt := work_serve_dispatch (hI.queues k) (fits_of_guard hg he) hv
    have hsum := work_step (k := k) hS fun k' hk => if_neg hk
    omega
  | taskCompleted k t =>
    by_cases hl : w.lastTask = true
    · have hgone : ∀ k', (w'.view k').queue = none := by
        intro k'
        have hv := hS.view k'
        simp only [effect, if_pos hl] at hv
        refine serve_removes ?_ hv
        split <;> rfl
      have hnil : w'.taskQueues.size = 0 :=
        HashTable.size_eq_zero.mpr fun k' => by simpa [World.view] using hgone k'
      have hzero : w'.work = 0 := by
        rw [HashTable.size, List.length_eq_zero_iff] at hnil
        simp [World.work, HashTable.total, hnil]
      have hv := hS.view k
      simp only [effect, if_pos hl, if_true] at hv
      cases hq : w.taskQueues.find? k with
      | none =>
        have hnone : (w.view k).queue = none := by simp [World.view, hq]
        simp [QueueView.serve?, QueueView.serve, hnone] at hv
      | some q =>
        have hc := hI.current_of_inFlight hq hg
        have hpos : 0 < (w.view k).work := by
          rw [view_work, hq]
          simp [TaskQueue.work, TaskQueue.active, TaskQueue.busy, hc]
        have hle := HashTable.total_erase w.taskQueues k TaskQueue.work
        rw [← view_work] at hle
        show w'.work < w.taskQueues.total TaskQueue.work
        omega
    · have he : effect w (.taskCompleted k t) k = some (.complete t) := by simp [effect, hl]
      have hv := hS.view k
      rw [he] at hv
      have hlt := work_serve_complete (hI.queues k) (fits_of_guard hg he) hv
      have hsum := work_step (k := k) hS fun k' hk => by simp [effect, hl, hk]
      omega
  | _ => exact ha.elim

/-! ## What each queue is served -/

/-- The record `q0` with the waiting tasks `rest` left of it. -/
def Left (q0 : TaskQueue) (done rest : List TaskAtom) (q : TaskQueue) : Prop :=
  q.tasks = rest ∧ q.taskQueueFinallyCb = q0.taskQueueFinallyCb ∧ q.deferRemove = false ∧
    q.flags = q0.flags ∧ q.userData = q0.userData ∧
    q.cancelled = (q0.cancelled && done.isEmpty) ∧
    (q.active = true ∨ rest = [] ∧ q0.autoRemove = false)

/-- Since `v0`, the tasks `done` of the queue `q0` have been processed, and the tasks `rest` wait. -/
structure Serving (k : TaskQueueKey) (q0 : TaskQueue) (v0 v : QueueView) (done rest : List TaskAtom) :
    Prop where
  tasks : q0.tasks = done ++ rest
  processed : processedTasks k v.log = processedTasks k v0.log ++ done
  cancelled : cancelledTasks k v.log = cancelledTasks k v0.log
  queue : match v.queue with
    | some q => Left q0 done rest q
    | none => rest = [] ∧ q0.autoRemove = true

theorem Serving.dispatch {done rest : List TaskAtom} (h : Serving k q0 v0 v done rest)
    (hs : v.serve k .dispatch = .ok v') : ∃ t ts, rest = t :: ts ∧
      Serving k q0 v0 v' (done ++ [t]) ts := by
  obtain ⟨q, t, ts, hq, ht, rfl⟩ := of_serve_dispatch hs
  obtain ⟨h1, h2, h3, h4, h5, h6, -⟩ : Left q0 done rest q := by simpa [hq] using h.queue
  have hrest : rest = t :: ts := h1.symm.trans ht
  refine ⟨t, ts, hrest, ?_, ?_, ?_, ?_⟩
  · rw [h.tasks, hrest, List.append_assoc]
    rfl
  · have hp : processedTasks k [.processCb k t q.userData] = [t] := by
      simp [processedTasks, jobEvents, jobEvent]
    rw [show (v.put false _ [.processCb k t q.userData]).log = v.log ++ _ from rfl,
      processedTasks_append, h.processed, hp, List.append_assoc]
  · have hc : cancelledTasks k [.processCb k t q.userData] = [] := by
      simp [cancelledTasks, jobEvents, jobEvent]
    rw [show (v.put false _ [.processCb k t q.userData]).log = v.log ++ _ from rfl,
      cancelledTasks_append, h.cancelled, hc, List.append_nil]
  · exact ⟨rfl, h2, h3, h4, h5, by simp, Or.inl (by simp [TaskQueue.active, TaskQueue.busy])⟩

theorem Serving.complete {done rest : List TaskAtom} {t : TaskAtom} (hv : v.Ok k)
    (hf : (Request.complete t).Fits k v) (h : Serving k q0 v0 v done rest)
    (hs : v.serve k (.complete t) = .ok v') : Serving k q0 v0 v' done rest := by
  obtain ⟨q, hq, rfl⟩ := of_serve_complete hs
  obtain ⟨h1, h2, h3, h4, h5, h6, -⟩ : Left q0 done rest q := by simpa [hq] using h.queue
  have hok := (hv.of_some hq).2
  have hi := hok.idle_of_running (hok.current_of_inFlight hf)
  have hauto : q.autoRemove = q0.autoRemove := by simp only [TaskQueue.autoRemove, h4]
  have hes : ∀ es, (es = [] ∨ es = freeCalls k q) →
      processedTasks k (v.log ++ ([.completed k t] ++ q.deleteCurrent k ++ es)) =
        processedTasks k v.log ∧
      cancelledTasks k (v.log ++ ([.completed k t] ++ q.deleteCurrent k ++ es)) =
        cancelledTasks k v.log := by
    rintro es hes
    have hfl := (flights_completed (k := k) (q := q) t).1
    rw [processedTasks_append, processedTasks_append _ es, hfl, cancelledTasks_append,
      cancelledTasks_append _ es, cancelledTasks_completed]
    rcases hes with rfl | rfl <;> simp [processedTasks, cancelledTasks, jobEvents_freeCalls]
  have hlog : (q.finish k).2 = [] ∨ (q.finish k).2 = freeCalls k q := by
    rcases finish_cases k q with ⟨h, -⟩ | ⟨h, -, -⟩ | ⟨h, -, -, -⟩ <;> simp [h]
  refine ⟨h.tasks, (hes _ hlog).1.trans h.processed, (hes _ hlog).2.trans h.cancelled, ?_⟩
  show match (q.finish k).1 with
    | some q => Left q0 done rest q
    | none => rest = [] ∧ q0.autoRemove = true
  -- the three ways in which `dleyna_task_queue_task_completed` goes on without a deferred removal
  cases ht : q.tasks with
  | cons t' ts =>
    have hfin : q.finish k = (some { q with currentTask := none, idleId := 1 }, []) := by
      simp [TaskQueue.finish, h3, ht]
    rw [hfin]
    exact ⟨h1, h2, h3, h4, h5, h6, Or.inl (by simp [TaskQueue.active])⟩
  | nil =>
    have hrest : rest = [] := h1.symm.trans ht
    cases ha : q.autoRemove with
    | true =>
      have hfin : q.finish k = (none, freeCalls k q) := by
        simp [TaskQueue.finish, h3, ht, ha]
      rw [hfin]
      exact ⟨hrest, hauto.symm.trans ha⟩
    | false =>
      have hfin : q.finish k = (some { q with currentTask := none }, []) := by
        simp [TaskQueue.finish, h3, ht, ha]
      rw [hfin]
      exact ⟨h1, h2, h3, h4, h5, h6, Or.inr ⟨hrest, hauto.symm.trans ha⟩⟩

/-- What is known of a queue since it was seen as `v0`: an active one is being served, a deferred
removal stays deferred until the queue is gone, and nothing happens to any other. -/
def Tracked (k : TaskQueueKey) (v0 v : QueueView) : Prop :=
  match v0.queue with
  | some q0 =>
    if q0.deferRemove then ∀ q, v.queue = some q → q.deferRemove = true
    else if q0.active then ∃ done rest, Serving k q0 v0 v done rest
    else v = v0
  | none => v = v0

theorem tracked_refl (k : TaskQueueKey) (v0 : QueueView) : Tracked k v0 v0 := by
  unfold Tracked
  cases hq : v0.queue with
  | none => rfl
  | some q0 =>
    by_cases hd : q0.deferRemove = true
    · simp only [if_pos hd]
      intro q h
      exact Option.some.inj h ▸ hd
    · by_cases ha : q0.active = true
      · simp only [if_neg hd, if_pos ha]
        refine ⟨[], q0.tasks, rfl, by simp, rfl, ?_⟩
        rw [hq]
        exact ⟨rfl, rfl, by simpa using hd, rfl, rfl, by simp, Or.inl ha⟩
      · simp only [if_neg hd, if_neg ha]

/-- A request that is only made of an active queue keeps track of the queue. -/
theorem tracked_serve (hv : v.Ok k) (h : Tracked k v0 v)
    (hr : r = .dispatch ∨ ∃ t, r = .complete t) (hf : r.Fits k v)
    (hact : ∃ q, v.queue = some q ∧ q.active = true)
    (hs : v.serve k r = .ok v') : Tracked k v0 v' := by
  obtain ⟨q1, hq1, hact⟩ := hact
  unfold Tracked at h ⊢
  cases hq : v0.queue with
  | none =>
    simp only [hq] at h
    rw [h, hq] at hq1
    cases hq1
  | some q0 =>
    simp only [hq] at h ⊢
    by_cases hd : q0.deferRemove = true
    · simp only [if_pos hd] at h ⊢
      have hd1 := h q1 hq1
      rcases hr with rfl | ⟨t, rfl⟩
      · obtain ⟨q, t, ts, hq', -, rfl⟩ := of_serve_dispatch hs
        rintro q2 hq2
        obtain rfl := Option.some.inj hq2
        exact h q hq'
      · obtain ⟨q, hq', rfl⟩ := of_serve_complete hs
        have hfin : q.finish k = (none, freeCalls k q) := by
          simp [TaskQueue.finish, h q hq']
        intro q2 hq2
        simp [QueueView.put, hfin] at hq2
    · by_cases ha : q0.active = true
      · simp only [if_neg hd, if_pos ha] at h ⊢
        obtain ⟨done, rest, h⟩ := h
        rcases hr with rfl | ⟨t, rfl⟩
        · obtain ⟨t, ts, -, h'⟩ := h.dispatch hs
          exact ⟨_, _, h'⟩
        · exact ⟨_, _, h.complete hv hf hs⟩
      · simp only [if_neg hd, if_neg ha] at h
        rw [h, hq] at hq1
        obtain rfl := Option.some.inj hq1
        exact absurd hact ha

/-- Dispatches and completions are requests to active queues alone. -/
theorem effect_advances {op : Op} (hK : Kempt w) (hqt : w.quitting = false) (hg : Guard w op)
    (ha : Advances w op) (he : effect w op k = some r) :
    (r = .dispatch ∨ ∃ t, r = .complete t) ∧ ∃ q, (w.view k).queue = some q ∧ q.active = true := by
  have hl : w.lastTask = false := by simp [World.lastTask, hqt]
  cases op with
  | dispatch k' =>
    simp only [effect] at he
    split at he
    · next hk =>
      subst hk
      obtain ⟨q, hq, hi, -⟩ := hK.ready hg
      exact ⟨Or.inl (Option.some.inj he).symm, q.shape, by simp [World.view, hq],
        by simp [TaskQueue.active, hi]⟩
    · cases he
  | taskCompleted k' t =>
    simp only [effect, hl, Bool.false_eq_true, if_false] at he
    split at he
    · next hk =>
      subst hk
      obtain ⟨q, hq, hc⟩ := hK.registered hg
      exact ⟨Or.inr ⟨t, (Option.some.inj he).symm⟩, q.shape, by simp [World.view, hq],
        by simp [TaskQueue.active, TaskQueue.busy, hc]⟩
    · cases he
  | _ => exact ha.elim

/-- What is known when some time has passed since `w0`, and no client has called the processor. -/
structure LeftAlone (w0 w : World) : Prop where
  kempt : Kempt w
  quitting : w.quitting = false
  tracked : ∀ k, Tracked k (w0.view k) (w.view k)

theorem leftAlone_step {op : Op} (h : LeftAlone w0 w) (hg : Guard w op) (ha : Advances w op)
    (hs : step w op = .ok w') : LeftAlone w0 w' where
  kempt := kempt_step h.kempt hg (keepsQueues_advances h.quitting ha) hs
  quitting := by
    rw [quitting_step h.kempt.inv hg hs fun sync he => ?_]
    · exact h.quitting
    · subst he
      exact ha
  tracked := by
    intro k
    have hv := (h.kempt.inv.simulates hg hs).view k
    cases he : effect w op k with
    | none =>
      rw [he] at hv
      rw [← Except.ok.inj hv]
      exact h.tracked k
    | some r =>
      rw [he] at hv
      obtain ⟨hr, hact⟩ := effect_advances h.kempt h.quitting hg ha he
      exact tracked_serve (h.kempt.inv.queues k) (h.tracked k) hr (fits_of_guard hg he) hact hv

/-! ## The processor at rest -/

theorem shape_eq_self (h : q.idleId = 0) : q.shape = q := by
  unfold TaskQueue.shape
  rw [if_pos h, ← h]

theorem rests_pending (hr : processor.Rests Advances w) (k : TaskQueueKey) : w.pendingOf k = [] := by
  refine List.eq_nil_iff_forall_not_mem.mpr fun id hid => ?_
  exact hr (.dispatch k) (List.mem_map.mpr ⟨_, mem_pendingOf.mp hid, rfl⟩) trivial

theorem rests_flights (hr : processor.Rests Advances w) (k : TaskQueueKey) (t : TaskAtom) :
    ¬ InFlight w.log k t :=
  fun ht => hr (.taskCompleted k t) ht trivial

/-- At rest no queue is active. -/
theorem rests_inactive (hI : Inv w) (hr : processor.Rests Advances w)
    (hq : w.taskQueues.find? k = some q) : q.currentTask = none ∧ q.idleId = 0 := by
  have hp := hI.sources.linked k q hq
  rw [rests_pending hr k] at hp
  refine ⟨Option.eq_none_iff_forall_ne_some.mpr fun t hc => ?_, ?_⟩
  · exact rests_flights hr k t (hI.inFlight hq hc)
  · by_contra hi
    simp [hi] at hp

/-- At rest every task that was processed has completed. -/
theorem rests_completed (hK : Kempt w) (hr : processor.Rests Advances w) (k : TaskQueueKey) :
    completedTasks k w.log = processedTasks k w.log := by
  cases hq : w.taskQueues.find? k with
  | none =>
    have hbal := hK.flights.balanced k (by simp [World.view, hq])
    simpa [World.view, processedTasks, completedTasks] using hbal.symm
  | some q =>
    have hh := (hK.inv.queueOk hq).history.begun_eq
    rw [shape_currentTask, (rests_inactive hK.inv hr hq).1, jobEvents_logOf, Option.toList_none,
      List.append_nil] at hh
    exact hh.symm

/-- What is left of a queue that has been served. -/
theorem Serving.rests {done rest : List TaskAtom} (hI : Inv w) (hr : processor.Rests Advances w)
    (hd : q0.deferRemove = false) (h : Serving k q0.shape v0 (w.view k) done rest) : rest = [] ∧
      w.taskQueues.find? k = if q0.autoRemove then none else some q0.served := by
  have hqueue := h.queue
  have htasks : q0.tasks = done ++ rest := h.tasks
  cases hq : w.taskQueues.find? k with
  | none =>
    simp only [World.view, hq, Option.map_none] at hqueue
    refine ⟨hqueue.1, ?_⟩
    rw [if_pos (by simpa using hqueue.2)]
  | some q =>
    simp only [World.view, hq, Option.map_some] at hqueue
    obtain ⟨hc, hi⟩ := rests_inactive hI hr hq
    rw [shape_eq_self hi] at hqueue
    obtain ⟨h1, h2, h3, h4, h5, h6, hlast⟩ := hqueue
    rcases hlast with hact | ⟨hrest, hauto⟩
    · simp [TaskQueue.active, TaskQueue.busy, hc, hi] at hact
    refine ⟨hrest, ?_⟩
    rw [if_neg (by simpa using hauto)]
    rw [hrest, List.append_nil] at htasks
    cases q
    simp_all [TaskQueue.served, TaskQueue.shape]

/-- A record with no dispatch pending is seen as it is. -/
theorem find?_shape (hS : SourcesOk w) (hp : w.pendingOf k = []) :
    (w.taskQueues.find? k).map TaskQueue.shape = w.taskQueues.find? k := by
  cases hq : w.taskQueues.find? k with
  | none => rfl
  | some q =>
    have hl := hS.linked k q hq
    rw [hp] at hl
    have hi : q.idleId = 0 := by
      by_contra hi
      simp [hi] at hl
    rw [Option.map_some, shape_eq_self hi]

/-- Where no dispatch is pending, a queue that looks the same has not changed. -/
theorem unchanged_of_view (hS : SourcesOk w) (hS' : SourcesOk w') (hp : w.pendingOf k = [])
    (hp' : w'.pendingOf k = []) (hview : w'.view k = w.view k) : Unchanged k w w' := by
  refine ⟨?_, hp'.trans hp.symm, congrArg QueueView.log hview⟩
  have hqueue : (w'.taskQueues.find? k).map TaskQueue.shape =
      (w.taskQueues.find? k).map TaskQueue.shape := congrArg QueueView.queue hview
  rwa [find?_shape hS' hp', find?_shape hS hp] at hqueue

/-- What has become of the queues when the processor, left alone since `w0`, has come to rest. -/
theorem LeftAlone.servedOut (hK0 : Kempt w0) (h : LeftAlone w0 w)
    (hr : processor.Rests Advances w) : ServedOut w0 w where
  pending := rests_pending hr
  flights := rests_flights hr
  running := by
    rw [h.kempt.flights.running, HashTable.count_eq_zero]
    intro k q hq
    simp [TaskQueue.busy, (rests_inactive h.kempt.inv hr hq).1]
  served := by
    intro k q hq hact hd
    have ht := h.tracked k
    have hv : (w0.view k).queue = some q.shape := by simp [World.view, hq]
    simp only [Tracked, hv, shape_deferRemove, hd, active_shape, hact, if_true, Bool.false_eq_true,
      if_false] at ht
    obtain ⟨done, rest, hS⟩ := ht
    obtain ⟨hrest, hfind⟩ := hS.rests h.kempt.inv hr hd
    have hdone : q.tasks = done := by simpa [hrest] using hS.tasks
    refine ⟨?_, rests_completed h.kempt hr k, ?_, hfind⟩
    · simpa [World.view, processedTasks, hdone] using hS.processed
    · simpa [World.view, cancelledTasks] using hS.cancelled
  deferred := by
    intro k q hq hd
    have ht := h.tracked k
    have hv : (w0.view k).queue = some q.shape := by simp [World.view, hq]
    simp only [Tracked, hv, shape_deferRemove, hd, if_true] at ht
    cases hq' : w.taskQueues.find? k with
    | none => rfl
    | some q' =>
      have hd' : q'.shape.deferRemove = true := ht q'.shape (by simp [World.view, hq'])
      have hc := ((h.kempt.inv.queueOk hq').deferred hd').1
      exact absurd (rests_inactive h.kempt.inv hr hq').1 hc
  others := by
    intro k hk
    have hview : w.view k = w0.view k := by
      have ht := h.tracked k
      unfold Tracked at ht
      cases hq : w0.taskQueues.find? k with
      | none =>
        have hv : (w0.view k).queue = none := by simp [World.view, hq]
        simpa only [hv] using ht
      | some q =>
        have hv : (w0.view k).queue = some q.shape := by simp [World.view, hq]
        have hact := hk q hq
        have hd : q.deferRemove = false := by
          by_contra hd
          have hc := ((hK0.inv.queueOk hq).deferred (by simpa using hd)).1
          obtain ⟨t, ht⟩ := Option.ne_none_iff_exists'.mp hc
          rw [shape_currentTask] at ht
          simp [TaskQueue.active, TaskQueue.busy, ht] at hact
        simpa only [hv, shape_deferRemove, hd, active_shape, hact, Bool.false_eq_true, if_false]
          using ht
    have hpend : w0.pendingOf k = [] := by
      have hp := rests_pending hr k
      have hlen : (w0.pendingOf k).length = (w.pendingOf k).length :=
        (congrArg QueueView.pending hview).symm
      rwa [hp, List.length_nil, List.length_eq_zero_iff] at hlen
    exact unchanged_of_view hK0.inv.sources h.kempt.inv.sources hpend (rests_pending hr k) hview
  started := by
    intro k q hq ha
    obtain ⟨hc, hi⟩ := rests_inactive h.kempt.inv hr hq
    by_contra ht
    rcases (h.kempt.inv.queueOk hq).started ((shape_autoStart q).trans ha) ht with h' | h'
    · exact h' hc
    · exact h' ((shape_idleId_eq_zero q).mpr hi)

/-- Left alone, the processor settles: it takes no more steps than are ahead, none of them faults, and
where it comes to rest the queues have been served. -/
theorem settles_run (h : processor.Run KeepsQueues ops w) (hqt : w.quitting = false) :
    processor.Settles Advances w.work (ServedOut w) w := by
  have hK := kempt_run h
  refine System.settles_of_measure (I := LeftAlone w) (m := World.work)
    ⟨hK, hqt, fun k => tracked_refl k _⟩ ?_ ?_ ?_
  · intro w1 op w2 hw hg ha hs
    exact ⟨leftAlone_step hw hg ha hs, work_lt hw.kempt.inv hg ha hs⟩
  · intro w1 op hw hg ha
    exact hw.kempt.advances hg ha
  · intro w1 hw hr
    exact hw.servedOut hK hr

/-- One queue runs a task and has two more, another is scheduled, and a third one is to be removed
when its task completes. -/
def threeQueues : List Op :=
  [.addQueue ⟨1, "a", "b"⟩ 3, .addTask ⟨1, "a", "b"⟩ 7, .addTask ⟨1, "a", "b"⟩ 8,
    .dispatch ⟨1, "a", "b"⟩, .addTask ⟨1, "a", "b"⟩ 9, .addQueue ⟨2, "c", "b"⟩ 0,
    .addTask ⟨2, "c", "b"⟩ 10, .start ⟨2, "c", "b"⟩, .addQueue ⟨3, "d", "b"⟩ 1,
    .addTask ⟨3, "d", "b"⟩ 11, .dispatch ⟨3, "d", "b"⟩, .removeQueuesForSource "d" fun _ => false]

theorem settles_threeQueues :
    processor.Settles Advances (processor.final KeepsQueues threeQueues).work
      (ServedOut (processor.final KeepsQueues threeQueues)) (processor.final KeepsQueues threeQueues) :=
  settles_run (System.run_final (by decide)) (by decide)

end DleynaCore
