import DleynaCore.ServiceTask.Proofs.ContinuesProofs
import DleynaCore.ServiceTask.Proofs.StepsProofs
import DleynaCore.TaskProcessor.Proofs.CancelledOnceProofs
import DleynaCore.TaskProcessor.Proofs.QuitTraversalProofs
import DleynaCore.TaskProcessor.Proofs.RunningProofs
import DleynaCore.TaskProcessor.Proofs.UnchangedProofs

/-!
# Failed steps

A `t_action` that fails without an action makes `dleyna_service_task_process_cb` cancel the queue that
is being processed, and then complete the task. The cancel drains the queue and leaves the task alone,
as its action is `NULL`, so the completion deletes it and finds no task to go on with.
-/

namespace DleynaCore

variable {w w' w'' : ServiceWorld} {p : World} {k : TaskQueueKey} {q queue : TaskQueue}
  {t task : TaskAtom} {ts tasks : List TaskAtom} {s : ServiceTask} {c : Phase} {u : Gpointer}
  {P : World → Op → Prop} {ops : List ServiceOp} {es es' : List Event} {added : List TaskArgs}

theorem lifts_any : Lifts Any where
  dispatch := fun _ _ => trivial
  taskCompleted := fun _ _ _ => trivial
  cancelQueue := fun _ _ _ => trivial

theorem onCalls_any (w : ServiceWorld) (cs : List Call) : OnCalls Any w cs := by
  induction cs generalizing w with
  | nil => trivial
  | cons cl cs ih =>
    refine ⟨fun _ _ => trivial, ?_⟩
    cases call w cl with
    | error fault => trivial
    | ok w' => exact ih w'

theorem onClient_any (w : ServiceWorld) (op : ServiceOp) : OnClient Any w op := by
  cases op with
  | call cl => exact fun _ _ => trivial
  | dispatch queueId cs action failed =>
    show OnOk _ (takeTask w queueId)
    cases takeTask w queueId with
    | error fault => trivial
    | ok x => exact onCalls_any x.2 cs
  | actionCb action task cs =>
    show OnOk _ (endAction w action task)
    cases endAction w action task with
    | error fault => trivial
    | ok w1 => exact onCalls_any w1 cs
  | setQuitting | dispatchQuit | rehash taskQueues => trivial

/-- The invariant holds in every run. -/
theorem serviceInv_any {P : ServiceWorld → ServiceOp → Prop} (h : service.Run P ops w) :
    ServiceInv Any .idle w :=
  serviceInv_run lifts_any (h.mono fun w op _ => onClient_any w op)

/-! ## Freeing tasks -/

/-- The tasks are freed, in this order. -/
def ServiceWorld.freeTasks (w : ServiceWorld) (ts : List TaskAtom) : ServiceWorld :=
  { w with
    tasks := fun t => if t ∈ ts then none else w.tasks t
    history := w.history ++ ts.flatMap w.freeCalls }

@[simp] theorem freeTasks_processor (w : ServiceWorld) (ts : List TaskAtom) :
    (w.freeTasks ts).processor = w.processor := rfl

@[simp] theorem freeTasks_actions (w : ServiceWorld) (ts : List TaskAtom) :
    (w.freeTasks ts).actions = w.actions := rfl

theorem freeTasks_tasks (w : ServiceWorld) (ts : List TaskAtom) (t : TaskAtom) :
    (w.freeTasks ts).tasks t = if t ∈ ts then none else w.tasks t := rfl

theorem freeTasks_nil (w : ServiceWorld) : w.freeTasks [] = w := by
  simp [ServiceWorld.freeTasks]

theorem freeTasks_freeTasks (w : ServiceWorld) (h : ∀ t ∈ ts, t ∉ tasks) :
    (w.freeTasks tasks).freeTasks ts = w.freeTasks (tasks ++ ts) := by
  have hcalls : ts.flatMap (w.freeTasks tasks).freeCalls = ts.flatMap w.freeCalls := by
    refine List.flatMap_congr fun t ht => ?_
    simp [ServiceWorld.freeCalls, freeTasks_tasks, h t ht]
  have htasks : ∀ t, ((w.freeTasks tasks).freeTasks ts).tasks t =
      (w.freeTasks (tasks ++ ts)).tasks t := by
    intro t
    by_cases h1 : t ∈ ts <;> by_cases h2 : t ∈ tasks <;> simp [freeTasks_tasks, h1, h2]
  unfold ServiceWorld.freeTasks at hcalls htasks ⊢
  rw [hcalls, List.flatMap_append, List.append_assoc]
  congr 1
  exact funext htasks

theorem callbacks_append (w : ServiceWorld) (es es' : List Event) :
    callbacks w (es ++ es') =
      match callbacks w es with
      | .error fault => .error fault
      | .ok w' => callbacks w' es' := by
  induction es generalizing w with
  | nil => rfl
  | cons e es ih =>
    rw [List.cons_append, callbacks, callbacks]
    cases callback w e with
    | error fault => rfl
    | ok w' => exact ih w'

/-- The cancel callback of a task without an action does nothing. -/
theorem callback_cancelCb (hs : w.tasks t = some s) (ha : s.pAction = 0) :
    callback w (.cancelCb k t u) = .ok w := by
  simp [callback, dleynaServiceTaskCancelCb, hs, ha]

theorem callback_deleteCb (hs : w.tasks t = some s) :
    callback w (.deleteCb k t u) = .ok (w.freeTasks [t]) := by
  have hfree : w.freeTasks [t] = (w.emit s.freeCalls).setTask t none := by
    simp [ServiceWorld.freeTasks, ServiceWorld.freeCalls, ServiceWorld.setTask, ServiceWorld.emit, hs]
  rw [hfree]
  cases hf : s.freeFunc with
  | none => simp [callback, dleynaServiceTaskDeleteCb, hs, hf, ServiceTask.freeCalls, ServiceWorld.emit]
  | some cb => simp [callback, dleynaServiceTaskDeleteCb, hs, hf, ServiceTask.freeCalls]

/-- Waiting tasks without an action are freed by the callbacks of a drained queue. -/
theorem callbacks_drained (h : ∀ t ∈ ts, ∃ s, w.tasks t = some s ∧ s.pAction = 0) (hnd : ts.Nodup) :
    callbacks w (ts.flatMap fun t => [.cancelCb k t u, .deleteCb k t u]) = .ok (w.freeTasks ts) := by
  induction ts generalizing w with
  | nil => rw [freeTasks_nil]; rfl
  | cons t ts ih =>
    obtain ⟨hnot, hnd⟩ := List.nodup_cons.mp hnd
    obtain ⟨s, hs, ha⟩ := h t List.mem_cons_self
    have htail : ∀ t' ∈ ts, ∃ s, (w.freeTasks [t]).tasks t' = some s ∧ s.pAction = 0 := by
      intro t' ht'
      have hne : t' ≠ t := fun he => hnot (he ▸ ht')
      obtain ⟨s', hs', ha'⟩ := h t' (List.mem_cons_of_mem _ ht')
      exact ⟨s', by simp [freeTasks_tasks, hne, hs'], ha'⟩
    have hdisj : ∀ t' ∈ ts, t' ∉ [t] := fun t' ht' he => hnot (List.mem_singleton.mp he ▸ ht')
    simp only [List.flatMap_cons, List.cons_append, List.nil_append, callbacks,
      callback_cancelCb hs ha, callback_deleteCb hs]
    rw [ih htail hnd, freeTasks_freeTasks w hdisj, List.singleton_append]

theorem freeCalls_nil (ht : q.tasks = []) : freeCalls k q =
    q.taskQueueFinallyCb.toList.map fun cb => .finallyCb k cb q.cancelled q.userData := by
  cases hc : q.taskQueueFinallyCb <;> simp [freeCalls, ht, hc]

/-- The callbacks of a queue that is freed without waiting tasks are not those of `service-task.c`. -/
theorem callbacks_freeCalls (w : ServiceWorld) (ht : q.tasks = []) :
    callbacks w (freeCalls k q) = .ok w := by
  cases hc : q.taskQueueFinallyCb <;> simp [freeCalls, ht, hc, callbacks, callback]

/-- A call of the processor whose step and callbacks are known. -/
theorem process_ok {onFault : Fault → ServiceFault} {op : Op} (hs : step w.processor op = .ok p)
    (hl : p.log = w.processor.log ++ es) :
    process w onFault op = callbacks { w with processor := p } es := by
  simp [process, hs, hl]

/-! ## The steps of a failed dispatch -/

/-- The main loop takes the first task. -/
theorem takeTask_ok (hq : w.processor.taskQueues.find? k = some q) (ht : q.tasks = t :: ts) :
    ∃ p, takeTask w k = .ok (some t, { w with processor := p }) ∧
      step w.processor (.dispatch k) = .ok p ∧ Moves k w.processor p
        (some { q with cancelled := false, idleId := 0, currentTask := some t, tasks := ts })
        (guintSucc w.processor.runningTasks) [.processCb k t q.userData] := by
  obtain ⟨p, hs, hm⟩ := moves_dispatch hq ht
  refine ⟨p, ?_, hs, hm⟩
  simp [takeTask, process_ok hs hm.log, callbacks, callback, hm.queue]

/-- What `t_action` does by adding tasks to its queue. -/
structure Adds (k : TaskQueueKey) (q : TaskQueue) (w : ServiceWorld) (added : List TaskArgs)
    (w' : ServiceWorld) : Prop where
  moves : Moves k w.processor w'.processor
    (some { q with tasks := q.tasks ++ added.map TaskArgs.task }) w.processor.runningTasks
    (added.map fun args => .addTask k args.task)
  history : w'.history = w.history
  actions : w'.actions = w.actions
  nodup : (added.map TaskArgs.task).Nodup
  fresh : ∀ t ∈ added.map TaskArgs.task, t ∉ allAdded w.processor.log
  tasks : ∀ t, t ∉ added.map TaskArgs.task → w'.tasks t = w.tasks t
  new : ∀ args ∈ added,
    w'.tasks args.task = some (addedTask k args.proxy args.freeFunc args.userData)

theorem adds_nil (hq : w.processor.taskQueues.find? k = some q) : Adds k q w [] w where
  moves := by simpa using Moves.refl hq
  history := rfl
  actions := rfl
  nodup := List.nodup_nil
  fresh := by simp
  tasks := fun _ _ => rfl
  new := by simp

theorem adds_cons {args : TaskArgs} (hg : args.task ∉ allAdded w.processor.log)
    (hm : Moves k w.processor p (some { q with tasks := q.tasks ++ [args.task] })
      w.processor.runningTasks [.addTask k args.task])
    (h : Adds k { q with tasks := q.tasks ++ [args.task] }
      { w.setTask args.task (some (addedTask k args.proxy args.freeFunc args.userData)) with
        processor := p } added w') : Adds k q w (args :: added) w' := by
  have hall : ∀ t, t ∈ allAdded p.log ↔ t ∈ allAdded w.processor.log ∨ t = args.task := by
    intro t
    simp [hm.log, allAdded, List.filterMap_append]
  have hnot : args.task ∉ added.map TaskArgs.task := fun hmem =>
    h.fresh _ hmem ((hall _).mpr (Or.inr rfl))
  have hmoves := hm.trans h.moves
  rw [show ({ w.setTask args.task (some (addedTask k args.proxy args.freeFunc args.userData)) with
    processor := p } : ServiceWorld).processor = p from rfl, hm.running] at hmoves
  refine ⟨by simpa using hmoves, h.history, h.actions, List.nodup_cons.mpr ⟨hnot, h.nodup⟩,
    fun t ht => ?_, fun t ht => ?_, fun args' ha => ?_⟩
  · rcases List.mem_cons.mp ht with rfl | ht
    · exact hg
    · exact fun hmem => h.fresh t ht ((hall t).mpr (Or.inl hmem))
  · rw [List.map_cons, List.mem_cons, not_or] at ht
    exact (h.tasks t ht.2).trans (setTask_ne w _ ht.1)
  · rcases List.mem_cons.mp ha with rfl | ha
    · exact (h.tasks _ hnot).trans (setTask_self w _ _)
    · exact h.new args' ha

/-- The calls of a `t_action` that adds tasks to its own queue. -/
theorem adds_calls (hq : w.processor.taskQueues.find? k = some q) (hc : q.currentTask = some t)
    (hg : OnCalls Guard w (added.map (TaskArgs.call k))) :
    ∃ w', calls w (added.map (TaskArgs.call k)) = .ok w' ∧ Adds k q w added w' := by
  induction added generalizing w q with
  | nil => exact ⟨w, rfl, adds_nil hq⟩
  | cons args added ih =>
    obtain ⟨hone, hrest⟩ := hg
    have hfresh : Guard w.processor (.addTask k args.task) := hone _ rfl
    obtain ⟨p, hs, hm⟩ := moves_addTask args.task hq hc
    have hcall : call w (args.call k) = .ok
        { w.setTask args.task (some (addedTask k args.proxy args.freeFunc args.userData)) with
          processor := p } := dleynaServiceTaskAdd_ok hs
    rw [hcall] at hrest
    obtain ⟨w', hw', ha⟩ := ih (q := { q with tasks := q.tasks ++ [args.task] }) hm.queue hc hrest
    refine ⟨w', ?_, adds_cons hfresh hm ha⟩
    rw [List.map_cons, calls, hcall]
    exact hw'

/-- A `t_action` that returns `NULL` leaves its task without an action. -/
theorem runAction_null {cs : List Call} (failed : Bool) (hc : calls w cs = .ok w')
    (hs : w'.tasks t = some s) (ha : s.pAction = 0) :
    runAction w t cs 0 failed = .ok (w'.emit [.begun t 0 failed]) := by
  have hsame : w'.setTask t (some { s with pAction := 0 }) = w' := by
    have hs0 : ({ s with pAction := 0 } : ServiceTask) = s := by rw [← ha]
    have htasks : ∀ t', (w'.setTask t (some s)).tasks t' = w'.tasks t' := by
      intro t'
      by_cases ht : t' = t
      · rw [ht, setTask_self, hs]
      · exact setTask_ne w' _ ht
    rw [hs0, show w'.setTask t (some s) = { w' with tasks := (w'.setTask t (some s)).tasks } from rfl,
      funext htasks]
  simp [runAction, hc, hs, hsame]

/-- The queue of a task without an action is cancelled: its waiting tasks are freed. -/
theorem process_cancelQueue (hS : SourcesOk w.processor)
    (hq : w.processor.taskQueues.find? k = some q) (hcan : q.cancelled = false)
    (hc : q.currentTask = some t) (hs : w.tasks t = some s) (ha : s.pAction = 0)
    (hw : ∀ t ∈ q.tasks, ∃ s, w.tasks t = some s ∧ s.pAction = 0) (hnd : q.tasks.Nodup)
    (ht : t ∉ q.tasks) :
    ∃ p, process w .completion (.cancelQueue k w.sync) =
        .ok ({ w with processor := p }.freeTasks q.tasks) ∧
      step w.processor (.cancelQueue k w.sync) = .ok p ∧
      Moves k w.processor p (some q.drain) w.processor.runningTasks
        (cancelAndFreeCalls k q ++ [.cancelCb k t q.userData]) := by
  have hsync : w.sync t = false := by simp [sync_of_task hs, ha]
  obtain ⟨p, hstep, hm⟩ := moves_cancelQueue hS hq hcan hc hsync
  refine ⟨p, ?_, hstep, hm⟩
  have hs' : ({ w with processor := p }.freeTasks q.tasks).tasks t = some s := by
    rw [freeTasks_tasks, if_neg ht, ← hs]
  rw [process_ok hstep hm.log, callbacks_append, cancelAndFreeCalls,
    callbacks_drained (w := { w with processor := p }) hw hnd]
  simp only [callbacks, callback_cancelCb hs' ha]

/-- The task is completed and freed. -/
theorem process_taskCompleted (hq : w.processor.taskQueues.find? k = some q)
    (hqt : w.processor.quitting = false) (hd : q.deferRemove = false) (hc : q.currentTask = some t)
    (ht : q.tasks = []) (hs : w.tasks t = some s) :
    ∃ p, process w .completion (.taskCompleted k t) = .ok ({ w with processor := p }.freeTasks [t]) ∧
      p.pendingOf k = w.processor.pendingOf k ∧
      Moves k w.processor p (if q.autoRemove = true then none else some { q with currentTask := none })
        (guintPred w.processor.runningTasks) ([.completed k t, .deleteCb k t q.userData] ++
          if q.autoRemove = true then freeCalls k q else []) := by
  obtain ⟨p, hstep, hp, hm⟩ := moves_taskCompleted hq hqt hd hc ht
  refine ⟨p, ?_, hp, hm⟩
  have hcomp : callback { w with processor := p } (.completed k t) = .ok { w with processor := p } :=
    rfl
  have hdel : callback { w with processor := p } (.deleteCb k t q.userData) =
      .ok ({ w with processor := p }.freeTasks [t]) := callback_deleteCb hs
  rw [process_ok hstep hm.log]
  simp only [List.cons_append, List.nil_append, callbacks, hcomp, hdel]
  split
  · exact callbacks_freeCalls _ ht
  · rfl

/-! ## Failed dispatches -/

/-- A waiting task is in memory, has no action, and was handed to no callback yet. -/
theorem ServiceInv.waiting (h : ServiceInv P c w) (hq : w.processor.taskQueues.find? k = some q)
    (ht : t ∈ q.tasks) : t ∈ addedTasks k w.processor.log ∧ callsFor t w.processor.log = [] ∧
      ∃ s, w.tasks t = some s ∧ s.pAction = 0 := by
  have hI := h.inv
  obtain ⟨ops, hrun⟩ := h.run
  have hadd : t ∈ addedTasks k w.processor.log := by
    have hmem := (hI.queueOk hq).history.conserve.subset (List.mem_append_right _ ht)
    rwa [jobEvents_logOf] at hmem
  have hcalls : callsFor t w.processor.log = [] := by
    rw [← callsFor_logOf hrun hadd]
    exact callsFor_waiting hI hq ht
  have hnot := List.filter_eq_nil_iff.mp hcalls
  have hdel : w.processor.log.any (Event.deletes t) = false :=
    List.any_eq_false.mpr fun e he hd => hnot e he (by simp [hd])
  obtain ⟨s, hs⟩ := Option.isSome_iff_exists.mp ((h.alive t).mpr ⟨⟨k, hadd⟩, hdel⟩)
  refine ⟨hadd, hcalls, s, hs, ?_⟩
  by_contra ha
  obtain ⟨u, hu⟩ := mem_processedTasks ((h.pending t s hs).mp ha).1.1
  exact hnot _ hu (by simp [Event.processes])

/-- The queue while `task` runs, with `tasks` waiting. -/
def TaskQueue.running (queue : TaskQueue) (task : TaskAtom) (tasks : List TaskAtom) : TaskQueue :=
  { queue with cancelled := false, idleId := 0, currentTask := some task, tasks := tasks }

namespace Adds

variable (h : Adds k q w added w')

include h

theorem freeCalls_old (ht : t ∉ added.map TaskArgs.task) : w'.freeCalls t = w.freeCalls t := by
  rw [ServiceWorld.freeCalls, ServiceWorld.freeCalls, h.tasks t ht]

theorem freeCalls_new :
    (added.map TaskArgs.task).flatMap w'.freeCalls = added.flatMap TaskArgs.freeCalls := by
  rw [List.flatMap_map]
  refine List.flatMap_congr fun args ha => ?_
  rw [ServiceWorld.freeCalls, h.new args ha]
  rfl

end Adds

/-- A failed dispatch: in `p` the queue is cancelled. -/
structure Fails (w : ServiceWorld) (k : TaskQueueKey) (queue : TaskQueue) (task : TaskAtom)
    (tasks : List TaskAtom) (added : List TaskArgs) (p : World) (w' : ServiceWorld) : Prop where
  start : ServiceInv Any .idle w
  before : w.processor.taskQueues.find? k = some queue
  waits : queue.tasks = task :: tasks
  inv : Inv p
  begins : Moves k w.processor p
    (some (queue.running task (tasks ++ added.map TaskArgs.task)))
    (guintSucc w.processor.runningTasks)
    (.processCb k task queue.userData :: added.map fun args => .addTask k args.task)
  ends : Moves k p w'.processor
    (if queue.autoRemove = true then none else some { queue with
      tasks := [], currentTask := none, idleId := 0, cancelled := true })
    (guintPred p.runningTasks)
    (cancelAndFreeCalls k (queue.running task (tasks ++ added.map TaskArgs.task)) ++
      ([.cancelCb k task queue.userData, .completed k task, .deleteCb k task queue.userData] ++
        if queue.autoRemove = true then
          queue.taskQueueFinallyCb.toList.map fun cb => .finallyCb k cb true queue.userData
        else []))
  pending : w'.processor.pendingOf k = []
  result : ∃ p' w2, Adds k (queue.running task tasks) { w with processor := p' } added w2 ∧
    w' = { (w2.emit [.begun task 0 true]).freeTasks
      (tasks ++ added.map TaskArgs.task ++ [task]) with processor := w'.processor }

/-- The task that runs and those that wait behind it are all different. -/
theorem Inv.running_nodup (hI : Inv p) (hq : p.taskQueues.find? k = some (q.running task tasks)) :
    task ∉ tasks ∧ tasks.Nodup := by
  have hnd := (hI.queueOk hq).history.nodup
  rw [List.append_assoc] at hnd
  exact List.nodup_cons.mp (List.nodup_append.mp hnd).2.1

/-- A queue with a pending dispatch has a task to start, and is not being removed. -/
theorem Inv.dispatched (hI : Inv p) (hq : p.taskQueues.find? k = some q)
    (hg : Guard p (.dispatch k)) : q.deferRemove = false ∧ ∃ task tasks, q.tasks = task :: tasks := by
  have hok := hI.queueOk hq
  have hid : q.shape.idleId ≠ 0 :=
    fun h0 => (pending_unique hI.sources hq hg).1 ((shape_idleId_eq_zero q).mp h0)
  obtain ⟨hcur, hne⟩ := hok.idle hid
  refine ⟨Bool.eq_false_of_not_eq_true fun hd => (hok.deferred hd).1 hcur, ?_⟩
  exact List.exists_cons_of_ne_nil hne

/-- A dispatch whose `t_action` adds tasks to the queue and fails. -/
theorem fails_dispatch (h : service.Run (fun _ _ => True) ops w)
    (hqt : w.processor.quitting = false) (hq : w.processor.taskQueues.find? k = some queue)
    (hg : ServiceGuard w (.dispatch k (added.map (TaskArgs.call k)) 0 true)) :
    ∃ task tasks p w', serviceStep w (.dispatch k (added.map (TaskArgs.call k)) 0 true) = .ok w' ∧
      Fails w k queue task tasks added p w' := by
  obtain ⟨hgc, hgd, -⟩ := hg
  have hinv := serviceInv_any h
  obtain ⟨hd, task, tasks, ht⟩ := hinv.inv.dispatched hq hgd
  -- the main loop takes the task
  obtain ⟨p1, htake, hs1, hm1⟩ := takeTask_ok hq ht
  simp only [OnClient, htake] at hgc
  have hinv1 := serviceInv_dispatch hinv lifts_any hgd hs1 hm1.log
  -- `t_action` adds its tasks
  obtain ⟨w2, hcalls, hadds⟩ := adds_calls (w := { w with processor := p1 }) hm1.queue rfl hgc
  have hinv2 : ServiceInv Any (.starting k task) w2 := by
    have hl := lands_calls hinv1 hgc (onCalls_any _ _)
    rw [hcalls] at hl
    exact hl
  have hnodup : task ∉ _ ∧ List.Nodup _ := hinv2.inv.running_nodup (q := queue) hadds.moves.queue
  obtain ⟨hnot, hnd⟩ := hnodup
  obtain ⟨s, hs2, hk, -⟩ := hinv2.current k task rfl
  have ha : s.pAction = 0 := by
    have hsync := hinv2.sync_current (t := task) rfl
    rw [sync_of_task hs2] at hsync
    simpa using hsync
  have hwait : ∀ t ∈ tasks ++ added.map TaskArgs.task, ∃ s, w2.tasks t = some s ∧ s.pAction = 0 :=
    fun t ht => (hinv2.waiting hadds.moves.queue ht).2.2
  have hrun := runAction_null true hcalls hs2 ha
  -- `t_action` fails, and the queue is cancelled
  obtain ⟨p3, hcancel, hs3, hm3⟩ := process_cancelQueue (w := w2.emit [.begun task 0 true])
    hinv2.inv.sources hadds.moves.queue rfl rfl hs2 ha hwait hnd hnot
  have hI3 : Inv p3 := by
    have hg3 : Guard w2.processor (.cancelQueue k (w2.emit [.begun task 0 true]).sync) := trivial
    exact hinv2.inv.step hg3 hs3
  -- the task has no action: it is completed
  set w4 := { w2.emit [.begun task 0 true] with processor := p3 }.freeTasks
    (tasks ++ added.map TaskArgs.task) with hw4
  have hs4 : w4.tasks task = some s := by
    rw [hw4, freeTasks_tasks, if_neg hnot]
    exact hs2
  have hqt3 : p3.quitting = false := by
    rw [hm3.quitting]
    exact (hadds.moves.quitting.trans hm1.quitting).trans hqt
  obtain ⟨p4, hcompl, hp4, hm4⟩ := process_taskCompleted (w := w4) (t := task)
    (q := (queue.running task (tasks ++ added.map TaskArgs.task)).drain) hm3.queue hqt3 hd rfl rfl hs4
  have hs3' : (w2.emit [.begun task 0 true]).tasks task = some s := hs2
  have hstep : serviceStep w (.dispatch k (added.map (TaskArgs.call k)) 0 true) =
      .ok ({ w4 with processor := p4 }.freeTasks [task]) := by
    simp only [serviceStep, dispatchServiceTask, htake, dleynaServiceTaskProcessCb, hrun, hs3',
      if_true, hk, hcancel, hs4, ha, hcompl]
  refine ⟨task, tasks, w2.processor, _, hstep, hinv, hq, ht, hinv2.inv, ?_, ?_, ?_, p1, w2, hadds, ?_⟩
  · have hm := hm1.trans hadds.moves
    rwa [show ({ w with processor := p1 } : ServiceWorld).processor.runningTasks = _ from
      hm1.running] at hm
  · have hm := hm3.trans hm4
    rw [show w4.processor.runningTasks = _ from hm3.running, freeCalls_nil rfl,
      List.append_assoc] at hm
    exact hm
  · refine hp4.trans ?_
    rw [show w4.processor.pendingOf k = p3.pendingOf k from rfl, hI3.sources.linked k _ hm3.queue]
    rfl
  · have hdisj : ∀ t ∈ [task], t ∉ tasks ++ added.map TaskArgs.task := by simpa using hnot
    have hfree := freeTasks_freeTasks (w2.emit [.begun task 0 true]) hdisj
    rw [← hfree]
    rfl

namespace Fails

variable {tasks : List TaskAtom} (h : Fails w k queue task tasks added p w')

include h

/-- What the dispatch adds to the history of the processor. -/
theorem log : w'.processor.log = w.processor.log ++ (.processCb k task queue.userData ::
    (added.map fun args => .addTask k args.task) ++
      (cancelAndFreeCalls k (queue.running task (tasks ++ added.map TaskArgs.task)) ++
        ([.cancelCb k task queue.userData, .completed k task, .deleteCb k task queue.userData] ++
          if queue.autoRemove = true then
            queue.taskQueueFinallyCb.toList.map fun cb => .finallyCb k cb true queue.userData
          else []))) := by
  rw [h.ends.log, h.begins.log, List.append_assoc]

theorem failed : callsFor task w'.processor.log = [.processCb k task queue.userData,
    .cancelCb k task queue.userData, .deleteCb k task queue.userData] := by
  obtain ⟨-, hold, -⟩ := h.start.waiting (t := task) h.before (by simp [h.waits])
  have hbegin : callsFor task (.processCb k task queue.userData ::
      added.map fun args => .addTask k args.task) = [.processCb k task queue.userData] := by
    have hadds : callsFor task (added.map fun args => .addTask k args.task) = [] :=
      List.filter_eq_nil_iff.mpr (by simp [Event.processes, Event.cancels, Event.deletes])
    rw [callsFor_processCb, hadds]
  have hdrain := callsFor_cancelAndFreeCalls (k := k)
    (q := queue.running task (tasks ++ added.map TaskArgs.task))
    (h.inv.running_nodup h.begins.queue).1
  have hend : callsFor task [.cancelCb k task queue.userData, .completed k task,
      .deleteCb k task queue.userData] =
        [.cancelCb k task queue.userData, .deleteCb k task queue.userData] := by
    simp [callsFor, Event.processes, Event.cancels, Event.deletes]
  have hfinally : callsFor task (if queue.autoRemove = true then
      queue.taskQueueFinallyCb.toList.map fun cb => .finallyCb k cb true queue.userData
      else []) = [] := by
    refine callsFor_eq_nil fun e he => ?_
    split at he
    · obtain ⟨cb, -, rfl⟩ := List.mem_map.mp he
      simp [Event.task]
    · simp at he
  rw [h.log, callsFor_append, hold, callsFor_append, hbegin, callsFor_append, hdrain,
    callsFor_append, hend, hfinally]
  rfl

/-- A task that waits when the queue is cancelled is cancelled once. -/
theorem waiting (ht : t ∈ tasks ++ added.map TaskArgs.task)
    (hpath : service.Path (fun _ _ => True) w' w'') (hrun : ∃ ops, processor.Run Any ops w''.processor) :
    CancelledOnce w''.processor.log k t := by
  obtain ⟨ops, hrun⟩ := hrun
  obtain ⟨l, hl⟩ := continues_path hpath
  obtain ⟨l', hl'⟩ : ∃ l', w'.processor.log = p.log ++
      (cancelAndFreeCalls k (queue.running task (tasks ++ added.map TaskArgs.task)) ++ l') :=
    ⟨_, h.ends.log⟩
  refine cancelledOnce_of_drained h.inv h.begins.queue ht hrun (l := (l' ++ l).filter
    fun e => e.key = some k) ?_
  rw [World.logOf, ← hl, hl', List.append_assoc, List.append_assoc, List.filter_append,
    List.filter_append, filter_owned (ownedBy_cancelAndFreeCalls k _), if_pos rfl]
  rfl

/-- The finally callback is called only when the queue is removed. -/
theorem finallyCb : w'.processor.log.filter (Event.isFinally k) =
    if queue.autoRemove = true then
      queue.taskQueueFinallyCb.toList.map fun cb => .finallyCb k cb true queue.userData
    else [] := by
  obtain ⟨ops, hrun⟩ := h.start.run
  have hold : w.processor.log.filter (Event.isFinally k) = [] := by
    have hcount : (w.processor.logOf k).countP (Event.isFinally k) = 0 :=
      unfinished_run hrun k (by simp [World.view, h.before])
    rw [countP_isFinally_logOf] at hcount
    exact List.filter_eq_nil_iff.mpr (List.countP_eq_zero.mp hcount)
  have hbegin : (.processCb k task queue.userData ::
      added.map fun args => Event.addTask k args.task).filter (Event.isFinally k) = [] := by
    simp [Event.isFinally]
  have hdrain : (cancelAndFreeCalls k
      (queue.running task (tasks ++ added.map TaskArgs.task))).filter (Event.isFinally k) = [] := by
    refine List.filter_eq_nil_iff.mpr fun e he => ?_
    obtain ⟨t, -, he⟩ := List.mem_flatMap.mp he
    rcases List.mem_pair.mp he with rfl | rfl <;> simp [Event.isFinally]
  have hend : ([.cancelCb k task queue.userData, .completed k task,
      .deleteCb k task queue.userData] : List Event).filter (Event.isFinally k) = [] := by
    simp [Event.isFinally]
  rw [h.log, List.filter_append, hold, List.filter_append, hbegin, List.filter_append, hdrain,
    List.filter_append, hend]
  split
  · simp [Event.isFinally]
  · rfl

theorem freed : w'.history = w.history ++ .begun task 0 true ::
    (tasks.flatMap w.freeCalls ++ added.flatMap TaskArgs.freeCalls ++ w.freeCalls task) := by
  obtain ⟨p', w2, hadds, he⟩ := h.result
  obtain ⟨hnot, hnd⟩ := h.inv.running_nodup h.begins.queue
  have hold : ∀ t ∈ tasks, t ∉ added.map TaskArgs.task := fun t ht hm =>
    (List.nodup_append.mp hnd).2.2 t ht t hm rfl
  have htasks : tasks.flatMap w2.freeCalls = tasks.flatMap w.freeCalls :=
    List.flatMap_congr fun t ht => hadds.freeCalls_old (hold t ht)
  have htask : w2.freeCalls task = w.freeCalls task :=
    hadds.freeCalls_old fun hm => hnot (List.mem_append_right _ hm)
  rw [he]
  show w2.history ++ [.begun task 0 true] ++
    (tasks ++ added.map TaskArgs.task ++ [task]).flatMap w2.freeCalls = _
  rw [hadds.history, List.flatMap_append, List.flatMap_append, htasks, hadds.freeCalls_new,
    List.flatMap_singleton, htask, List.append_assoc]
  rfl

theorem memory (t : TaskAtom) : w'.tasks t =
    if t ∈ task :: tasks ++ added.map TaskArgs.task then none else w.tasks t := by
  obtain ⟨p', w2, hadds, he⟩ := h.result
  have hmem : t ∈ tasks ++ added.map TaskArgs.task ++ [task] ↔
      t ∈ task :: tasks ++ added.map TaskArgs.task := by
    simp only [List.mem_append, List.mem_cons, List.not_mem_nil, or_false]
    tauto
  have ht : w'.tasks t = if t ∈ tasks ++ added.map TaskArgs.task ++ [task] then none
      else w2.tasks t := by
    rw [he]
    rfl
  rw [ht]
  simp only [hmem]
  split
  · rfl
  · next hn => exact hadds.tasks t fun hm => hn (List.mem_append_right _ hm)

theorem aborted (hstop : service.Run (fun _ _ => True) ops w') :
    Aborted w k queue task tasks added w' where
  failed := h.failed
  waiting := by
    intro t ht w'' hpath
    obtain ⟨ops', hrun⟩ := hpath.run hstop
    exact h.waiting ht hpath (serviceInv_any hrun).run
  freed := h.freed
  memory := h.memory
  actions := by
    obtain ⟨p', w2, hadds, he⟩ := h.result
    rw [he]
    exact hadds.actions
  pending := h.pending
  running := by
    obtain ⟨ops', hrun⟩ := h.start.run
    rw [h.ends.running, h.begins.running, guintPred_guintSucc (runningTasks_lt hrun)]
  quitting := h.ends.quitting.trans h.begins.quitting
  removed := by
    intro har
    have hq := h.ends.queue
    have hf := h.finallyCb
    rw [if_pos har] at hq hf
    exact ⟨hq, hf⟩
  stays := by
    intro har
    have hq := h.ends.queue
    have hf := h.finallyCb
    rw [if_neg (by simp [har])] at hq hf
    exact ⟨hf, hq⟩
  others := fun k' hk => (h.begins.others k' hk).trans (h.ends.others k' hk)

end Fails

/-- From every state of a run that is not quitting, a dispatch whose `t_action` fails without an action,
after it has added any tasks to its queue, aborts the queue and nothing else. -/
theorem aborted_run (h : service.Run (fun _ _ => True) ops w)
    (hqt : w.processor.quitting = false) (hq : w.processor.taskQueues.find? k = some queue)
    (hg : ServiceGuard w (.dispatch k (added.map (TaskArgs.call k)) 0 true)) :
    ∃ task tasks w', queue.tasks = task :: tasks ∧
      serviceStep w (.dispatch k (added.map (TaskArgs.call k)) 0 true) = .ok w' ∧
      Aborted w k queue task tasks added w' := by
  obtain ⟨task, tasks, p, w', hs, hf⟩ := fails_dispatch h hqt hq hg
  have hstop : service.Run (fun _ _ => True)
      (ops ++ [.dispatch k (added.map (TaskArgs.call k)) 0 true]) w' := .snoc h hg trivial hs
  exact ⟨task, tasks, w', hf.waits, hs, hf.aborted hstop⟩

/-- A task waits behind the first one of an `AUTO_REMOVE` queue, and another queue is scheduled. -/
def secondWaits : List ServiceOp :=
  [.call (.addQueue ⟨1, "a", "b"⟩ (flagAutoStart ||| flagAutoRemove)),
    .call (.setFinally ⟨1, "a", "b"⟩ (some 4)), .call (.addQueue ⟨2, "c", "b"⟩ flagAutoStart),
    .call (.addServiceTask ⟨1, "a", "b"⟩ 7 3 (some 5) 1),
    .call (.addServiceTask ⟨1, "a", "b"⟩ 9 3 (some 5) 2),
    .call (.addServiceTask ⟨2, "c", "b"⟩ 8 3 none 0)]

theorem aborted_secondWaits :
    ∃ task tasks w', [7, 9] = task :: tasks ∧
      serviceStep (service.final (fun _ _ => True) secondWaits)
        (.dispatch ⟨1, "a", "b"⟩ ([⟨6, 3, some 5, 3⟩].map (TaskArgs.call ⟨1, "a", "b"⟩)) 0 true) =
          .ok w' ∧
      Aborted (service.final (fun _ _ => True) secondWaits) ⟨1, "a", "b"⟩
        { TaskQueue.new (flagAutoStart ||| flagAutoRemove) with
          tasks := [7, 9], taskQueueFinallyCb := some 4, idleId := 1 }
        task tasks [⟨6, 3, some 5, 3⟩] w' := by
  have hrun : service.Run (fun _ _ => True) secondWaits
      (service.final (fun _ _ => True) secondWaits) := System.run_final (by decide)
  have hq : (service.final (fun _ _ => True) secondWaits).processor.taskQueues.find?
      ⟨1, "a", "b"⟩ = some { TaskQueue.new (flagAutoStart ||| flagAutoRemove) with
        tasks := [7, 9], taskQueueFinallyCb := some 4, idleId := 1 } := by decide
  have hg : ServiceGuard (service.final (fun _ _ => True) secondWaits)
      (.dispatch ⟨1, "a", "b"⟩ ([⟨6, 3, some 5, 3⟩].map (TaskArgs.call ⟨1, "a", "b"⟩)) 0 true) := by
    decide
  exact aborted_run hrun (by decide) hq hg

end DleynaCore
