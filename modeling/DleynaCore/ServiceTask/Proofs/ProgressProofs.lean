import DleynaCore.ServiceTask.Progress
import DleynaCore.ServiceTask.Proofs.AccountsProofs
import DleynaCore.TaskProcessor.Proofs.ProgressProofs

/-!
# Service tasks finish, unless they are abandoned

A dispatch and an action callback act on one queue each and lower the work that it has ahead. What can
keep a queue from finishing is a proxy that was finalized while an action was pending on it: libgupnp
forgets the action, and nothing tells the processor.
-/

namespace DleynaCore

variable {w w' w0 w1 : ServiceWorld} {p : World} {k : TaskQueueKey} {t : TaskAtom} {s : ServiceTask}
  {q : TaskQueue} {c : Phase}

/-! ## Actions that are waited for -/

/-- The action of every task whose proxy is there is one of libgupnp's, and no two actions are the same. -/
structure Awaited (w : ServiceWorld) : Prop where
  pending : ∀ t s, w.tasks t = some s → s.pAction ≠ 0 → s.proxy ≠ 0 → (s.pAction, t) ∈ w.actions
  distinct : (w.actions.map Prod.fst).Nodup

theorem awaited_new : Awaited ServiceWorld.new := by
  constructor <;> simp [ServiceWorld.new]

/-- A task is written to, and its old action is forgotten. -/
theorem Awaited.written {r : Option ServiceTask} {es : List ServiceEvent}
    {actions : List (Gpointer × TaskAtom)} (h : Awaited w) (hw : Writes w t r es actions w')
    (hsub : actions.Sublist w.actions)
    (hkeep : ∀ t' s, t' ≠ t → w.tasks t' = some s → s.proxy ≠ 0 → (s.pAction, t') ∈ w.actions →
      (s.pAction, t') ∈ actions)
    (hnew : ∀ s, r = some s → s.pAction = 0) : Awaited w' where
  pending := fun t' s hs ha hp => by
    rw [hw.tasks] at hs
    rw [hw.actions]
    by_cases htt : t' = t
    · subst htt
      rw [setTask_self] at hs
      exact absurd (hnew s hs) ha
    · rw [setTask_ne _ _ htt] at hs
      exact hkeep t' s htt hs hp (h.pending t' s hs ha hp)
  distinct := hw.actions ▸ h.distinct.sublist (hsub.map _)

theorem Awaited.cancelled (h : Awaited w) (hs : w.tasks t = some s) (ha : s.pAction ≠ 0)
    (hw : Writes w t (some { s with pAction := 0 }) (s.cancelEvents t) (s.keptActions w.actions) w') :
    Awaited w' := by
  by_cases hp : s.proxy = 0
  · rw [ServiceTask.keptActions, if_pos hp] at hw
    exact h.written hw (List.Sublist.refl _) (fun _ _ _ _ _ hm => hm)
      fun _ hs' => by rw [← Option.some.inj hs']
  · rw [ServiceTask.keptActions, if_neg hp] at hw
    refine h.written hw List.filter_sublist
      (fun t' s1 hne hs1 hp1 hm => List.mem_filter.mpr ⟨hm, ?_⟩)
      fun _ hs' => by rw [← Option.some.inj hs']
    -- no other task has the same action
    have hmine := h.pending t s hs ha hp
    have hinj : s1.pAction ≠ s.pAction := fun he => hne
      (congrArg Prod.snd (List.inj_on_of_nodup_map h.distinct hm hmine he))
    simpa using hinj

theorem Awaited.begun {action : Gpointer} {failed : Bool} (h : Awaited w)
    (hg : ActionGuard w t action)
    (hw : Writes w t (some { s with pAction := action }) [.begun t action failed]
      (if action ≠ 0 then w.actions ++ [(action, t)] else w.actions) w') : Awaited w' := by
  by_cases ha : action = 0
  · rw [if_neg (not_not.mpr ha)] at hw
    exact h.written hw (List.Sublist.refl _) (fun _ _ _ _ _ hm => hm)
      fun _ hs' => by rw [← Option.some.inj hs', ha]
  · rw [if_pos ha] at hw
    refine ⟨fun t' s1 hs1 ha1 hp1 => ?_, ?_⟩
    · rw [hw.tasks] at hs1
      rw [hw.actions]
      by_cases htt : t' = t
      · subst htt
        rw [setTask_self] at hs1
        rw [← Option.some.inj hs1]
        exact List.mem_append_right _ (List.mem_singleton.mpr rfl)
      · rw [setTask_ne _ _ htt] at hs1
        exact List.mem_append_left _ (h.pending t' s1 hs1 ha1 hp1)
    · rw [hw.actions, List.map_append, List.nodup_append]
      refine ⟨h.distinct, by simp, fun a hm b hb => ?_⟩
      rintro rfl
      obtain rfl : a = action := by simpa using hb
      exact (hg ha).1 hm

theorem maintains_awaited : Maintains fun _ _ w => Awaited w where
  stepped := fun _ h _ _ => ⟨h.pending, h.distinct⟩
  cancelled := Awaited.cancelled
  deleted := fun h _ _ hw =>
    h.written hw (List.Sublist.refl _) (fun _ _ _ _ _ hm => hm) (by simp)
  added := fun {_ _ w w' _} a h _ _ _ hw => by
    have hp : Awaited { w with processor := w'.processor } := ⟨h.pending, h.distinct⟩
    exact hp.written hw (List.Sublist.refl _) (fun _ _ _ _ _ hm => hm)
      fun _ hs' => by rw [← Option.some.inj hs']; rfl
  finalized := fun proxy h => by
    refine ⟨fun t s' hs' ha hp => ?_, h.distinct.sublist (List.filter_sublist.map _)⟩
    obtain ⟨s, hs, rfl⟩ := Option.map_eq_some_iff.mp hs'
    by_cases hsp : s.proxy = proxy
    · rw [if_pos hsp] at hp
      exact absurd rfl hp
    · rw [if_neg hsp] at ha hp ⊢
      exact List.mem_filter.mpr ⟨h.pending t s hs ha hp, by simp [hs, hsp]⟩
  taken := fun _ h _ _ => ⟨h.pending, h.distinct⟩
  begun := fun h _ hg _ hw => h.begun hg hw
  finished := fun h _ _ _ hw => by
    refine h.written hw List.erase_sublist (fun t' s1 hne _ _ hm => ?_)
      fun _ hs' => by rw [← Option.some.inj hs']
    exact (List.mem_erase_of_ne fun he => hne (congrArg Prod.snd he)).mpr hm

/-! ## Steps of the processor -/

theorem lifts_staysOpen : Lifts StaysOpen where
  dispatch := fun _ _ => ⟨trivial, trivial, fun _ => trivial⟩
  taskCompleted := fun _ _ _ => ⟨trivial, trivial, fun hqt hl => by simp [World.lastTask, hqt] at hl⟩
  cancelQueue := fun _ _ _ => ⟨trivial, trivial, fun hqt hl => by simp [World.lastTask, hqt] at hl⟩

/-- No task in flight and no dispatch was left behind, and the processor is not quitting. -/
theorem ServiceInv.kempt (h : ServiceInv StaysOpen c w) :
    Kempt w.processor ∧ w.processor.quitting = false := by
  obtain ⟨ops, hrun⟩ := h.run
  have hqt : ∀ {ops p}, processor.Run StaysOpen ops p → p.quitting = false := fun hr =>
    (counts_run (hr.mono fun _ _ hP => hP.1)).1
  exact ⟨kempt_run (hrun.mono_reached fun _ _ _ hr _ hP => ⟨hP.2.1, hP.2.2 (hqt hr)⟩), hqt hrun⟩

/-- Nothing happens to the other queues, and no proxy goes. -/
structure Touches (k : TaskQueueKey) (w w' : ServiceWorld) : Prop where
  others : ∀ k', k' ≠ k → w'.processor.view k' = w.processor.view k'
  proxies : ∀ t s', w'.tasks t = some s' → ∃ s, w.tasks t = some s ∧ s'.proxy = s.proxy
  log : w.processor.log <+: w'.processor.log

theorem Touches.refl (k : TaskQueueKey) (w : ServiceWorld) : Touches k w w :=
  ⟨fun _ _ => rfl, fun _ s hs => ⟨s, hs, rfl⟩, List.prefix_refl _⟩

theorem Touches.trans (h : Touches k w w1) (h' : Touches k w1 w') : Touches k w w' where
  others := fun k' hk => (h'.others k' hk).trans (h.others k' hk)
  proxies := fun t s' hs' => by
    obtain ⟨s1, hs1, he'⟩ := h'.proxies t s' hs'
    obtain ⟨s, hs, he⟩ := h.proxies t s1 hs1
    exact ⟨s, hs, he'.trans he⟩
  log := h.log.trans h'.log

/-- The action of a task is set, or cleared. -/
theorem touches_setAction {action : Gpointer} (hs : w.tasks t = some s)
    (hp : w'.processor = w.processor)
    (ht : w'.tasks = (w.setTask t (some { s with pAction := action })).tasks) : Touches k w w' where
  others := fun _ _ => by rw [hp]
  proxies := fun t' s' hs' => by
    by_cases htt : t' = t
    · subst htt
      rw [ht, setTask_self] at hs'
      exact ⟨s, hs, by rw [← Option.some.inj hs']⟩
    · rw [ht, setTask_ne _ _ htt] at hs'
      exact ⟨s', hs', rfl⟩
  log := hp ▸ List.prefix_refl _

theorem touches_process {op : Op} {es : List Event} (h : ServiceStep StaysOpen c w op p es)
    (hr : Replayed { w with processor := p } es w')
    (he : ∀ k', k' ≠ k → effect w.processor op k' = none) : Touches k w w' where
  others := fun k' hk => by
    have hv := (h.inv.inv.simulates h.guard h.step).view k'
    rw [he k' hk] at hv
    rw [hr.processor]
    exact (Except.ok.inj hv).symm
  proxies := fun t s' hs' => by
    obtain ⟨-, s, hs, rfl⟩ := ServiceStep.left hr hs'
    refine ⟨s, hs, ?_⟩
    split <;> rfl
  log := by
    rw [hr.processor]
    exact extends_step h.step

/-- What is left of a queue when its running task has completed. -/
def QueueView.Finishes (v : QueueView) : Prop :=
  ∀ q, v.queue = some q → q.active = true ∨ q.tasks = [] ∧ q.autoRemove = false

theorem finishes_complete {v v' : QueueView} (hs : v.serve k (.complete t) = .ok v') :
    v'.Finishes := by
  obtain ⟨q, -, rfl⟩ := of_serve_complete hs
  intro q' hq'
  rcases finish_cases k q with ⟨h, -⟩ | ⟨h, -, -⟩ | ⟨h, -, ht, ha⟩
  · simp [QueueView.put, h] at hq'
  · simp only [QueueView.put, h, Option.some.injEq] at hq'
    subst hq'
    exact Or.inl (by simp [TaskQueue.active])
  · simp only [QueueView.put, h, Option.some.injEq] at hq'
    subst hq'
    exact Or.inr ⟨ht, ha⟩

/-- `service-task.c` reports the completion of the task. -/
theorem completes (h : ServiceInv StaysOpen (.finishing k t) w) :
    ∃ w', process w .completion (.taskCompleted k t) = .ok w' ∧ ServiceInv StaysOpen .idle w' ∧
      Touches k w w' ∧ (∀ t', ¬ InFlight w'.processor.log k t') ∧
      (w'.processor.view k).Finishes ∧ w'.processor.work < w.processor.work := by
  obtain ⟨hK, hqt⟩ := h.kempt
  have hl : w.processor.lastTask = false := by simp [World.lastTask, hqt]
  obtain ⟨s, -, -, hf⟩ := h.current k t rfl
  have hg : Guard w.processor (.taskCompleted k t) := hf
  have hrep : ∀ k' t', Op.taskCompleted k t = .taskCompleted k' t' →
      Phase.finishing k t = .finishing k' t' := by
    rintro _ _ ⟨⟩
    rfl
  rcases process_cases .completion h hg (lifts_staysOpen.taskCompleted _ _ _)
    (by simp [Op.Agrees, Op.cancels]) (by simp) (by simp) hrep with
    ⟨fault, hs, -⟩ | ⟨p, es, w', hst, he, hr⟩
  · obtain ⟨p, hp⟩ := hK.advances hg trivial
    simp [hp] at hs
  · refine ⟨w', he, hst.serviceInv hr, touches_process hst hr fun k' hk => ?_, fun t' ht' => ?_, ?_, ?_⟩
    · simp [effect, hl, hk]
    · rw [hr.processor, hst.inFlight] at ht'
      obtain rfl : t' = t := hK.inv.one_inFlight (List.prefix_refl _) ht'.1 hf
      exact ht'.2 (completed_step hst.step hst.log)
    · have hv := (hK.inv.simulates hg hst.step).view k
      rw [show effect w.processor (.taskCompleted k t) k = some (.complete t) by
        simp [effect, hl]] at hv
      rw [hr.processor]
      exact finishes_complete hv
    · rw [hr.processor]
      exact work_lt hK.inv hg trivial hst.step

/-- A queue whose task runs on is cancelled. -/
theorem work_cancel {v v' : QueueView} {sync : TaskAtom → Bool} (hq : v.queue = some q)
    (hc : q.currentTask = some t) (hsync : sync t = false)
    (hs : v.serve k (.cancel sync) = .ok v') : v'.work ≤ v.work := by
  simp only [QueueView.serve, hq, TaskQueue.serve, hc, hsync, Bool.false_eq_true, if_false] at hs
  cases hcan : q.cancelled with
  | true =>
    simp only [hcan, if_true, Except.ok.injEq] at hs
    subst hs
    simp [QueueView.work, QueueView.put, hq]
  | false =>
    simp only [hcan, Bool.false_eq_true, if_false, Except.ok.injEq] at hs
    subst hs
    simp [QueueView.work, QueueView.put, hq, TaskQueue.drain, TaskQueue.work, TaskQueue.active,
      TaskQueue.busy, hc]

/-- `dleyna_service_task_process_cb` cancels the queue of its task. -/
theorem cancels (h : ServiceInv StaysOpen (.finishing k t) w) :
    ∃ w', process w .completion (.cancelQueue k w.sync) = .ok w' ∧
      ServiceInv StaysOpen (.finishing k t) w' ∧ Touches k w w' ∧
      w'.processor.work ≤ w.processor.work := by
  obtain ⟨hK, hqt⟩ := h.kempt
  have hl : w.processor.lastTask = false := by simp [World.lastTask, hqt]
  obtain ⟨s, -, -, hf⟩ := h.current k t rfl
  obtain ⟨q, hq, hc⟩ := hK.registered hf
  have hg : Guard w.processor (.cancelQueue k w.sync) := trivial
  have hother : ∀ k', k' ≠ k → effect w.processor (.cancelQueue k w.sync) k' = none := fun k' hk => by
    simp [effect, hl, hk]
  rcases process_cases .completion h hg (lifts_staysOpen.cancelQueue _ _ _)
    (by simp [Op.Agrees, Op.syncs]) (by simp) (by simp) (by simp) with
    ⟨fault, hs, -⟩ | ⟨p, es, w', hst, he, hr⟩
  · obtain ⟨p, hp⟩ := cancelQueue_registered hq w.sync
    simp [hp] at hs
  · refine ⟨w', he, hst.serviceInv hr, touches_process hst hr hother, ?_⟩
    have hS := hK.inv.simulates hg hst.step
    have hv := hS.view k
    rw [show effect w.processor (.cancelQueue k w.sync) k = some (.cancel w.sync) by
      simp [effect, hl]] at hv
    have hle := work_cancel (q := q.shape) (by simp [World.view, hq]) (by simpa using hc)
      (h.sync_current (t := t) rfl) hv
    have hsum := work_step (k := k) hS hother
    have hp : w'.processor = p := hr.processor
    rw [hp]
    omega

/-! ## Steps of the service layer -/

/-- A step on the queue `k`: it was active and runs no abandoned task, and has less work ahead of it. -/
structure Serves (k : TaskQueueKey) (w w' : ServiceWorld) : Prop extends Touches k w w' where
  inv : ServiceInv StaysOpen .idle w'
  active : ∃ q, w.processor.taskQueues.find? k = some q ∧ q.active = true
  attended : ∀ t, ¬ w.Abandoned k t
  attended' : ∀ t, ¬ w'.Abandoned k t
  finishes : (w'.processor.view k).Finishes
  work : w'.processor.work < w.processor.work

/-- The main loop takes the next task of the queue. -/
theorem takes (h : ServiceInv StaysOpen .idle w) (hg : Guard w.processor (.dispatch k)) :
    ∃ t w1, takeTask w k = .ok (some t, w1) ∧ ServiceInv StaysOpen (.starting k t) w1 ∧
      Touches k w w1 ∧ w1.processor.work < w.processor.work := by
  obtain ⟨hK, -⟩ := h.kempt
  obtain ⟨p, hp⟩ := hK.advances hg trivial
  obtain ⟨q, t, -, hl, hcur⟩ := dispatch_step hp
  refine ⟨t, { w with processor := p }, ?_, serviceInv_dispatch h lifts_staysOpen hg hp hl, ?_, ?_⟩
  · simp [takeTask, process, hp, hl, callbacks, callback, hcur]
  · refine ⟨fun k' hk => ?_, fun t s hs => ⟨s, hs, rfl⟩, extends_step hp⟩
    have hv := (hK.inv.simulates hg hp).view k'
    rw [show effect w.processor (.dispatch k) k' = none from if_neg hk] at hv
    exact (Except.ok.inj hv).symm
  · exact work_lt hK.inv hg trivial hp

/-- `t_action` returns at once. -/
theorem begins {action : Gpointer} (failed : Bool) (h : ServiceInv StaysOpen (.starting k t) w)
    (ha : ActionGuard w t action) : ∃ w1 s, runAction w t [] action failed = .ok w1 ∧
      ServiceInv StaysOpen (if action = 0 then .finishing k t else .idle) w1 ∧ Touches k w w1 ∧
      w1.processor = w.processor ∧ w1.tasks t = some s ∧ s.queueId = k ∧ s.pAction = action ∧
      (action ≠ 0 → s.proxy ≠ 0) := by
  obtain ⟨s, hs, hk, -⟩ := h.current k t rfl
  exact ⟨_, { s with pAction := action }, by simp [runAction, calls, hs]; rfl,
    serviceInv_begun h hs ha, touches_setAction hs rfl rfl, rfl, setTask_self w t _, hk, rfl,
    fun ha0 => by simpa [hs] using (ha ha0).2⟩

/-- A queue that is dispatched has a task to start, and none in flight. -/
theorem dispatchable (h : ServiceInv StaysOpen .idle w) (hg : Guard w.processor (.dispatch k)) :
    (∃ q, w.processor.taskQueues.find? k = some q ∧ q.active = true) ∧
      ∀ t, ¬ InFlight w.processor.log k t := by
  obtain ⟨hK, -⟩ := h.kempt
  obtain ⟨q, hq, hi, -⟩ := hK.ready hg
  refine ⟨⟨q, hq, by simp [TaskQueue.active, hi]⟩, fun t hf => ?_⟩
  obtain ⟨q', hq', hc⟩ := hK.registered hf
  obtain rfl : q = q' := Option.some.inj (hq.symm.trans hq')
  have hnone := ((hK.inv.queueOk hq).idle fun hz => hi ((shape_idleId_eq_zero q).mp hz)).1
  rw [shape_currentTask, hc] at hnone
  cases hnone

/-- What `dleyna_service_task_process_cb` does once `t_action` has returned. -/
def afterAction (w : ServiceWorld) (k : TaskQueueKey) (t : TaskAtom) (failed : Bool) :
    Except ServiceFault ServiceWorld :=
  match (if failed then process w .completion (.cancelQueue k w.sync) else .ok w) with
  | .error fault => .error fault
  | .ok w2 =>
    match w2.tasks t with
    | none => .error .taskFreed
    | some s2 =>
      if s2.pAction = 0 then process w2 .completion (.taskCompleted s2.queueId t) else .ok w2

/-- No action was begun. -/
theorem ends (failed : Bool) (h : ServiceInv StaysOpen (.finishing k t) w) :
    ∃ w', afterAction w k t failed = .ok w' ∧ ServiceInv StaysOpen .idle w' ∧ Touches k w w' ∧
      (∀ t', ¬ InFlight w'.processor.log k t') ∧ (w'.processor.view k).Finishes ∧
      w'.processor.work < w.processor.work := by
  have hcancel : ∃ w2, (if failed then process w .completion (.cancelQueue k w.sync) else .ok w) =
      .ok w2 ∧ ServiceInv StaysOpen (.finishing k t) w2 ∧ Touches k w w2 ∧
        w2.processor.work ≤ w.processor.work := by
    cases failed with
    | true => exact cancels h
    | false => exact ⟨w, rfl, h, .refl k w, Nat.le_refl _⟩
  obtain ⟨w2, he2, h2, ht2, hle⟩ := hcancel
  obtain ⟨s2, hs2, hk, -⟩ := h2.current k t rfl
  have ha : s2.pAction = 0 := by
    have hsync := h2.sync_current (t := t) rfl
    rw [sync_of_task hs2] at hsync
    simpa using hsync
  obtain ⟨w', he, hinv, ht, hf, hfin, hlt⟩ := completes h2
  refine ⟨w', ?_, hinv, ht2.trans ht, hf, hfin, by omega⟩
  simp only [afterAction, he2, hs2, if_pos ha, hk]
  exact he

theorem serves_dispatch {action : Gpointer} {failed : Bool} (h : ServiceInv StaysOpen .idle w)
    (hg : ServiceGuard w (.dispatch k [] action failed)) (hfail : failed = true → action = 0) :
    ∃ w', serviceStep w (.dispatch k [] action failed) = .ok w' ∧ Serves k w w' := by
  obtain ⟨-, hgd, ha⟩ := hg
  obtain ⟨hactive, hnone⟩ := dispatchable h hgd
  obtain ⟨t, w1, he1, h1, ht1, hlt1⟩ := takes h hgd
  rw [he1] at ha
  have ha : ActionGuard w1 t action := ha t rfl
  obtain ⟨w2, s, he2, h2, ht2, hp2, hs, hk, hact, hproxy⟩ := begins failed h1 ha
  have hcb : serviceStep w (.dispatch k [] action failed) = afterAction w2 k t failed := by
    simp only [serviceStep, dispatchServiceTask, he1, dleynaServiceTaskProcessCb, he2, hs, hk]
    rfl
  by_cases ha0 : action = 0
  · rw [if_pos ha0] at h2
    obtain ⟨w', he, hinv, ht, hf, hfin, hlt⟩ := ends failed h2
    refine ⟨w', hcb.trans he, (ht1.trans ht2).trans ht, hinv, hactive, fun t hab => hnone t hab.1,
      fun t hab => hf t hab.1, hfin, ?_⟩
    rw [hp2] at hlt
    omega
  · -- the action is pending: the task runs on
    rw [if_neg ha0] at h2
    have hnf : failed = false := Bool.eq_false_of_not_eq_true fun hf => ha0 (hfail hf)
    have hflight : InFlight w2.processor.log k t :=
      hk ▸ ((h2.pending t s hs).mp (hact ▸ ha0)).1
    obtain ⟨q, hq, hc⟩ := h2.kempt.1.registered hflight
    refine ⟨w2, ?_, ht1.trans ht2, h2, hactive, fun t hab => hnone t hab.1, ?_, ?_, ?_⟩
    · rw [hcb, hnf, afterAction]
      simp only [Bool.false_eq_true, if_false, hs, hact, if_neg ha0]
    · rintro t' ⟨hf', s', hs', hp'⟩
      obtain rfl : t' = t := h2.inv.one_inFlight (List.prefix_refl _) hf' hflight
      obtain rfl : s' = s := Option.some.inj (hs'.symm.trans hs)
      exact hproxy ha0 hp'
    · intro q' hq'
      obtain rfl : q.shape = q' := by simpa [World.view, hq] using hq'
      exact Or.inl (by simp [TaskQueue.active, TaskQueue.busy, hc])
    · rw [hp2]
      exact hlt1

theorem serves_actionCb {action : Gpointer} (h : ServiceInv StaysOpen .idle w)
    (hm : (action, t) ∈ w.actions) :
    ∃ k w', serviceStep w (.actionCb action t []) = .ok w' ∧ Serves k w w' := by
  obtain ⟨s, hs, hact, ha0, hp⟩ := h.actions action t hm
  have hflight : InFlight w.processor.log s.queueId t := ((h.pending t s hs).mp (hact ▸ ha0)).1
  obtain ⟨q, hq, hc⟩ := h.kempt.1.registered hflight
  obtain ⟨w1, hend, h1, ht1, hp1, hs1⟩ : ∃ w1, endAction w action t = .ok w1 ∧
      ServiceInv StaysOpen (.finishing s.queueId t) w1 ∧ Touches s.queueId w w1 ∧
      w1.processor = w.processor ∧ w1.tasks t = some { s with pAction := 0 } :=
    ⟨_, by simp [endAction, hs], serviceInv_finished h hs hm, touches_setAction hs rfl rfl, rfl,
      setTask_self w t _⟩
  obtain ⟨w', he, hinv, ht, hf, hfin, hlt⟩ := completes h1
  refine ⟨s.queueId, w', ?_, ht1.trans ht, hinv, ⟨q, hq, ?_⟩, ?_, fun t' hab => hf t' hab.1, hfin, ?_⟩
  · simp only [serviceStep, dleynaServiceTaskBeginActionCb, hend, calls, hs1]
    exact he
  · simp [TaskQueue.active, TaskQueue.busy, hc]
  · rintro t' ⟨hf', s', hs', hp'⟩
    obtain rfl : t' = t := h.inv.one_inFlight (List.prefix_refl _) hf' hflight
    obtain rfl : s' = s := Option.some.inj (hs'.symm.trans hs)
    exact hp hp'
  · rw [hp1] at hlt
    exact hlt

/-- A step in which the client makes no calls does not fault, and is one of a single queue. -/
theorem serves_unattended {op : ServiceOp} (h : ServiceInv StaysOpen .idle w)
    (hg : ServiceGuard w op) (ha : Unattended w op) :
    ∃ k w', serviceStep w op = .ok w' ∧ Serves k w w' := by
  cases op with
  | dispatch k cs action failed =>
    obtain ⟨rfl, hfail⟩ := ha
    exact ⟨k, serves_dispatch h hg hfail⟩
  | actionCb action t cs =>
    obtain rfl : cs = [] := ha
    exact serves_actionCb h hg.2
  | call _ | setQuitting | dispatchQuit | rehash _ => exact ha.elim

/-! ## Left alone -/

/-- The queue has work ahead of it in `w` and runs no abandoned task, so that it will be served. -/
def ServiceWorld.Served (w : ServiceWorld) (k : TaskQueueKey) : Prop :=
  (∃ q, w.processor.taskQueues.find? k = some q ∧ q.active = true) ∧ ∀ t, ¬ w.Abandoned k t

/-- What is known when some time has passed since `w0`, and the client has made no call. -/
structure AloneSince (w0 w : ServiceWorld) : Prop where
  inv : ServiceInv StaysOpen .idle w
  awaited : Awaited w
  log : w0.processor.log <+: w.processor.log
  served : ∀ k, w0.Served k → (∀ t, ¬ w.Abandoned k t) ∧ (w.processor.view k).Finishes
  others : ∀ k, ¬ w0.Served k → w.processor.view k = w0.processor.view k ∧
    ∀ t, w.Abandoned k t ↔ w0.Abandoned k t

theorem active_view (p : World) (k : TaskQueueKey) :
    (∃ q, p.taskQueues.find? k = some q ∧ q.active = true) ↔
      ∃ q, (p.view k).queue = some q ∧ q.active = true := by
  cases hq : p.taskQueues.find? k <;> simp [World.view, hq]

/-- The tasks in flight of a queue that nothing happened to are abandoned if they were before. -/
theorem abandoned_iff (h' : ServiceInv StaysOpen .idle w')
    (hview : w'.processor.view k = w.processor.view k)
    (hprox : ∀ t s', w'.tasks t = some s' → ∃ s, w.tasks t = some s ∧ s'.proxy = s.proxy) :
    w'.Abandoned k t ↔ w.Abandoned k t := by
  have hf : InFlight w'.processor.log k t ↔ InFlight w.processor.log k t := by
    have hlog : w'.processor.logOf k = w.processor.logOf k := congrArg QueueView.log hview
    rw [← inFlight_logOf, hlog, inFlight_logOf]
  constructor
  · rintro ⟨hf', s', hs', hp'⟩
    obtain ⟨s, hs, he⟩ := hprox t s' hs'
    exact ⟨hf.mp hf', s, hs, he ▸ hp'⟩
  · rintro ⟨hf0, s, hs, hp⟩
    obtain ⟨s', hs', -⟩ := h'.pending_of_inFlight (hf.mpr hf0)
    obtain ⟨s1, hs1, he⟩ := hprox t s' hs'
    obtain rfl : s1 = s := Option.some.inj (hs1.symm.trans hs)
    exact ⟨hf.mpr hf0, s', hs', he.trans hp⟩

theorem aloneSince_refl (h : ServiceInv StaysOpen .idle w) (ha : Awaited w) : AloneSince w w where
  inv := h
  awaited := ha
  log := List.prefix_refl _
  served := fun k hk => ⟨hk.2, fun q hq => by
    obtain ⟨q', hq', hact⟩ := (active_view _ _).mp hk.1
    obtain rfl : q = q' := Option.some.inj (hq.symm.trans hq')
    exact Or.inl hact⟩
  others := fun _ _ => ⟨rfl, fun _ => Iff.rfl⟩

theorem AloneSince.step {op : ServiceOp} (h : AloneSince w0 w) (hg : ServiceGuard w op)
    (ha : Unattended w op) (hs : serviceStep w op = .ok w') :
    AloneSince w0 w' ∧ w'.processor.work < w.processor.work := by
  obtain ⟨k, w1, hs1, hk⟩ := serves_unattended h.inv hg ha
  obtain rfl : w1 = w' := Except.ok.inj (hs1.symm.trans hs)
  -- the step is on a queue that was to be served from the start
  have hserved : w0.Served k := by
    by_contra hn
    obtain ⟨hview, hab⟩ := h.others k hn
    refine hn ⟨(active_view _ _).mpr (hview ▸ (active_view _ _).mp hk.active), fun t ht => ?_⟩
    exact hk.attended t ((hab t).mpr ht)
  refine ⟨⟨hk.inv, maintains_awaited.serviceStep (l := []) h.awaited (h.inv.mono fun _ _ _ => trivial) hg hs, h.log.trans hk.log,
    fun k' hk' => ?_, fun k' hk' => ?_⟩, hk.work⟩
  · by_cases hkk : k' = k
    · subst hkk
      exact ⟨hk.attended', hk.finishes⟩
    · obtain ⟨hna, hfin⟩ := h.served k' hk'
      refine ⟨fun t ht => hna t ?_, ?_⟩
      · exact (abandoned_iff hk.inv (hk.others k' hkk) hk.proxies).mp ht
      · rw [hk.others k' hkk]
        exact hfin
  · have hkk : k' ≠ k := fun he => hk' (he ▸ hserved)
    obtain ⟨hview, hab⟩ := h.others k' hk'
    refine ⟨(hk.others k' hkk).trans hview, fun t => ?_⟩
    rw [abandoned_iff hk.inv (hk.others k' hkk) hk.proxies, hab]

/-! ## At rest -/

section Rest

variable (hr : service.Rests Unattended w)

include hr

theorem rests_noPending (k : TaskQueueKey) : w.processor.pendingOf k = [] := by
  refine List.eq_nil_iff_forall_not_mem.mpr fun id hid => ?_
  have hg : Guard w.processor (.dispatch k) := List.mem_map.mpr ⟨_, mem_pendingOf.mp hid, rfl⟩
  refine hr (.dispatch k [] 0 false) ⟨?_, hg, ?_⟩ ⟨rfl, fun h => by cases h⟩
  · show OnOk _ (takeTask w k)
    cases takeTask w k <;> trivial
  · cases takeTask w k with
    | error fault => trivial
    | ok x => exact fun _ _ h0 => absurd rfl h0

theorem rests_noActions : w.actions = [] := by
  refine List.eq_nil_iff_forall_not_mem.mpr fun x hx => ?_
  obtain ⟨action, t⟩ := x
  refine hr (.actionCb action t []) ⟨?_, hx⟩ rfl
  show OnOk _ (endAction w action t)
  cases endAction w action t <;> trivial

/-- At rest the tasks in flight are abandoned. -/
theorem rests_abandoned (h : ServiceInv StaysOpen .idle w) (ha : Awaited w)
    (hf : InFlight w.processor.log k t) : w.Abandoned k t := by
  obtain ⟨s, hs, -, hp⟩ := h.pending_of_inFlight hf
  refine ⟨hf, s, hs, ?_⟩
  by_contra hproxy
  have hm := ha.pending t s hs hp hproxy
  rw [rests_noActions hr] at hm
  cases hm

end Rest

theorem AloneSince.tasksServed (h0 : ServiceInv StaysOpen .idle w0) (h : AloneSince w0 w)
    (hr : service.Rests Unattended w) : TasksServed w0 w := by
  have hI := h.inv.inv
  have hnone : ∀ k, w0.Served k → ∀ t, ¬ InFlight w.processor.log k t := fun k hk t hf =>
    (h.served k hk).1 t (rests_abandoned hr h.inv h.awaited hf)
  have hidle : ∀ k, w0.Served k → ∀ q, w.processor.taskQueues.find? k = some q →
      q.tasks = [] ∧ q.currentTask = none ∧ q.autoRemove = false := by
    intro k hk q hq
    have hc : q.currentTask = none := Option.eq_none_iff_forall_ne_some.mpr fun t hc =>
      hnone k hk t (hI.inFlight hq hc)
    have hi : q.idleId = 0 := by
      have hp := hI.sources.linked k q hq
      rw [rests_noPending hr k] at hp
      by_contra hi
      simp [hi] at hp
    rcases (h.served k hk).2 q.shape (by simp [World.view, hq]) with hact | ⟨ht, ha⟩
    · simp [TaskQueue.active, TaskQueue.busy, hc, hi] at hact
    · exact ⟨by simpa using ht, hc, by simpa using ha⟩
  refine ⟨rests_noPending hr, rests_noActions hr, fun k t => ?_, fun k q hq hact hna => ?_,
    fun k hk => ?_⟩
  · by_cases hk : w0.Served k
    · exact iff_of_false (hnone k hk t) (hk.2 t)
    · rw [← (h.others k hk).2]
      exact ⟨rests_abandoned hr h.inv h.awaited, And.left⟩
  · have hk : w0.Served k := ⟨⟨q, hq, hact⟩, hna⟩
    refine ⟨fun t ht => ?_, hidle k hk⟩
    by_contra hsome
    obtain ⟨s, hs⟩ := Option.ne_none_iff_exists'.mp hsome
    have hadd : t ∈ addedTasks k w0.processor.log := by
      have hh := (h0.inv.queueOk hq).history
      rw [jobEvents_logOf] at hh
      refine hh.conserve.subset ?_
      rw [List.append_assoc]
      exact List.mem_append_right _ ht
    obtain ⟨es, hes⟩ := h.log
    obtain rfl := h.inv.key_unique (h.inv.key t s hs) (addedTasks_mono hes.symm hadd)
    rcases h.inv.held hs with ⟨q', hq', hw | hc⟩ | ⟨-, hf⟩
    · rw [(hidle _ hk q' hq').1] at hw
      cases hw
    · rw [(hidle _ hk q' hq').2.1] at hc
      cases hc
    · exact hnone _ hk t hf
  · have hns : ¬ w0.Served k := by
      rintro ⟨⟨q, hq, hact⟩, hna⟩
      obtain ⟨t, ht⟩ := hk q hq hact
      exact hna t ht
    have hview := (h.others k hns).1
    have hpend : w0.processor.pendingOf k = [] := by
      have hlen : (w0.processor.pendingOf k).length = (w.processor.pendingOf k).length :=
        (congrArg QueueView.pending hview).symm
      rwa [rests_noPending hr k, List.length_nil, List.length_eq_zero_iff] at hlen
    exact unchanged_of_view h0.inv.sources hI.sources hpend (rests_noPending hr k) hview

/-- An action is pending on each of two queues, a task waits behind each, and one of the proxies is
finalized. -/
def proxyGone : List ServiceOp :=
  [.call (.addQueue ⟨1, "a", "b"⟩ flagAutoStart), .call (.addQueue ⟨2, "c", "b"⟩ flagAutoStart),
    .call (.addServiceTask ⟨1, "a", "b"⟩ 7 3 none 0), .call (.addServiceTask ⟨1, "a", "b"⟩ 8 3 none 0),
    .call (.addServiceTask ⟨2, "c", "b"⟩ 9 4 none 0), .call (.addServiceTask ⟨2, "c", "b"⟩ 10 3 none 0),
    .dispatch ⟨1, "a", "b"⟩ [] 5 false, .dispatch ⟨2, "c", "b"⟩ [] 6 false, .call (.finalizeProxy 4)]

end DleynaCore
