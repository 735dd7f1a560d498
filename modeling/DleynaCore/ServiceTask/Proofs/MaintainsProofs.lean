import DleynaCore.ServiceTask.Accounts
import DleynaCore.ServiceTask.Proofs.FailedStepProofs

/-!
# What is kept by whatever happens to the tasks

The calls of `service-task.c` write to the tasks in a few places only. A property of the tasks that is
kept in each of them is kept by every step.
-/

namespace DleynaCore

variable {w w' w1 : ServiceWorld} {l : List TaskArgs} {t task : TaskAtom} {s : ServiceTask}
  {k : TaskQueueKey} {b : Option TaskAtom} {c : Phase}
  {J : Option TaskAtom → List TaskArgs → ServiceWorld → Prop}

/-! ## What is written -/

/-- The task `t` is written to: it is `r` after that. The events `es` are recorded, and libgupnp has
these actions. -/
structure Writes (w : ServiceWorld) (t : TaskAtom) (r : Option ServiceTask) (es : List ServiceEvent)
    (actions : List (Gpointer × TaskAtom)) (w' : ServiceWorld) : Prop where
  processor : w'.processor = w.processor
  tasks : w'.tasks = (w.setTask t r).tasks
  history : w'.history = w.history ++ es
  actions : w'.actions = actions

/-- What is recorded when the action of the task is cancelled. -/
def ServiceTask.cancelEvents (t : TaskAtom) (s : ServiceTask) : List ServiceEvent :=
  (if s.proxy = 0 then [] else [.cancelAction s.proxy s.pAction]) ++ [.cancelled t s.pAction]

theorem ServiceTask.mem_cancelEvents {e : ServiceEvent} (h : e ∈ s.cancelEvents t) :
    e = .cancelAction s.proxy s.pAction ∨ e = .cancelled t s.pAction := by
  unfold ServiceTask.cancelEvents at h
  split at h
  · exact Or.inr (List.mem_singleton.mp h)
  · exact List.mem_pair.mp h

theorem ServiceTask.mem_freeCalls {e : ServiceEvent} (h : e ∈ s.freeCalls) :
    ∃ cb, e = .freeFunc cb s.userData := by
  obtain ⟨cb, -, rfl⟩ := List.mem_map.mp h
  exact ⟨cb, rfl⟩

/-- The actions that are left when that of the task is cancelled. -/
def ServiceTask.keptActions (s : ServiceTask) (actions : List (Gpointer × TaskAtom)) :
    List (Gpointer × TaskAtom) :=
  if s.proxy = 0 then actions else actions.filter fun x => x.1 ≠ s.pAction

theorem cancelCb_writes (he : dleynaServiceTaskCancelCb w t = .ok w') : ∃ s, w.tasks t = some s ∧
    (s.pAction = 0 ∧ w' = w ∨ s.pAction ≠ 0 ∧
      Writes w t (some { s with pAction := 0 }) (s.cancelEvents t) (s.keptActions w.actions) w') := by
  unfold dleynaServiceTaskCancelCb at he
  split at he
  · simp at he
  · next s hs =>
    obtain rfl := Except.ok.inj he
    refine ⟨s, hs, ?_⟩
    by_cases ha : s.pAction = 0
    · exact Or.inl ⟨ha, if_neg (not_not.mpr ha)⟩
    · rw [if_pos ha]
      by_cases hp : s.proxy = 0
      · refine Or.inr ⟨ha, ?_⟩
        rw [if_neg (not_not.mpr hp), ServiceTask.cancelEvents, ServiceTask.keptActions, if_pos hp,
          if_pos hp]
        exact ⟨rfl, rfl, rfl, rfl⟩
      · refine Or.inr ⟨ha, ?_⟩
        rw [if_pos hp, ServiceTask.cancelEvents, ServiceTask.keptActions, if_neg hp, if_neg hp]
        refine ⟨rfl, rfl, ?_, rfl⟩
        simp [ServiceWorld.emit, gupnpServiceProxyCancelAction]

theorem deleteCb_writes (he : dleynaServiceTaskDeleteCb w t = .ok w') :
    ∃ s, w.tasks t = some s ∧ Writes w t none s.freeCalls w.actions w' := by
  unfold dleynaServiceTaskDeleteCb at he
  split at he
  · simp at he
  · next s hs =>
    obtain rfl := Except.ok.inj he
    refine ⟨s, hs, ?_⟩
    cases hf : s.freeFunc with
    | none => exact ⟨rfl, rfl, by simp [ServiceTask.freeCalls, hf], rfl⟩
    | some cb => exact ⟨rfl, rfl, by simp [ServiceTask.freeCalls, hf, ServiceWorld.emit], rfl⟩

/-- `t_action` has returned, and made no calls. -/
theorem runAction_writes {action : Gpointer} {failed : Bool}
    (he : runAction w t [] action failed = .ok w') : ∃ s, w.tasks t = some s ∧
      Writes w t (some { s with pAction := action }) [.begun t action failed]
        (if action ≠ 0 then w.actions ++ [(action, t)] else w.actions) w' := by
  simp only [runAction, calls] at he
  split at he
  · simp at he
  · next s hs =>
    obtain rfl := Except.ok.inj he
    exact ⟨s, hs, rfl, rfl, rfl, rfl⟩

theorem endAction_writes {action : Gpointer} (he : endAction w action t = .ok w') :
    ∃ s, w.tasks t = some s ∧ Writes w t (some { s with pAction := 0 }) [.finished t action]
      (w.actions.erase (action, t)) w' := by
  unfold endAction at he
  split at he
  · simp at he
  · next s hs =>
    obtain rfl := Except.ok.inj he
    exact ⟨s, hs, rfl, rfl, rfl, rfl⟩

/-- The task that the arguments make. -/
def TaskArgs.added (k : TaskQueueKey) (a : TaskArgs) : ServiceTask :=
  addedTask k a.proxy a.freeFunc a.userData

/-- Nothing but the task and the processor is written to. -/
theorem addTask_writes {a : TaskArgs}
    (he : dleynaServiceTaskAdd w k a.task a.proxy a.freeFunc a.userData = .ok w') :
    w'.processor.log = w.processor.log ++ [.addTask k a.task] ∧
      Writes { w with processor := w'.processor } a.task (some (a.added k)) [] w.actions w' := by
  cases hs : step w.processor (.addTask k a.task) with
  | error fault => simp [dleynaServiceTaskAdd_error hs] at he
  | ok p =>
    rw [dleynaServiceTaskAdd_ok hs] at he
    obtain rfl := Except.ok.inj he
    exact ⟨addTask_step hs, rfl, rfl, by simp, rfl⟩

/-! ## Properties of the tasks -/

/-- The property is kept in every place where a task is written to. Its first argument is the task
whose `t_action` is being called, and the second one are the tasks that were added. -/
structure Maintains (J : Option TaskAtom → List TaskArgs → ServiceWorld → Prop) : Prop where
  stepped : ∀ {b l w es} (p : World), J b l w → p.log = w.processor.log ++ es →
    (∀ k t u, .processCb k t u ∉ es) → J b l { w with processor := p }
  cancelled : ∀ {b l w w' t s}, J b l w → w.tasks t = some s → s.pAction ≠ 0 →
    Writes w t (some { s with pAction := 0 }) (s.cancelEvents t) (s.keptActions w.actions) w' →
    J b l w'
  deleted : ∀ {b l w w' t s}, J b l w → w.tasks t = some s → s.pAction = 0 →
    Writes w t none s.freeCalls w.actions w' → J b l w'
  added : ∀ {b l w w' k} (a : TaskArgs), J b l w → a.task ∉ allAdded w.processor.log →
    w.tasks a.task = none → w'.processor.log = w.processor.log ++ [.addTask k a.task] →
    Writes { w with processor := w'.processor } a.task (some (a.added k)) [] w.actions w' →
    J b (l ++ [a]) w'
  finalized : ∀ {b l w} proxy, J b l w → J b l (finalizeProxy w proxy)
  /-- The task is handed to the process callback. -/
  taken : ∀ {l w k t u} (p : World), J none l w → (∃ ops, processor.Run Any ops p) →
    p.log = w.processor.log ++ [.processCb k t u] → J (some t) l { w with processor := p }
  /-- `t_action` has returned. -/
  begun : ∀ {l w w' k t s action failed}, J (some t) l w → ServiceInv Any (.starting k t) w →
    ActionGuard w t action → w.tasks t = some s →
    Writes w t (some { s with pAction := action }) [.begun t action failed]
      (if action ≠ 0 then w.actions ++ [(action, t)] else w.actions) w' → J none l w'
  finished : ∀ {l w w' action t s}, J none l w → w.tasks t = some s → s.pAction = action →
    action ≠ 0 → Writes w t (some { s with pAction := 0 }) [.finished t action]
      (w.actions.erase (action, t)) w' → J none l w'

namespace Maintains

theorem callbacks {es : List Event} (hJ : Maintains J) (h : J b l w) (hh : Handed w es)
    (hw : w.ActionsOk) (he : DleynaCore.callbacks w es = .ok w') : J b l w' := by
  induction es generalizing w with
  | nil =>
    obtain rfl := Except.ok.inj he
    exact h
  | cons e es ih =>
    obtain ⟨w1, hw1, hr⟩ := hh.replayed hw
    simp only [DleynaCore.callbacks, hw1] at he
    refine ih ?_ (hh.tail hr) hr.ok he
    cases e with
    | cancelCb _ task _ =>
      obtain ⟨s, hs, ⟨-, rfl⟩ | ⟨ha, hw⟩⟩ := cancelCb_writes hw1
      · exact h
      · exact hJ.cancelled h hs ha hw
    | deleteCb _ task _ =>
      obtain ⟨s, hs, hw⟩ := deleteCb_writes hw1
      have ha := hh.sync_deleted
      rw [sync_of_task hs, bne_eq_false_iff_eq] at ha
      exact hJ.deleted h hs ha hw
    | _ =>
      obtain rfl := Except.ok.inj hw1
      exact h

/-- A step of the processor with its callbacks keeps the property, and the invariant. -/
theorem process {op : Op} {onFault : Fault → ServiceFault} (hJ : Maintains J)
    (he : DleynaCore.process w onFault op = .ok w') (h : J b l w) (hI : ServiceInv Any c w)
    (hg : Guard w.processor op) (hag : op.Agrees w) (hadd : ∀ k t, op ≠ .addTask k t)
    (hdis : ∀ k, op ≠ .dispatch k) (hrep : ∀ k t, op = .taskCompleted k t → c = .finishing k t) :
    J b l w' ∧ ServiceInv Any (op.next c) w' := by
  rcases process_cases onFault hI hg trivial hag hadd hdis hrep with
    ⟨fault, -, he'⟩ | ⟨p, es, w1, hst, he', hr⟩
  · simp [he'] at he
  · obtain rfl : w1 = w' := Except.ok.inj (he'.symm.trans he)
    refine ⟨?_, hst.serviceInv hr⟩
    unfold DleynaCore.process at he
    simp only [hst.step, hst.log, List.drop_left] at he
    refine hJ.callbacks (hJ.stepped p h hst.log fun k t u hu => ?_) hst.handed hI.actions he
    exact hdis k (process_step hI.inv hg hst.step hst.log hu)

theorem call {cl : Call} (hJ : Maintains J) (h : J b l w) (hI : ServiceInv Any c w)
    (hg : OnCall Guard w cl) (he : DleynaCore.call w cl = .ok w') : J b (l ++ cl.added) w' := by
  cases cl with
  | addServiceTask queueId task proxy freeFunc userData =>
    obtain ⟨hl, hw⟩ := addTask_writes (a := ⟨task, proxy, freeFunc, userData⟩) he
    have hg := hg _ rfl
    exact hJ.added _ h hg (hI.fresh hg).1 hl hw
  | finalizeProxy proxy =>
    obtain rfl := Except.ok.inj he
    simp only [Call.added, List.append_nil]
    exact hJ.finalized proxy h
  | _ =>
    simp only [DleynaCore.call] at he
    simp only [Call.added, List.append_nil]
    exact (hJ.process he h hI (hg _ rfl) (by simp [Op.Agrees, Op.cancels, Op.syncs]) (by simp)
      (by simp) (by simp)).1

theorem calls {cs : List Call} (hJ : Maintains J) (h : J b l w) (hI : ServiceInv Any c w)
    (hg : OnCalls Guard w cs) (he : DleynaCore.calls w cs = .ok w') :
    J b (l ++ cs.flatMap Call.added) w' := by
  induction cs generalizing w l with
  | nil =>
    obtain rfl := Except.ok.inj he
    simpa using h
  | cons cl cs ih =>
    obtain ⟨hg1, hg2⟩ := hg
    have hone := lands_call hI hg1 fun _ _ => trivial
    unfold DleynaCore.calls at he
    split at he
    · simp at he
    · next w1 hw1 =>
      rw [hw1] at hg2 hone
      have := ih (hJ.call h hI hg1 hw1) hone hg2 he
      simpa using this

/-- `t_action` returns after it has made its calls. -/
theorem runAction_of_calls {cs : List Call} {action : Gpointer} {failed : Bool}
    (he : DleynaCore.calls w cs = .ok w1) :
    runAction w t cs action failed = runAction w1 t [] action failed := by
  simp [runAction, he, DleynaCore.calls]

/-- A failed task cancels its queue. -/
theorem cancelFailed {failed : Bool} (hJ : Maintains J) (h : J none l w) (hI : ServiceInv Any c w)
    (he : (if failed then DleynaCore.process w .completion (.cancelQueue k w.sync) else .ok w) =
      .ok w') : J none l w' ∧ ServiceInv Any c w' := by
  cases failed with
  | false =>
    obtain rfl := Except.ok.inj he
    exact ⟨h, hI⟩
  | true =>
    exact hJ.process he h hI trivial (by simp [Op.Agrees, Op.syncs]) (by simp) (by simp) (by simp)

/-- A task with an action pending is not reported, whether the action was cancelled or not. -/
theorem pAction_of_cancelFailed {failed : Bool} {s' : ServiceTask} (hI : ServiceInv Any .idle w)
    (hs : w.tasks t = some s) (ha : s.pAction ≠ 0)
    (he : (if failed then DleynaCore.process w .completion (.cancelQueue k w.sync) else .ok w) =
      .ok w') (hs' : w'.tasks t = some s') : s'.pAction ≠ 0 := by
  cases failed with
  | false =>
    obtain rfl := Except.ok.inj he
    obtain rfl := Option.some.inj (hs.symm.trans hs')
    exact ha
  | true =>
    have hg : Guard w.processor (.cancelQueue k w.sync) := trivial
    rcases process_cases .completion hI hg trivial (by simp [Op.Agrees, Op.syncs]) (by simp) (by simp)
      (by simp) with ⟨fault, -, he'⟩ | ⟨p, es, w1, hst, he', hr⟩
    · simp [he'] at he
    · obtain rfl : w1 = w' := Except.ok.inj (he'.symm.trans he)
      rw [tasks_of_cancelled hst hr hs ha hs']
      exact ha

theorem processCb {cs : List Call} {action : Gpointer} {failed : Bool} (hJ : Maintains J)
    (h : J (some t) l w) (hI : ServiceInv Any (.starting k t) w) (hg : OnCalls Guard w cs)
    (ha : OnOk (fun w2 => ActionGuard w2 t action) (DleynaCore.calls w cs))
    (he : dleynaServiceTaskProcessCb w t cs action failed = .ok w') :
    J none (l ++ cs.flatMap Call.added) w' := by
  have hcalls := lands_calls hI hg (onCalls_any w cs)
  unfold dleynaServiceTaskProcessCb at he
  rcases runAction_cases failed hI hg (onCalls_any w cs) ha with
    ⟨fault, he'⟩ | ⟨w0, w1, s, hc, he', -, hs, hk, hact, hI1⟩
  · simp [he'] at he
  · rw [hc] at ha hcalls
    have h1 : J none (l ++ cs.flatMap Call.added) w1 := by
      obtain ⟨s0, hs0, hw⟩ := runAction_writes ((runAction_of_calls hc).symm.trans he')
      exact hJ.begun (hJ.calls h hI hg hc) hcalls ha hs0 hw
    simp only [he', hs] at he
    split at he
    · simp at he
    · next w2 hw2 =>
      obtain ⟨h2, hI2⟩ := hJ.cancelFailed h1 hI1 hw2
      split at he
      · simp at he
      · next s2 hs2 =>
        split at he
        · next ha2 =>
          by_cases ha0 : action = 0
          · rw [if_pos ha0] at hI2
            obtain ⟨s2', hs2', hk2, hf⟩ := hI2.current k t rfl
            obtain rfl : s2' = s2 := Option.some.inj (hs2'.symm.trans hs2)
            subst hk2
            exact (hJ.process he h2 hI2 hf (by simp [Op.Agrees, Op.cancels]) (by simp) (by simp)
              (by simp)).1
          · rw [if_neg ha0] at hI1
            exact absurd ha2 (pAction_of_cancelFailed hI1 hs (hact ▸ ha0) hw2 hs2)
        · obtain rfl := Except.ok.inj he
          exact h2

theorem beginActionCb {cs : List Call} {action : Gpointer} (hJ : Maintains J) (h : J none l w)
    (hI : ServiceInv Any .idle w) (hm : (action, t) ∈ w.actions)
    (hg : OnOk (fun w1 => OnCalls Guard w1 cs) (endAction w action t))
    (he : dleynaServiceTaskBeginActionCb w action t cs = .ok w') :
    J none (l ++ cs.flatMap Call.added) w' := by
  obtain ⟨s, hs, ha, ha0, -⟩ := hI.actions action t hm
  have hI1 := serviceInv_finished hI hs hm
  have hend : endAction w action t = .ok ({ w.setTask t (some { s with pAction := 0 }) with
      actions := w.actions.erase (action, t) }.emit [.finished t action]) := by
    simp [endAction, hs]
  obtain ⟨s', hs', hw⟩ := endAction_writes hend
  obtain rfl : s' = s := Option.some.inj (hs'.symm.trans hs)
  have h1 := hJ.finished h hs ha ha0 hw
  unfold dleynaServiceTaskBeginActionCb at he
  rw [hend] at he hg
  have hcalls := lands_calls hI1 hg (onCalls_any _ cs)
  simp only at he
  split at he
  · simp at he
  · next w2 hw2 =>
    rw [hw2] at hcalls
    obtain ⟨s2, hs2, hk, hf⟩ := hcalls.current _ t rfl
    simp only [hs2] at he
    rw [hk] at he
    exact (hJ.process he (hJ.calls h1 hI1 hg hw2) hcalls hf (by simp [Op.Agrees, Op.cancels])
      (by simp) (by simp) (by simp)).1

/-- A dispatch takes a task. -/
theorem takeTask (hJ : Maintains J) (h : J none l w) (hI : ServiceInv Any .idle w)
    (hg : Guard w.processor (.dispatch k)) {x : Option TaskAtom × ServiceWorld}
    (he : DleynaCore.takeTask w k = .ok x) :
    ∃ t, x.1 = some t ∧ J (some t) l x.2 ∧ ServiceInv Any (.starting k t) x.2 := by
  unfold DleynaCore.takeTask at he
  split at he
  · simp at he
  · next w1 hw1 =>
    obtain rfl := Except.ok.inj he
    unfold DleynaCore.process at hw1
    split at hw1
    · simp at hw1
    · next p hp =>
      obtain ⟨q, t, -, hl, hcur⟩ := dispatch_step hp
      have hI1 := serviceInv_dispatch hI lifts_any hg hp hl
      rw [hl, List.drop_left] at hw1
      obtain rfl := Except.ok.inj hw1
      exact ⟨t, hcur, hJ.taken p h hI1.run hl, hI1⟩

theorem serviceStep {op : ServiceOp} (hJ : Maintains J) (h : J none l w)
    (hI : ServiceInv Any .idle w) (hg : ServiceGuard w op)
    (he : DleynaCore.serviceStep w op = .ok w') : J none (l ++ op.added) w' := by
  cases op with
  | call cl => exact hJ.call h hI hg.1 he
  | dispatch queueId cs action failed =>
    obtain ⟨hc, hd, ha⟩ := hg
    simp only [DleynaCore.serviceStep, dispatchServiceTask] at he
    cases hx : DleynaCore.takeTask w queueId with
    | error fault => simp [hx] at he
    | ok x =>
      obtain ⟨t, ht, h1, hI1⟩ := hJ.takeTask h hI hd hx
      obtain ⟨_, w1⟩ := x
      obtain rfl : _ = some t := ht
      simp only [hx] at he
      simp only [OnClient, hx] at hc
      rw [hx] at ha
      refine hJ.processCb h1 hI1 hc ?_ he
      revert ha
      show OnOk _ (DleynaCore.calls w1 cs) → _
      cases DleynaCore.calls w1 cs with
      | error fault => exact id
      | ok w2 => exact fun ha => ha t rfl
  | actionCb action task cs => exact hJ.beginActionCb h hI hg.2 hg.1 he
  | setQuitting | dispatchQuit | rehash taskQueues =>
    simp only [DleynaCore.serviceStep] at he
    rw [ServiceOp.added, List.append_nil]
    exact (hJ.process he h hI hg.1 (by simp [Op.Agrees, Op.cancels, Op.syncs]) (by simp) (by simp)
      (by simp)).1

/-- What is kept holds in every run, if it does so without any task. -/
theorem run {P : ServiceWorld → ServiceOp → Prop} {ops : List ServiceOp} (hJ : Maintains J)
    (h0 : J none [] ServiceWorld.new) (h : service.Run P ops w) : J none (addedArgs ops) w := by
  induction h with
  | nil => exact h0
  | snoc h hg _ hs ih =>
    simpa [addedArgs] using hJ.serviceStep ih (serviceInv_any h) hg hs

end Maintains

end DleynaCore
