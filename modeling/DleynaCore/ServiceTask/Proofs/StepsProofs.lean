import DleynaCore.ServiceTask.Proofs.InvariantProofs
import DleynaCore.TaskProcessor.Proofs.CompletionProofs

/-!
# Steps of the service layer

Every step keeps the invariant. A step in which no `t_action` fails with an action pending uses no
freed task, and if the processor keeps the queues of its tasks in flight, what the step calls to
report or cancel a task does not fault either.
-/

namespace DleynaCore

variable {w w' : ServiceWorld} {op : Op} {t task : TaskAtom} {s : ServiceTask} {c : Phase}
  {P : World → Op → Prop} {k : TaskQueueKey} {onFault : Fault → ServiceFault}

/-- `P` does not restrict what `service-task.c` and the main loop call. -/
structure Lifts (P : World → Op → Prop) : Prop where
  dispatch : ∀ w k, P w (.dispatch k)
  taskCompleted : ∀ w k t, P w (.taskCompleted k t)
  cancelQueue : ∀ w k sync, P w (.cancelQueue k sync)

/-- The queue of a task in flight is registered, as long as the steps of the processor satisfy `P`. -/
def Tracks (P : World → Op → Prop) : Prop := ∀ ops w, processor.Run P ops w → TracksFlights w

/-- The result keeps the invariant; on the condition `safe`, only a call of the client or of the main
loop can fault. -/
def Lands (P : World → Op → Prop) (c : Phase) (safe : Prop) :
    Except ServiceFault ServiceWorld → Prop
  | .ok w => ServiceInv P c w
  | .error fault => safe → ∃ fault', fault = .processor fault'

theorem Lands.weaken {safe safe' : Prop} {r : Except ServiceFault ServiceWorld} (h : safe' → safe)
    (hr : Lands P c safe r) : Lands P c safe' r := by
  cases r with
  | error fault => exact fun hsafe => hr (h hsafe)
  | ok w => exact hr

/-- A step of the processor faults, or its callbacks can be made. -/
theorem process_cases (onFault : Fault → ServiceFault) (h : ServiceInv P c w) (hg : Guard w.processor op) (hP : P w.processor op)
    (hag : op.Agrees w) (hadd : ∀ k t, op ≠ .addTask k t) (hdis : ∀ k, op ≠ .dispatch k)
    (hrep : ∀ k t, op = .taskCompleted k t → c = .finishing k t) :
    (∃ fault, step w.processor op = .error fault ∧ process w onFault op = .error (onFault fault)) ∨
      ∃ p es w', ServiceStep P c w op p es ∧ process w onFault op = .ok w' ∧
        Replayed { w with processor := p } es w' := by
  cases hs : step w.processor op with
  | error fault => exact Or.inl ⟨fault, rfl, by simp [process, hs]⟩
  | ok p =>
    obtain ⟨es, hl⟩ := extends_step hs
    have hst : ServiceStep P c w op p es :=
      ⟨h, hg, hP, hag, hadd, hdis, hrep, hs, hl.symm⟩
    have hact : ServiceWorld.ActionsOk { w with processor := p } := h.actions
    obtain ⟨w', hcb, hr⟩ := callbacks_replayed hst.handed hact
    refine Or.inr ⟨p, es, w', hst, ?_, hr⟩
    simp [process, hs, ← hl, hcb]

theorem lands_process {safe : Prop} (h : ServiceInv P c w) (hg : Guard w.processor op)
    (hP : P w.processor op) (hag : op.Agrees w) (hadd : ∀ k t, op ≠ .addTask k t)
    (hdis : ∀ k, op ≠ .dispatch k) (hrep : ∀ k t, op = .taskCompleted k t → c = .finishing k t)
    (hsafe : safe → ∀ fault, step w.processor op = .error fault →
      ∃ fault', onFault fault = .processor fault') :
    Lands P (op.next c) safe (process w onFault op) := by
  rcases process_cases onFault h hg hP hag hadd hdis hrep with
    ⟨fault, hs, he⟩ | ⟨p, es, w', hst, he, hr⟩
  · rw [he]
    exact fun hsf => hsafe hsf fault hs
  · rw [he]
    exact hst.serviceInv hr

/-! ## Calls of the client -/

/-- The task that `dleyna_service_task_add` allocates. -/
def addedTask (k : TaskQueueKey) (proxy : Gpointer) (freeFunc : Option Gpointer)
    (userData : Gpointer) : ServiceTask :=
  { queueId := k, pAction := 0, freeFunc := freeFunc, userData := userData, proxy := proxy }

theorem dleynaServiceTaskAdd_error {fault : Fault} {proxy userData : Gpointer}
    {freeFunc : Option Gpointer} (hs : step w.processor (.addTask k task) = .error fault) :
    dleynaServiceTaskAdd w k task proxy freeFunc userData = .error (.processor fault) := by
  simp [dleynaServiceTaskAdd, process, hs]

theorem dleynaServiceTaskAdd_ok {p : World} {proxy userData : Gpointer} {freeFunc : Option Gpointer}
    (hs : step w.processor (.addTask k task) = .ok p) :
    dleynaServiceTaskAdd w k task proxy freeFunc userData =
      .ok { w.setTask task (some (addedTask k proxy freeFunc userData)) with processor := p } := by
  simp [dleynaServiceTaskAdd, process, hs, addTask_step hs, callbacks, callback, addedTask]

/-- A task that was never added is not in memory, and nothing has happened to it. -/
theorem ServiceInv.fresh (h : ServiceInv P c w) (hg : task ∉ allAdded w.processor.log) :
    w.tasks task = none ∧ (∀ k, task ∉ addedTasks k w.processor.log) ∧
      w.processor.log.any (Event.deletes task) = false := by
  have hnot : ∀ k, task ∉ addedTasks k w.processor.log := fun k hm => hg (mem_allAdded hm)
  refine ⟨?_, hnot, List.any_eq_false.mpr fun e he hd => ?_⟩
  · by_contra hne
    obtain ⟨⟨k, hk⟩, -⟩ := (h.alive task).mp (Option.isSome_iff_ne_none.mpr hne)
    exact hnot k hk
  · obtain ⟨k, f, -, hf, rfl⟩ := jobEvent_of_task (task_of_deletes hd)
    exact hnot k (job_added h.inv he hf)

theorem serviceInv_addTask {p : World} {proxy userData : Gpointer} {freeFunc : Option Gpointer}
    (h : ServiceInv P c w) (hg : Guard w.processor (.addTask k task))
    (hP : P w.processor (.addTask k task)) (hs : step w.processor (.addTask k task) = .ok p) :
    ServiceInv P c
      { w.setTask task (some (addedTask k proxy freeFunc userData)) with processor := p } := by
  have hl := addTask_step hs
  obtain ⟨hnone, hfresh, hdel⟩ := h.fresh hg
  have hadded : ∀ t k', t ∈ addedTasks k' p.log ↔
      t ∈ addedTasks k' w.processor.log ∨ k = k' ∧ t = task := by
    intro t k'
    rw [hl, addedTasks_append, List.mem_append]
    refine or_congr_right ?_
    by_cases hk : k = k' <;> simp [addedTasks, jobEvents, jobEvent, hk]
  have hflight : ∀ t k', InFlight p.log k' t ↔ InFlight w.processor.log k' t := by
    intro t k'
    rw [inFlight_append h.inv hg hs hl (by simp)]
    simp
  have hany : ∀ t, p.log.any (Event.deletes t) = w.processor.log.any (Event.deletes t) := by
    intro t
    rw [hl, List.any_append]
    simp [Event.deletes]
  have hold : ∀ t s, w.tasks t = some s →
      (w.setTask task (some (addedTask k proxy freeFunc userData))).tasks t = some s := by
    intro t s hs'
    rw [setTask_ne _ _ (by rintro rfl; simp [hnone] at hs'), hs']
  obtain ⟨ops, hrun⟩ := h.run
  exact
    { run := ⟨_, hrun.snoc (a := Op.addTask k task) hg hP hs⟩
      alive := by
        intro t
        rw [hany]
        by_cases ht : t = task
        · subst ht
          simp [hadded, hdel]
        · rw [setTask_ne _ _ ht, h.alive]
          simp [hadded, ht]
      key := by
        intro t s hs'
        by_cases ht : t = task
        · subst ht
          rw [setTask_self] at hs'
          obtain rfl := Option.some.inj hs'
          exact (hadded _ _).mpr (Or.inr ⟨rfl, rfl⟩)
        · rw [setTask_ne _ _ ht] at hs'
          exact (hadded _ _).mpr (Or.inl (h.key t s hs'))
      pending := by
        intro t s hs'
        rw [hflight]
        by_cases ht : t = task
        · -- the new task has not been processed
          subst ht
          rw [setTask_self] at hs'
          obtain rfl := Option.some.inj hs'
          refine ⟨fun ha => absurd rfl ha, fun hf => ?_⟩
          obtain ⟨u, hu⟩ := mem_processedTasks hf.1.1
          exact absurd (job_added h.inv hu (f := .begun t) (if_pos rfl)) (hfresh k)
        · rw [setTask_ne _ _ ht] at hs'
          exact h.pending t s hs'
      actions := by
        intro a t hm
        obtain ⟨s, hs', ha⟩ := h.actions a t hm
        exact ⟨s, hold t s hs', ha⟩
      distinct := h.distinct
      settled := by
        intro t ht
        rcases h.settled t ht with hsome | ⟨k', hk'⟩
        · exact Or.inl hsome
        · exact Or.inr ⟨k', completedTasks_mono hl hk'⟩
      current := by
        intro k' t ht
        obtain ⟨s, hs', hk, hf⟩ := h.current k' t ht
        exact ⟨s, hold t s hs', hk, (hflight _ _).mpr hf⟩ }

/-- The actions of a finalized proxy are forgotten. -/
theorem serviceInv_finalizeProxy {proxy : Gpointer} (h : ServiceInv P c w) :
    ServiceInv P c (finalizeProxy w proxy) := by
  have htask : ∀ {t s'}, (finalizeProxy w proxy).tasks t = some s' →
      ∃ s, w.tasks t = some s ∧ s'.queueId = s.queueId ∧ s'.pAction = s.pAction := by
    intro t s' hs'
    obtain ⟨s, hs, rfl⟩ := Option.map_eq_some_iff.mp hs'
    refine ⟨s, hs, ?_⟩
    split <;> exact ⟨rfl, rfl⟩
  exact
    { run := h.run
      alive := by
        intro t
        show ((w.tasks t).map _).isSome = true ↔ _
        rw [Option.isSome_map]
        exact h.alive t
      key := by
        intro t s' hs'
        obtain ⟨s, hs, hk, -⟩ := htask hs'
        rw [hk]
        exact h.key t s hs
      pending := by
        intro t s' hs'
        obtain ⟨s, hs, hk, ha⟩ := htask hs'
        rw [hk, ha]
        exact h.pending t s hs
      actions := by
        intro a t hm
        obtain ⟨hm, hp⟩ := List.mem_filter.mp hm
        obtain ⟨s, hs, ha, ha0, hproxy⟩ := h.actions a t hm
        have hne : s.proxy ≠ proxy := by simpa [hs] using hp
        exact ⟨s, by simp [finalizeProxy, hs, hne], ha, ha0, hproxy⟩
      distinct := h.distinct.sublist (List.filter_sublist.map _)
      settled := h.settled
      current := by
        intro k t ht
        obtain ⟨s, hs, hk, hf⟩ := h.current k t ht
        refine ⟨_, by simp [finalizeProxy, hs]; rfl, ?_, hf⟩
        split <;> exact hk }

/-- A call of the client. -/
theorem lands_call {cl : Call} (h : ServiceInv P c w) (hg : OnCall Guard w cl) (hP : OnCall P w cl) :
    Lands P c True (call w cl) := by
  cases cl with
  | addServiceTask queueId task proxy freeFunc userData =>
    have hg := hg _ rfl
    have hP := hP _ rfl
    cases hs : step w.processor (.addTask queueId task) with
    | error fault =>
      rw [call, dleynaServiceTaskAdd_error hs]
      exact fun _ => ⟨fault, rfl⟩
    | ok p =>
      rw [call, dleynaServiceTaskAdd_ok hs]
      exact serviceInv_addTask h hg hP hs
  | finalizeProxy proxy => exact serviceInv_finalizeProxy h
  | _ =>
    exact lands_process h (hg _ rfl) (hP _ rfl) (by simp [Op.Agrees, Op.cancels, Op.syncs])
      (by simp) (by simp) (by simp) fun _ fault _ => ⟨fault, rfl⟩

/-- Calls of the client. -/
theorem lands_calls {cs : List Call} (h : ServiceInv P c w) (hg : OnCalls Guard w cs)
    (hP : OnCalls P w cs) : Lands P c True (calls w cs) := by
  induction cs generalizing w with
  | nil => exact h
  | cons cl cs ih =>
    have hone := lands_call h hg.1 hP.1
    have hg' := hg.2
    have hP' := hP.2
    unfold calls
    cases hc : call w cl with
    | error fault =>
      rw [hc] at hone
      exact hone
    | ok w1 =>
      rw [hc] at hone hg' hP'
      exact ih hone hg' hP'

/-! ## Actions -/

/-- After a dispatch, the task that was taken is about to be started. -/
theorem serviceInv_dispatch {p : World} {u : Gpointer} (h : ServiceInv P .idle w) (hL : Lifts P)
    (hg : Guard w.processor (.dispatch k)) (hs : step w.processor (.dispatch k) = .ok p)
    (hl : p.log = w.processor.log ++ [.processCb k t u]) :
    ServiceInv P (.starting k t) { w with processor := p } := by
  obtain ⟨ops, hrun⟩ := h.run
  have hrun' := hrun.snoc (a := Op.dispatch k) hg (hL.dispatch _ _) hs
  have hI' := inv_run hrun'
  obtain ⟨hnew, hiff⟩ := inFlight_dispatched h.inv hI' hl
  have hadd : ∀ k' t', t' ∈ addedTasks k' p.log ↔ t' ∈ addedTasks k' w.processor.log := by
    intro k' t'
    refine ⟨fun ht => ?_, addedTasks_mono hl⟩
    rcases added_step h.inv hg hs ht with ht | he
    · exact ht
    · simp at he
  have hany : ∀ t', p.log.any (Event.deletes t') = w.processor.log.any (Event.deletes t') := by
    intro t'
    rw [hl, List.any_append]
    simp [Event.deletes]
  have hmem : Event.processCb k t u ∈ p.log := by
    rw [hl]
    simp
  have htadd : t ∈ addedTasks k w.processor.log :=
    (hadd k t).mp (job_added hI' hmem (f := .begun t) (if_pos rfl))
  have hdel : w.processor.log.any (Event.deletes t) = false := by
    have hlast := deletedLast_run hrun'
    rw [hl, List.pairwise_append] at hlast
    refine List.any_eq_false.mpr fun e he hd => ?_
    exact hlast.2.2 e he _ (List.mem_singleton.mpr rfl) t hd rfl
  exact
    { run := ⟨_, hrun'⟩
      alive := by
        intro t'
        rw [hany]
        simp only [hadd]
        exact h.alive t'
      key := by
        intro t' s hs'
        exact (hadd _ _).mpr (h.key t' s hs')
      pending := by
        intro t' s hs'
        rw [h.pending t' s hs', hiff]
        by_cases ht : t' = t
        · subst ht
          obtain rfl := h.key_unique (h.key t' s hs') htadd
          simp [hnew, Phase.task, Phase.current]
        · simp [ht, Phase.task, Phase.current, Ne.symm ht]
      actions := h.actions
      distinct := h.distinct
      settled := by
        intro t' ht
        rcases h.settled t' ht with hc | ⟨k', hk'⟩
        · simp [Phase.done] at hc
        · exact Or.inr ⟨k', completedTasks_mono hl hk'⟩
      current := by
        intro k' t' ht
        obtain ⟨rfl, rfl⟩ := Prod.mk.inj (Option.some.inj ht)
        obtain ⟨s, hs'⟩ := Option.isSome_iff_exists.mp ((h.alive t).mpr ⟨⟨k, htadd⟩, hdel⟩)
        have hk : s.queueId = k := h.key_unique (h.key t s hs') htadd
        exact ⟨s, hs', hk, (hiff k t).mpr (Or.inr ⟨rfl, rfl⟩)⟩ }

/-- A dispatch hands the next task to the process callback. -/
theorem takeTask_cases (h : ServiceInv P .idle w) (hL : Lifts P)
    (hg : Guard w.processor (.dispatch k)) :
    (∃ fault, takeTask w k = .error (.processor fault)) ∨
      ∃ t w1, takeTask w k = .ok (some t, w1) ∧ ServiceInv P (.starting k t) w1 := by
  cases hs : step w.processor (.dispatch k) with
  | error fault => exact Or.inl ⟨fault, by simp [takeTask, process, hs]⟩
  | ok p =>
    obtain ⟨q, t, -, hl, hcur⟩ := dispatch_step hs
    refine Or.inr ⟨t, { w with processor := p }, ?_, serviceInv_dispatch h hL hg hs hl⟩
    simp [takeTask, process, hs, hl, callbacks, callback, hcur]

/-- The action of a task is set, or cleared. -/
theorem serviceInv_setAction {c' : Phase} (action : Gpointer) (h : ServiceInv P c w)
    (hs : w.tasks t = some s) (hp : w'.processor = w.processor)
    (ht : w'.tasks = (w.setTask t (some { s with pAction := action })).tasks)
    (hpend : action ≠ 0 ↔ InFlight w.processor.log s.queueId t ∧ c'.task ≠ some t)
    (hother : ∀ t', t' ≠ t → (c'.task ≠ some t' ↔ c.task ≠ some t'))
    (hact : w'.ActionsOk) (hdis : (w'.actions.map Prod.fst).Nodup)
    (hset : ∀ t', w'.Settled t' → c'.done = some t' ∨ ∃ k, t' ∈ completedTasks k w.processor.log)
    (hcur : ∀ k' t', c'.current = some (k', t') →
      t' = t ∧ s.queueId = k' ∧ InFlight w.processor.log k' t') : ServiceInv P c' w' := by
  have hself : w'.tasks t = some { s with pAction := action } := by
    rw [ht]
    exact setTask_self w t _
  have hne : ∀ {t'}, t' ≠ t → w'.tasks t' = w.tasks t' := fun h' => by
    rw [ht]
    exact setTask_ne w _ h'
  have hsome : ∀ t', (w'.tasks t').isSome = (w.tasks t').isSome := by
    intro t'
    by_cases htt : t' = t
    · rw [htt, hself, hs]
      rfl
    · rw [hne htt]
  exact
    { run := hp ▸ h.run
      alive := by
        intro t'
        rw [hsome, hp]
        exact h.alive t'
      key := by
        intro t' s' hs'
        rw [hp]
        by_cases htt : t' = t
        · subst htt
          obtain rfl := Option.some.inj (hself.symm.trans hs')
          exact h.key t' s hs
        · exact h.key t' s' ((hne htt).symm.trans hs')
      pending := by
        intro t' s' hs'
        rw [hp]
        by_cases htt : t' = t
        · subst htt
          obtain rfl := Option.some.inj (hself.symm.trans hs')
          exact hpend
        · rw [h.pending t' s' ((hne htt).symm.trans hs'), hother t' htt]
      actions := hact
      distinct := hdis
      settled := by
        intro t' hst
        rw [hp]
        exact hset t' hst
      current := by
        intro k' t' hc
        rw [hp]
        obtain ⟨rfl, hk, hf⟩ := hcur k' t' hc
        exact ⟨_, hself, hk, hf⟩ }

/-- What one more event of the history settles. -/
theorem settled_emit {e : ServiceEvent} (h : w'.history = w.history ++ [e]) (ht : w'.Settled t) :
    w.Settled t ∨ (∃ a, e = .finished t a ∨ e = .cancelled t a) ∨ ∃ failed, e = .begun t 0 failed := by
  have hmem : ∀ f, f ∈ w'.history → f ∈ w.history ∨ e = f := fun f hf => by
    rw [h] at hf
    simpa [eq_comm] using hf
  rcases ht with ⟨a, ht | ht⟩ | ⟨failed, ht⟩
  · exact (hmem _ ht).imp (fun ht => Or.inl ⟨a, Or.inl ht⟩) fun he => Or.inl ⟨a, Or.inl he⟩
  · exact (hmem _ ht).imp (fun ht => Or.inl ⟨a, Or.inr ht⟩) fun he => Or.inl ⟨a, Or.inr he⟩
  · exact (hmem _ ht).imp (fun ht => Or.inr ⟨failed, ht⟩) fun he => Or.inr ⟨failed, he⟩

/-- What `t_action` returns becomes the action of the task. -/
theorem serviceInv_begun {action : Gpointer} {failed : Bool} (h : ServiceInv P (.starting k t) w)
    (hs : w.tasks t = some s) (ha : ActionGuard w t action) :
    ServiceInv P (if action = 0 then .finishing k t else .idle)
      ({ w.setTask t (some { s with pAction := action }) with
        actions := if action ≠ 0 then w.actions ++ [(action, t)] else w.actions }.emit
          [.begun t action failed]) := by
  obtain ⟨s0, hs0, hk, hf⟩ := h.current k t rfl
  obtain rfl : s0 = s := Option.some.inj (hs0.symm.trans hs)
  have hclear : s0.pAction = 0 := by
    have hsync := h.sync_current (t := t) rfl
    rw [sync_of_task hs] at hsync
    simpa using hsync
  have hnot : ∀ a t', (a, t') ∈ w.actions → t' ≠ t := by
    rintro a t' hm rfl
    obtain ⟨s', hs', has, ha0, -⟩ := h.actions a t' hm
    obtain rfl : s' = s0 := Option.some.inj (hs'.symm.trans hs)
    exact ha0 (has ▸ hclear)
  refine serviceInv_setAction action h hs rfl rfl ?_ (fun t' ht => ?_) (fun a t' hm => ?_)
    ?_ (fun t' ht => ?_) fun k' t' hc => ?_
  · rw [hk]
    by_cases ha0 : action = 0 <;> simp [ha0, Phase.task, Phase.current, hf]
  · by_cases ha0 : action = 0 <;> simp [ha0, Phase.task, Phase.current, Ne.symm ht]
  · have hcases : (a, t') ∈ w.actions ∨ action ≠ 0 ∧ a = action ∧ t' = t := by
      by_cases ha0 : action = 0
      · exact Or.inl (by simpa [ServiceWorld.emit, ha0] using hm)
      · simpa [ServiceWorld.emit, ha0] using hm
    rcases hcases with hm | ⟨ha0, rfl, rfl⟩
    · obtain ⟨s', hs', has⟩ := h.actions a t' hm
      exact ⟨s', (setTask_ne w _ (hnot a t' hm)).trans hs', has⟩
    · exact ⟨_, setTask_self w t' _, rfl, ha0, by simpa [hs] using (ha ha0).2⟩
  · show ((if action ≠ 0 then w.actions ++ [(action, t)] else w.actions).map Prod.fst).Nodup
    by_cases ha0 : action = 0
    · simpa [ha0] using h.distinct
    · rw [if_pos ha0, List.map_append, List.nodup_append]
      refine ⟨h.distinct, by simp, fun a hm b hb => ?_⟩
      rintro rfl
      obtain rfl : a = action := by simpa using hb
      exact (ha ha0).1 hm
  · rcases settled_emit rfl ht with ht | ⟨a, he | he⟩ | ⟨failed', he⟩
    · exact (h.settled t' ht).imp (fun hc => by simp [Phase.done] at hc) id
    · simp at he
    · simp at he
    · obtain ⟨rfl, ha0, -⟩ := ServiceEvent.begun.inj he
      exact Or.inl (by simp [ha0, Phase.done])
  · by_cases ha0 : action = 0
    · rw [if_pos ha0] at hc
      obtain ⟨rfl, rfl⟩ := Prod.mk.inj (Option.some.inj hc)
      exact ⟨rfl, hk, hf⟩
    · rw [if_neg ha0] at hc
      simp [Phase.current] at hc

/-- The action has finished: its task is about to be completed. -/
theorem serviceInv_finished {action : Gpointer} (h : ServiceInv P .idle w) (hs : w.tasks t = some s)
    (hm : (action, t) ∈ w.actions) :
    ServiceInv P (.finishing s.queueId t)
      ({ w.setTask t (some { s with pAction := 0 }) with
        actions := w.actions.erase (action, t) }.emit [.finished t action]) := by
  obtain ⟨s0, hs0, ha, ha0, hp⟩ := h.actions action t hm
  obtain rfl : s0 = s := Option.some.inj (hs0.symm.trans hs)
  have hf : InFlight w.processor.log s0.queueId t := ((h.pending t s0 hs).mp (ha.symm ▸ ha0)).1
  refine serviceInv_setAction 0 h hs rfl rfl ?_ (fun t' ht => ?_) (fun a t' hm' => ?_)
    (h.distinct.sublist (List.erase_sublist.map _)) (fun t' ht => ?_) fun k' t' hc => ?_
  · simp [Phase.task, Phase.current]
  · simp [Phase.task, Phase.current, Ne.symm ht]
  · have hm' : (a, t') ∈ w.actions.erase (action, t) := hm'
    obtain ⟨s', hs', has⟩ := h.actions a t' (List.mem_of_mem_erase hm')
    have ht : t' ≠ t := by
      rintro rfl
      obtain rfl : s' = s0 := Option.some.inj (hs'.symm.trans hs)
      rw [← has.1, ha] at hm'
      exact ((List.Nodup.of_map _ h.distinct).mem_erase_iff.mp hm').1 rfl
    exact ⟨s', (setTask_ne w _ ht).trans hs', has⟩
  · rcases settled_emit rfl ht with ht | ⟨a, he | he⟩ | ⟨failed, he⟩
    · exact (h.settled t' ht).imp (fun hc => by simp [Phase.done] at hc) id
    · exact Or.inl (congrArg some (ServiceEvent.finished.inj he).1)
    · simp at he
    · simp at he
  · obtain ⟨rfl, rfl⟩ := Prod.mk.inj (Option.some.inj hc)
    exact ⟨rfl, rfl, hf⟩

/-- `service-task.c` reports the completion of the task. -/
theorem lands_completed (h : ServiceInv P (.finishing k t) w) (hL : Lifts P) :
    Lands P .idle (Tracks P) (process w .completion (.taskCompleted k t)) := by
  obtain ⟨s, -, -, hf⟩ := h.current k t rfl
  refine lands_process h hf (hL.taskCompleted _ _ _) (by simp [Op.Agrees, Op.cancels]) (by simp)
    (by simp) (fun k' t' he => ?_) fun hT fault hs => ?_
  · obtain ⟨rfl, rfl⟩ := Op.taskCompleted.inj he
    rfl
  · obtain ⟨ops, hrun⟩ := h.run
    obtain ⟨w', hw⟩ := (hT ops _ hrun).completes k t hf
    simp [hw] at hs

theorem tasks_of_cancelled {p : World} {es : List Event} {s' : ServiceTask}
    (hst : ServiceStep P c w op p es) (hr : Replayed { w with processor := p } es w')
    (hs : w.tasks t = some s) (ha : s.pAction ≠ 0) (hs' : w'.tasks t = some s') : s' = s := by
  obtain ⟨hd, s0, hs0, he⟩ := ServiceStep.left hr hs'
  obtain rfl : s0 = s := Option.some.inj (hs0.symm.trans hs)
  rw [he]
  split
  · next hc =>
    -- a task that is cancelled with its action pending is deleted
    obtain ⟨k, u, hu⟩ := ServiceStep.exists_cancelCb hc
    obtain ⟨⟨u', hu'⟩, -⟩ := hst.completed_of_cancelled hu hs ha
    simp [ServiceStep.any_deletes hu'] at hd
  · rfl

/-- `dleyna_service_task_process_cb` when no action is pending. -/
theorem lands_notPending {failed : Bool} (h : ServiceInv P (.finishing k t) w) (hL : Lifts P) :
    Lands P .idle (Tracks P)
      (match (if failed then process w .completion (.cancelQueue k w.sync) else .ok w) with
      | .error fault => .error fault
      | .ok w2 =>
        match w2.tasks t with
        | none => .error .taskFreed
        | some s2 =>
          if s2.pAction = 0 then process w2 .completion (.taskCompleted s2.queueId t) else .ok w2) := by
  have hcancel : Lands P (.finishing k t) (Tracks P)
      (if failed then process w .completion (.cancelQueue k w.sync) else .ok w) := by
    cases failed with
    | false => exact h
    | true =>
      refine lands_process h trivial (hL.cancelQueue _ _ _) (by simp [Op.Agrees, Op.syncs]) (by simp)
        (by simp) (by simp) fun hT fault hs => ?_
      -- the queue of the task is registered, so it can be cancelled
      obtain ⟨ops, hrun⟩ := h.run
      obtain ⟨s, -, -, hf⟩ := h.current k t rfl
      obtain ⟨q, hq, -⟩ := (hT ops _ hrun).registered k t hf
      obtain ⟨w', hw⟩ := cancelQueue_registered hq w.sync
      simp [hw] at hs
  cases hc : (if failed then process w .completion (.cancelQueue k w.sync) else .ok w) with
  | error fault =>
    rw [hc] at hcancel
    exact hcancel
  | ok w2 =>
    rw [hc] at hcancel
    obtain ⟨s2, hs2, hk, -⟩ := hcancel.current k t rfl
    have ha : s2.pAction = 0 := by
      have hsync := hcancel.sync_current (t := t) rfl
      rw [sync_of_task hs2] at hsync
      simpa using hsync
    simp only [hs2, if_pos ha, hk]
    exact lands_completed hcancel hL

/-- `dleyna_service_task_process_cb` when an action is pending. -/
theorem lands_pending {failed : Bool} (h : ServiceInv P .idle w) (hL : Lifts P)
    (hs : w.tasks t = some s) (ha : s.pAction ≠ 0) :
    Lands P .idle (failed = true → w.processor.isCancelled s.queueId = true)
      (match (if failed then process w .completion (.cancelQueue s.queueId w.sync) else .ok w) with
      | .error fault => .error fault
      | .ok w2 =>
        match w2.tasks t with
        | none => .error .taskFreed
        | some s2 =>
          if s2.pAction = 0 then process w2 .completion (.taskCompleted s2.queueId t) else .ok w2) := by
  cases failed with
  | false =>
    simp only [Bool.false_eq_true, if_false, hs, if_neg ha]
    exact h
  | true =>
    simp only [if_true]
    have hg : Guard w.processor (.cancelQueue s.queueId w.sync) := trivial
    rcases process_cases .completion h hg (hL.cancelQueue _ _ _) (by simp [Op.Agrees, Op.syncs]) (by simp) (by simp) (by simp) with
      ⟨fault, hstep, he⟩ | ⟨p, es, w2, hst, he, hr⟩
    · simp only [he]
      intro hsafe
      rw [cancelQueue_cancelled (hsafe trivial)] at hstep
      simp at hstep
    · simp only [he]
      cases hs2 : w2.tasks t with
      | none =>
        -- a queue that was cancelled before is not cancelled again
        intro hsafe
        have hp := hst.step
        rw [cancelQueue_cancelled (hsafe trivial)] at hp
        obtain rfl := Except.ok.inj hp
        obtain rfl : es = [] := List.self_eq_append_right.mp hst.log
        simp [hr.tasks, hs] at hs2
      | some s2 =>
        obtain rfl := tasks_of_cancelled hst hr hs ha hs2
        simp only [if_neg ha]
        exact hst.serviceInv hr

/-- What `t_action` does: its calls, then its result. -/
theorem runAction_cases {cs : List Call} {action : Gpointer} (failed : Bool)
    (h : ServiceInv P (.starting k t) w) (hg : OnCalls Guard w cs) (hP : OnCalls P w cs)
    (ha : OnOk (fun w2 => ActionGuard w2 t action) (calls w cs)) :
    (∃ fault, runAction w t cs action failed = .error (.processor fault)) ∨
      ∃ w0 w1 s, calls w cs = .ok w0 ∧ runAction w t cs action failed = .ok w1 ∧
        w1.processor = w0.processor ∧ w1.tasks t = some s ∧ s.queueId = k ∧ s.pAction = action ∧
        ServiceInv P (if action = 0 then .finishing k t else .idle) w1 := by
  have hcalls := lands_calls h hg hP
  unfold runAction
  cases hc : calls w cs with
  | error fault =>
    rw [hc] at hcalls
    obtain ⟨fault', rfl⟩ := hcalls trivial
    exact Or.inl ⟨fault', rfl⟩
  | ok w0 =>
    rw [hc] at hcalls ha
    obtain ⟨s, hs, hk, -⟩ := hcalls.current k t rfl
    simp only [hs]
    exact Or.inr ⟨w0, _, _, rfl, rfl, rfl, setTask_self w0 t _, hk, rfl,
      serviceInv_begun hcalls hs ha⟩

/-- `dleyna_service_task_process_cb`. -/
theorem lands_processCb {cs : List Call} {action : Gpointer} {failed : Bool}
    (h : ServiceInv P (.starting k t) w) (hL : Lifts P) (hg : OnCalls Guard w cs)
    (hP : OnCalls P w cs) (ha : OnOk (fun w2 => ActionGuard w2 t action) (calls w cs)) :
    Lands P .idle (Tracks P ∧ OnOk (fun w2 => failed = true → action ≠ 0 →
        w2.processor.isCancelled k = true) (calls w cs))
      (dleynaServiceTaskProcessCb w t cs action failed) := by
  unfold dleynaServiceTaskProcessCb
  rcases runAction_cases failed h hg hP ha with
    ⟨fault, he⟩ | ⟨w0, w1, s, hc, he, hp, hs, hk, hact, hinv⟩
  · rw [he]
    exact fun _ => ⟨fault, rfl⟩
  · simp only [he, hs, hk]
    by_cases ha0 : action = 0
    · rw [if_pos ha0] at hinv
      exact (lands_notPending hinv hL).weaken And.left
    · rw [if_neg ha0] at hinv
      subst hk
      refine (lands_pending hinv hL hs (hact ▸ ha0)).weaken fun hsafe hf => ?_
      have hcan := hsafe.2
      rw [hc] at hcan
      rw [hp]
      exact hcan hf ha0

/-- `dleyna_service_task_begin_action_cb`. -/
theorem lands_beginActionCb {action : Gpointer} {cs : List Call} (h : ServiceInv P .idle w)
    (hL : Lifts P) (hm : (action, t) ∈ w.actions)
    (hg : OnOk (fun w1 => OnCalls Guard w1 cs) (endAction w action t))
    (hP : OnOk (fun w1 => OnCalls P w1 cs) (endAction w action t)) :
    Lands P .idle (Tracks P) (dleynaServiceTaskBeginActionCb w action t cs) := by
  obtain ⟨s, hs, -⟩ := h.actions action t hm
  have hinv := serviceInv_finished h hs hm
  have hend : endAction w action t = .ok ({ w.setTask t (some { s with pAction := 0 }) with
      actions := w.actions.erase (action, t) }.emit [.finished t action]) := by
    simp [endAction, hs]
  unfold dleynaServiceTaskBeginActionCb
  rw [hend] at hg hP ⊢
  have hcalls := lands_calls hinv hg hP
  simp only
  generalize hr : calls _ cs = r at hcalls ⊢
  cases r with
  | error fault => exact fun _ => hcalls trivial
  | ok w2 =>
    obtain ⟨s2, hs2, hk, -⟩ := hcalls.current _ t rfl
    simp only [hs2, hk]
    exact lands_completed hcalls hL

/-- `prv_process_task` on a service queue. -/
theorem lands_dispatch {cs : List Call} {action : Gpointer} {failed : Bool}
    (h : ServiceInv P .idle w) (hL : Lifts P) (hg : ServiceGuard w (.dispatch k cs action failed))
    (hP : OnClient P w (.dispatch k cs action failed)) :
    Lands P .idle (Tracks P ∧ CompletesActions w (.dispatch k cs action failed))
      (dispatchServiceTask w k cs action failed) := by
  obtain ⟨hgc, hgd, hga⟩ := hg
  unfold dispatchServiceTask
  rcases takeTask_cases h hL hgd with ⟨fault, he⟩ | ⟨t, w1, he, hinv⟩
  · rw [he]
    exact fun _ => ⟨fault, rfl⟩
  · simp only [OnClient, he] at hgc hP
    rw [he] at hga ⊢
    have ha : OnOk (fun w2 => ActionGuard w2 t action) (calls w1 cs) := by
      revert hga
      show OnOk _ (calls w1 cs) → _
      cases calls w1 cs with
      | error fault => exact id
      | ok w2 => exact fun hga => hga t rfl
    refine (lands_processCb hinv hL hgc hP ha).weaken fun hsafe => ⟨hsafe.1, ?_⟩
    have hcond : OnOk (fun x => OnOk (fun w2 => failed = true → action ≠ 0 →
        w2.processor.isCancelled k = true) (calls x.2 cs)) (takeTask w k) := hsafe.2.2
    rw [he] at hcond
    exact hcond

/-! ## Runs -/

/-- Every step of the service layer keeps the invariant, and does not use freed memory if no `t_action`
fails with an action pending. -/
theorem lands_serviceStep {op : ServiceOp} (h : ServiceInv P .idle w) (hL : Lifts P)
    (hg : ServiceGuard w op) (hP : OnClient P w op) :
    Lands P .idle (Tracks P ∧ CompletesActions w op) (serviceStep w op) := by
  cases op with
  | call cl => exact (lands_call h hg.1 hP).weaken fun _ => trivial
  | dispatch queueId cs action failed => exact lands_dispatch h hL hg hP
  | actionCb action task cs => exact (lands_beginActionCb h hL hg.2 hg.1 hP).weaken And.left
  | setQuitting =>
    have hg : Guard w.processor (.setQuitting w.sync) := hg.1
    exact lands_process h hg hP (by simp [Op.Agrees, Op.syncs]) (by simp) (by simp) (by simp)
      fun _ fault _ => ⟨fault, rfl⟩
  | dispatchQuit =>
    have hg : Guard w.processor .dispatchQuit := hg.1
    exact lands_process h hg hP (by simp [Op.Agrees, Op.cancels]) (by simp) (by simp) (by simp)
      fun _ fault _ => ⟨fault, rfl⟩
  | rehash taskQueues =>
    have hg : Guard w.processor (.rehash taskQueues) := hg.1
    exact lands_process h hg hP (by simp [Op.Agrees, Op.cancels]) (by simp) (by simp) (by simp)
      fun _ fault _ => ⟨fault, rfl⟩

theorem serviceInv_run (hL : Lifts P) {ops : List ServiceOp} (h : service.Run (OnClient P) ops w) :
    ServiceInv P .idle w := by
  refine h.invariant (I := ServiceInv P .idle) serviceInv_new ?_
  intro _ w op w' _ hI hg hP hs
  have hl := lands_serviceStep hI hL hg hP
  rw [show serviceStep w op = .ok w' from hs] at hl
  exact hl

end DleynaCore
