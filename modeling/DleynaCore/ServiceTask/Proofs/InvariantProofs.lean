import DleynaCore.ServiceTask.Proofs.CallbacksProofs

/-!
# The invariant of the service layer

The action of a service task is pending exactly while its task is in flight, except for the task whose
own `t_action` or `callback` is being called. From this it follows that the processor hands the
callbacks of `service-task.c` live tasks only.
-/

namespace DleynaCore

/-- What `service-task.c` is doing. -/
inductive Phase where
  | idle
  /-- `t_action` of the task is being called. -/
  | starting (queueId : TaskQueueKey) (task : TaskAtom)
  /-- The action of the task is done with, and its completion is still to be reported. -/
  | finishing (queueId : TaskQueueKey) (task : TaskAtom)

namespace Phase

/-- The task whose callback is being called, with its queue. -/
def current : Phase → Option (TaskQueueKey × TaskAtom)
  | idle => none
  | starting queueId task | finishing queueId task => some (queueId, task)

/-- The task whose callback is being called. -/
def task (c : Phase) : Option TaskAtom := c.current.map Prod.snd

/-- The task whose completion is still to be reported. -/
def done : Phase → Option TaskAtom
  | finishing _ task => some task
  | _ => none

end Phase

variable {w w' : ServiceWorld} {p : World} {op : Op} {es : List Event} {t task : TaskAtom}
  {s : ServiceTask} {c : Phase} {P : World → Op → Prop} {k : TaskQueueKey}

/-- What holds of the service layer in every run whose steps of the processor satisfy `P`. -/
structure ServiceInv (P : World → Op → Prop) (c : Phase) (w : ServiceWorld) : Prop where
  run : ∃ ops, processor.Run P ops w.processor
  alive : ∀ t, (w.tasks t).isSome = true ↔
    (∃ k, t ∈ addedTasks k w.processor.log) ∧ w.processor.log.any (Event.deletes t) = false
  key : ∀ t s, w.tasks t = some s → t ∈ addedTasks s.queueId w.processor.log
  pending : ∀ t s, w.tasks t = some s →
    (s.pAction ≠ 0 ↔ InFlight w.processor.log s.queueId t ∧ c.task ≠ some t)
  actions : w.ActionsOk
  distinct : (w.actions.map Prod.fst).Nodup
  settled : ∀ t, w.Settled t → c.done = some t ∨ ∃ k, t ∈ completedTasks k w.processor.log
  current : ∀ k t, c.current = some (k, t) →
    ∃ s, w.tasks t = some s ∧ s.queueId = k ∧ InFlight w.processor.log k t

theorem serviceInv_new : ServiceInv P .idle ServiceWorld.new where
  run := ⟨[], .nil⟩
  alive := by simp [ServiceWorld.new, World.new, addedTasks]
  key := by simp [ServiceWorld.new]
  pending := by simp [ServiceWorld.new]
  actions := by simp [ServiceWorld.ActionsOk, ServiceWorld.new]
  distinct := by simp [ServiceWorld.new]
  settled := by simp [ServiceWorld.Settled, ServiceWorld.new]
  current := by simp [Phase.current]

/-- The step of the processor is told which actions are pending. -/
def Op.Agrees (w : ServiceWorld) (op : Op) : Prop := op.cancels = true → op.syncs = w.sync

namespace ServiceInv

theorem inv (h : ServiceInv P c w) : Inv w.processor := by
  obtain ⟨ops, hrun⟩ := h.run
  exact inv_run hrun

theorem key_unique (h : ServiceInv P c w) {k k' : TaskQueueKey}
    (hk : t ∈ addedTasks k w.processor.log) (hk' : t ∈ addedTasks k' w.processor.log) : k = k' := by
  obtain ⟨ops, hrun⟩ := h.run
  exact added_unique hrun hk hk'

/-- The task whose callback is being called has no action pending. -/
theorem sync_current (h : ServiceInv P c w) (hc : c.task = some t) : w.sync t = false := by
  obtain ⟨⟨k, t'⟩, hkt, rfl⟩ := Option.map_eq_some_iff.mp hc
  obtain ⟨s, hs, -⟩ := h.current k t' hkt
  have hp : s.pAction = 0 := by
    by_contra ha
    exact ((h.pending t' s hs).mp ha).2 hc
  simp [sync_of_task hs, hp]

end ServiceInv

/-! ## Steps of the processor -/

/-- A step of the processor from a state of the service layer; a task is reported completed only by
its own callback. -/
structure ServiceStep (P : World → Op → Prop) (c : Phase) (w : ServiceWorld) (op : Op)
    (p : World) (es : List Event) : Prop where
  inv : ServiceInv P c w
  guard : Guard w.processor op
  holds : P w.processor op
  agrees : op.Agrees w
  notAdd : ∀ k t, op ≠ .addTask k t
  notDispatch : ∀ k, op ≠ .dispatch k
  reports : ∀ k t, op = .taskCompleted k t → c = .finishing k t
  step : step w.processor op = .ok p
  log : p.log = w.processor.log ++ es

namespace ServiceStep

theorem run (h : ServiceStep P c w op p es) : ∃ ops, processor.Run P ops p := by
  obtain ⟨ops, hrun⟩ := h.inv.run
  exact ⟨_, hrun.snoc (a := op) h.guard h.holds h.step⟩

theorem taskStep (h : ServiceStep P c w op p es) : TaskStep w.processor op es :=
  DleynaCore.taskStep h.inv.inv h.guard h.step h.log

/-- The events are about tasks that were added before. -/
theorem added (h : ServiceStep P c w op p es) (ht : t ∈ addedTasks k p.log) :
    t ∈ addedTasks k w.processor.log := by
  rcases added_step h.inv.inv h.guard h.step ht with ht | he
  · exact ht
  · exact absurd he (h.notAdd k t)

theorem added_of_mem (h : ServiceStep P c w op p es) {e : Event} {f : JobEvent TaskAtom}
    (he : e ∈ es) (hf : jobEvent k e = some f) : f.job ∈ addedTasks k w.processor.log := by
  obtain ⟨ops, hrun⟩ := h.run
  exact h.added (job_added (inv_run hrun) (h.log ▸ List.mem_append_right _ he) hf)

theorem key_of_cancelCb (h : ServiceStep P c w op p es) {u : Gpointer}
    (he : .cancelCb k t u ∈ es) (hs : w.tasks t = some s) : s.queueId = k :=
  h.inv.key_unique (h.inv.key t s hs) (h.added_of_mem he (f := .cancelled t) (if_pos rfl))

theorem key_of_deleteCb (h : ServiceStep P c w op p es) {u : Gpointer}
    (he : .deleteCb k t u ∈ es) (hs : w.tasks t = some s) : s.queueId = k :=
  h.inv.key_unique (h.inv.key t s hs) (h.added_of_mem he (f := .deleted t) (if_pos rfl))

theorem inFlight (h : ServiceStep P c w op p es) : InFlight p.log k t ↔
    InFlight w.processor.log k t ∧ .completed k t ∉ es :=
  inFlight_append h.inv.inv h.guard h.step h.log (h.notDispatch k)

/-- An action found pending by a cancel callback makes the callback report the completion. -/
theorem completed_of_cancelled (h : ServiceStep P c w op p es) {u : Gpointer}
    (he : .cancelCb k t u ∈ es) (hs : w.tasks t = some s) (ha : s.pAction ≠ 0) :
    (∃ u, .deleteCb k t u ∈ es) ∧ .completed k t ∈ es := by
  obtain rfl := h.key_of_cancelCb he hs
  refine h.taskStep.cancelled _ t u he ((h.inv.pending t s hs).mp ha).1 ?_
  rw [h.agrees (cancel_step h.inv.inv h.guard h.step h.log he), sync_of_task hs]
  simpa using ha

/-- A task in flight is deleted because its own callback reports it, or because its action was
pending. -/
theorem deleted (h : ServiceStep P c w op p es) {u : Gpointer} (he : .deleteCb k t u ∈ es)
    (ht : InFlight w.processor.log k t) : op = .taskCompleted k t ∨
      w.sync t = true ∧ ∃ u, .cancelCb k t u ∈ es := by
  rcases h.taskStep.deleted k t u he ht with hop | ⟨hsync, u', hc⟩
  · exact Or.inl hop
  · rw [h.agrees (cancel_step h.inv.inv h.guard h.step h.log hc)] at hsync
    exact Or.inr ⟨hsync, u', hc⟩

theorem exists_deleteCb (h : es.any (Event.deletes t) = true) : ∃ k u, Event.deleteCb k t u ∈ es := by
  obtain ⟨e, he, hd⟩ := List.any_eq_true.mp h
  cases e with
  | deleteCb k t' u =>
    obtain rfl : t' = t := by simpa [Event.deletes] using hd
    exact ⟨k, u, he⟩
  | _ => simp [Event.deletes] at hd

theorem exists_cancelCb (h : es.any (Event.cancels t) = true) : ∃ k u, Event.cancelCb k t u ∈ es := by
  obtain ⟨e, he, hc⟩ := List.any_eq_true.mp h
  cases e with
  | cancelCb k t' u =>
    obtain rfl : t' = t := by simpa [Event.cancels] using hc
    exact ⟨k, u, he⟩
  | _ => simp [Event.cancels] at hc

theorem any_deletes {u : Gpointer} (h : Event.deleteCb k t u ∈ es) :
    es.any (Event.deletes t) = true :=
  List.any_eq_true.mpr ⟨_, h, by simp [Event.deletes]⟩

theorem any_cancels {u : Gpointer} (h : Event.cancelCb k t u ∈ es) :
    es.any (Event.cancels t) = true :=
  List.any_eq_true.mpr ⟨_, h, by simp [Event.cancels]⟩

/-- The processor hands its callbacks live tasks. -/
theorem handed (h : ServiceStep P c w op p es) : Handed { w with processor := p } es := by
  obtain ⟨ops, hrun⟩ := h.run
  have hlast := deletedLast_run hrun
  rw [h.log, List.pairwise_append] at hlast
  have hold : ∀ e ∈ es, ∀ t, e.task = some t → w.processor.log.any (Event.deletes t) = false := by
    intro e he t ht
    refine List.any_eq_false.mpr fun e' he' hd => ?_
    exact hlast.2.2 e' he' e he t hd ht
  refine ⟨hlast.2.1, fun e he t ht => ?_, fun t s hs ha hd => ?_⟩
  · have htask : e.task = some t := ht.elim task_of_deletes task_of_cancels
    obtain ⟨k, f, -, hf, rfl⟩ := jobEvent_of_task htask
    exact (h.inv.alive _).mpr ⟨⟨k, h.added_of_mem he hf⟩, hold e he _ htask⟩
  · obtain ⟨k, u, he⟩ := exists_deleteCb hd
    obtain rfl := h.key_of_deleteCb he hs
    obtain ⟨hf, hcur⟩ := (h.inv.pending t s hs).mp ha
    rcases h.deleted he hf with hop | ⟨-, u', hc⟩
    · exact absurd (by rw [h.reports _ t hop]; rfl) hcur
    · exact any_cancels hc

end ServiceStep

/-- The phase after a step of the processor. -/
def Op.next (op : Op) (c : Phase) : Phase :=
  match op with
  | .taskCompleted _ _ => .idle
  | _ => c

namespace ServiceStep

/-- What the callbacks leave of a task. -/
theorem left (h : Replayed { w with processor := p } es w') {s' : ServiceTask}
    (hs' : w'.tasks t = some s') : es.any (Event.deletes t) = false ∧
      ∃ s, w.tasks t = some s ∧
        s' = if es.any (Event.cancels t) = true then { s with pAction := 0 } else s := by
  rw [h.tasks] at hs'
  split at hs'
  · simp at hs'
  · next hd =>
    obtain ⟨s, hs, he⟩ := Option.map_eq_some_iff.mp hs'
    exact ⟨Bool.eq_false_of_not_eq_true hd, s, hs, he.symm⟩

theorem left_queueId {s' : ServiceTask}
    (he : s' = if es.any (Event.cancels t) = true then { s with pAction := 0 } else s) :
    s'.queueId = s.queueId := by
  rw [he]
  split <;> rfl

/-- A task that stays was not completed. -/
theorem not_completed (h : ServiceStep P c w op p es) (hd : es.any (Event.deletes t) = false) :
    .completed k t ∉ es := by
  intro hc
  obtain ⟨-, u, hu⟩ := h.taskStep.completed k t hc
  simp [any_deletes hu] at hd

/-- The current task stays current, unless it is completed. -/
theorem current_stays (h : ServiceStep P c w op p es) (hd : es.any (Event.deletes t) = false) :
    (op.next c).task ≠ some t ↔ c.task ≠ some t := by
  cases op with
  | taskCompleted k t' =>
    refine ⟨fun _ hc => ?_, fun _ => by simp [Op.next, Phase.task, Phase.current]⟩
    rw [h.reports k t' rfl] at hc
    obtain rfl : t' = t := Option.some.inj hc
    exact h.not_completed hd (completed_step h.step h.log)
  | _ => exact Iff.rfl

theorem pending (h : ServiceStep P c w op p es) (hr : Replayed { w with processor := p } es w')
    {s' : ServiceTask} (hs' : w'.tasks t = some s') :
    s'.pAction ≠ 0 ↔ InFlight p.log s'.queueId t ∧ (op.next c).task ≠ some t := by
  obtain ⟨hd, s, hs, he⟩ := left hr hs'
  rw [left_queueId he, h.inFlight, h.current_stays hd, and_iff_left (h.not_completed hd),
    ← h.inv.pending t s hs, he]
  split
  · next hc =>
    -- a task that is cancelled with its action pending does not stay
    refine ⟨fun ha => absurd rfl ha, fun ha => ?_⟩
    obtain ⟨k, u, hu⟩ := exists_cancelCb hc
    obtain ⟨⟨u', hu'⟩, -⟩ := h.completed_of_cancelled hu hs ha
    simp [any_deletes hu'] at hd
  · exact Iff.rfl

theorem settled (h : ServiceStep P c w op p es) (hr : Replayed { w with processor := p } es w')
    (ht : w'.Settled t) : (op.next c).done = some t ∨ ∃ k, t ∈ completedTasks k p.log := by
  have hold : w.Settled t → (op.next c).done = some t ∨ ∃ k, t ∈ completedTasks k p.log := by
    intro ht
    rcases h.inv.settled t ht with hc | ⟨k, hk⟩
    · cases op with
      | taskCompleted k t' =>
        rw [h.reports k t' rfl] at hc
        obtain rfl : t' = t := Option.some.inj hc
        refine Or.inr ⟨k, mem_completedTasks ?_⟩
        rw [h.log]
        exact List.mem_append_right _ (completed_step h.step h.log)
      | _ => exact Or.inl hc
    · exact Or.inr ⟨k, completedTasks_mono h.log hk⟩
  rcases ht with ⟨a, ht | ht⟩ | ⟨failed, ht⟩
  · rcases (hr.history _ rfl).mp ht with ht | ⟨_, _, he, -⟩
    · exact hold (Or.inl ⟨a, Or.inl ht⟩)
    · simp at he
  · rcases (hr.history _ rfl).mp ht with ht | ⟨t', s, he, hc, hs, ha⟩
    · exact hold (Or.inl ⟨a, Or.inr ht⟩)
    · obtain rfl := (ServiceEvent.cancelled.inj he).1
      obtain ⟨k, u, hu⟩ := exists_cancelCb hc
      refine Or.inr ⟨k, mem_completedTasks ?_⟩
      rw [h.log]
      exact List.mem_append_right _ (h.completed_of_cancelled hu hs ha).2
  · rcases (hr.history _ rfl).mp ht with ht | ⟨_, _, he, -⟩
    · exact hold (Or.inr ⟨failed, ht⟩)
    · simp at he

theorem current (h : ServiceStep P c w op p es) (hr : Replayed { w with processor := p } es w')
    (ht : (op.next c).current = some (k, t)) :
    ∃ s, w'.tasks t = some s ∧ s.queueId = k ∧ InFlight p.log k t := by
  have hcur : c.current = some (k, t) ∧ ∀ k, op ≠ .taskCompleted k t := by
    cases op with
    | taskCompleted k t' => simp [Op.next, Phase.current] at ht
    | _ => exact ⟨ht, by simp⟩
  obtain ⟨s, hs, hk, hf⟩ := h.inv.current k t hcur.1
  have hd : es.any (Event.deletes t) = false := Bool.eq_false_of_not_eq_true fun hd => by
    obtain ⟨k', u, hu⟩ := exists_deleteCb hd
    obtain rfl : k = k' := hk.symm.trans (h.key_of_deleteCb hu hs)
    rcases h.deleted hu hf with hop | ⟨hsync, -⟩
    · exact hcur.2 _ hop
    · simp [h.inv.sync_current (t := t) (by simp [Phase.task, hcur.1])] at hsync
  have hs' : w'.tasks t =
      some (if es.any (Event.cancels t) = true then { s with pAction := 0 } else s) := by
    rw [hr.tasks, hd, if_neg (by simp), hs]
    rfl
  exact ⟨_, hs', (left_queueId rfl).trans hk, h.inFlight.mpr ⟨hf, h.not_completed hd⟩⟩

/-- A step of the processor and its callbacks keep the invariant. -/
theorem serviceInv (h : ServiceStep P c w op p es)
    (hr : Replayed { w with processor := p } es w') : ServiceInv P (op.next c) w' where
  run := hr.processor ▸ h.run
  alive := by
    intro t
    have hadd : (∃ k, t ∈ addedTasks k p.log) ↔ ∃ k, t ∈ addedTasks k w.processor.log := by
      constructor
      · rintro ⟨k, hk⟩
        exact ⟨k, h.added hk⟩
      · rintro ⟨k, hk⟩
        exact ⟨k, addedTasks_mono h.log hk⟩
    have hsome : (w'.tasks t).isSome = true ↔
        (w.tasks t).isSome = true ∧ es.any (Event.deletes t) = false := by
      rw [hr.tasks]
      cases es.any (Event.deletes t) <;> simp
    rw [hsome, h.inv.alive, hr.processor, hadd, h.log, List.any_append, Bool.or_eq_false_iff,
      and_assoc]
  key := by
    intro t s' hs'
    obtain ⟨-, s, hs, he⟩ := left hr hs'
    rw [left_queueId he, hr.processor]
    exact addedTasks_mono h.log (h.inv.key t s hs)
  pending := by
    intro t s' hs'
    rw [hr.processor]
    exact h.pending hr hs'
  actions := hr.ok
  distinct := h.inv.distinct.sublist (hr.actions.map _)
  settled := by
    intro t ht
    rw [hr.processor]
    exact h.settled hr ht
  current := by
    intro k t ht
    rw [hr.processor]
    exact h.current hr ht

end ServiceStep

end DleynaCore
