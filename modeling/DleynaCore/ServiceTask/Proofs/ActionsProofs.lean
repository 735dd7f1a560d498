import DleynaCore.ServiceTask.Actions
import DleynaCore.ServiceTask.Proofs.DrainsProofs
import DleynaCore.ServiceTask.Proofs.MaintainsProofs
import DleynaCore.ServiceTask.Proofs.ProgressProofs

/-!
# Every action ends once

What the history says of an action can be read off `task->p_action` and the log of the processor in every
place where `service-task.c` writes to a task.
-/

namespace DleynaCore

open JobQueue

variable {w w' : ServiceWorld} {t t' : TaskAtom} {s : ServiceTask} {k : TaskQueueKey}
  {b : Option TaskAtom} {e : ServiceEvent} {es l : List ServiceEvent} {a proxy : Gpointer}
  {st : ActionState}

/-! ## Histories -/

theorem actionAfter_append : actionAfter t (l ++ es) = (actionAfter t l).bind fun st =>
    (es.filter (ServiceEvent.isAbout t)).foldlM ActionState.next st := by
  simp [actionAfter, List.filter_append, List.foldlM_append]

theorem actionAfter_other (h : ∀ e ∈ es, e.isAbout t = false) :
    actionAfter t (l ++ es) = actionAfter t l := by
  have hnil : es.filter (ServiceEvent.isAbout t) = [] :=
    List.filter_eq_nil_iff.mpr fun e he => by simp [h e he]
  simp [actionAfter_append, hnil]

theorem actionAfter_single (h : actionAfter t l = some st) (he : e.isAbout t = true) :
    actionAfter t (l ++ [e]) = st.next e := by
  simp [actionAfter_append, h, he, List.foldlM_cons]

theorem cancelsPending_nil : CancelsPending [] := by
  intro before proxy action after h
  simp at h

/-- Events that cancel nothing. -/
theorem CancelsPending.append (h : CancelsPending l)
    (hes : ∀ e ∈ es, ∀ proxy action, e ≠ .cancelAction proxy action) : CancelsPending (l ++ es) := by
  intro before proxy action after he
  rcases split_append he with ⟨m, hl⟩ | ⟨m, -, rfl⟩
  · obtain ⟨task, after', rfl, ht⟩ := h before proxy action m hl
    refine ⟨task, after' ++ es, ?_, ht⟩
    simpa [hl] using he.symm
  · exact absurd rfl (hes (.cancelAction proxy action) (by simp) proxy action)

/-- A pending action is cancelled. -/
theorem CancelsPending.cancel (h : CancelsPending l) (ha : actionAfter t l = some (.pending a)) :
    CancelsPending (l ++ [.cancelAction proxy a, .cancelled t a]) := by
  intro before proxy' action after he
  rcases split_append he with ⟨m, hl⟩ | ⟨m, rfl, hm⟩
  · obtain ⟨task, after', rfl, ht⟩ := h before proxy' action m hl
    refine ⟨task, after' ++ [.cancelAction proxy a, .cancelled t a], ?_, ht⟩
    simpa [hl] using he.symm
  · cases m with
    | nil =>
      simp only [List.nil_append, List.cons.injEq, ServiceEvent.cancelAction.injEq] at hm
      obtain ⟨⟨rfl, rfl⟩, rfl⟩ := hm
      exact ⟨t, [], rfl, by simpa using ha⟩
    | cons e' m =>
      -- the other event is no call of `gupnp_service_proxy_cancel_action`
      cases m <;> simp at hm

/-! ## Tasks -/

/-- `task->p_action`, as long as the task is in memory. -/
def ServiceWorld.pActionOf (w : ServiceWorld) (task : TaskAtom) : Gpointer :=
  (w.tasks task).elim 0 ServiceTask.pAction

/-- How far the action of the task has come, as the code has it; `b` is the task whose `t_action` is being
called. -/
def ServiceWorld.actionState (w : ServiceWorld) (b : Option TaskAtom) (task : TaskAtom) : ActionState :=
  if w.pActionOf task ≠ 0 then .pending (w.pActionOf task)
  else if w.processor.log.any (Event.processes task) = true ∧ b ≠ some task then .ended
  else .waiting

/-- The history and the code agree on every action. -/
structure ActionsKept (b : Option TaskAtom) (w : ServiceWorld) : Prop where
  state : ∀ t, actionAfter t w.history = some (w.actionState b t)
  begun : ∀ t, w.pActionOf t ≠ 0 →
    w.processor.log.any (Event.processes t) = true ∧ b ≠ some t
  cancels : CancelsPending w.history

theorem actionsKept_new : ActionsKept none ServiceWorld.new where
  state := fun _ => rfl
  begun := fun _ h => absurd rfl h
  cancels := cancelsPending_nil

theorem any_processes {log : List Event} :
    log.any (Event.processes t) = true ↔ ∃ k, t ∈ processedTasks k log := by
  constructor
  · intro h
    obtain ⟨e, he, hp⟩ := List.any_eq_true.mp h
    cases e with
    | processCb k t' u =>
      obtain rfl : t' = t := by simpa [Event.processes] using hp
      exact ⟨k, mem_processedTasks_iff.mpr (List.mem_filterMap.mpr ⟨_, he, rfl⟩)⟩
    | _ => simp [Event.processes] at hp
  · rintro ⟨k, hk⟩
    obtain ⟨u, hu⟩ := mem_processedTasks hk
    exact List.any_eq_true.mpr ⟨_, hu, by simp [Event.processes]⟩

/-- No task is processed again. -/
theorem not_processed_before {p : World} {log : List Event} {u : Gpointer}
    (hrun : ∃ ops, processor.Run Any ops p) (hl : p.log = log ++ [.processCb k t u]) :
    log.any (Event.processes t) = false := by
  obtain ⟨ops, hrun⟩ := hrun
  refine Bool.eq_false_of_not_eq_true fun hany => ?_
  obtain ⟨k', hk'⟩ := any_processes.mp hany
  have hadd : ∀ k, t ∈ processedTasks k p.log → t ∈ addedTasks k p.log := fun k hm => by
    obtain ⟨u, hu⟩ := mem_processedTasks hm
    exact job_added (inv_run hrun) hu (f := .begun t) (if_pos rfl)
  have hnew : t ∈ processedTasks k [.processCb k t u] := by
    simp [processedTasks, jobEvents, jobEvent]
  have hnd := (inv_run hrun).processed_nodup k
  rw [hl] at hadd
  simp only [processedTasks_append] at hadd
  rw [hl, processedTasks_append, List.nodup_append] at hnd
  obtain rfl := added_unique hrun (hl ▸ hadd k (List.mem_append_right _ hnew))
    (hl ▸ hadd k' (List.mem_append_left _ hk'))
  exact hnd.2.2 t hk' t hnew rfl

theorem pActionOf_of_tasks (hs : w.tasks t = some s) : w.pActionOf t = s.pAction := by
  simp [ServiceWorld.pActionOf, hs]

theorem actionState_congr {b' : Option TaskAtom} (ha : w'.pActionOf t = w.pActionOf t)
    (hl : w'.processor.log.any (Event.processes t) = w.processor.log.any (Event.processes t))
    (hb : b' = some t ↔ b = some t) : w'.actionState b' t = w.actionState b t := by
  simp only [ServiceWorld.actionState, ha, hl, ne_eq, hb]

namespace ActionsKept

/-- A change that begins and ends no action. -/
theorem keep (h : ActionsKept b w) (es : List ServiceEvent) (ha : ∀ t, w'.pActionOf t = w.pActionOf t)
    (hl : ∀ t, w'.processor.log.any (Event.processes t) = w.processor.log.any (Event.processes t))
    (hh : w'.history = w.history ++ es) (ho : ∀ e ∈ es, ∀ t, e.isAbout t = false)
    (hc : ∀ e ∈ es, ∀ proxy action, e ≠ .cancelAction proxy action) : ActionsKept b w' where
  state := fun t => by
    rw [hh, actionAfter_other fun e he => ho e he t, h.state,
      actionState_congr (ha t) (hl t) Iff.rfl]
  begun := fun t => by
    rw [ha, hl]
    exact h.begun t
  cancels := hh ▸ h.cancels.append hc

/-- The action of a task ends. -/
theorem ended {actions : List (Gpointer × TaskAtom)} (h : ActionsKept b w) (es : List ServiceEvent)
    (hs : w.tasks t = some s) (ha : s.pAction ≠ 0)
    (hw : Writes w t (some { s with pAction := 0 }) (es ++ [e]) actions w')
    (ho : ∀ e ∈ es, ∀ t, e.isAbout t = false) (he : ∀ t', e.isAbout t' = (t == t'))
    (hnext : (ActionState.pending s.pAction).next e = some .ended)
    (hc : CancelsPending w'.history) : ActionsKept b w' := by
  have hmine : w'.pActionOf t = 0 := by simp [ServiceWorld.pActionOf, hw.tasks]
  have hothers : ∀ t', t' ≠ t → w'.pActionOf t' = w.pActionOf t' := fun t' hne => by
    simp only [ServiceWorld.pActionOf, hw.tasks, setTask_ne _ _ hne]
  have hbegun := h.begun t (by rwa [pActionOf_of_tasks hs])
  refine ⟨fun t' => ?_, fun t' ha' => ?_, hc⟩
  · have hbefore : actionAfter t' (w.history ++ es) = some (w.actionState b t') := by
      rw [actionAfter_other fun e he => ho e he t', h.state]
    rw [hw.history, ← List.append_assoc]
    by_cases hne : t' = t
    · subst hne
      rw [actionAfter_single hbefore (by simp [he]), ServiceWorld.actionState,
        pActionOf_of_tasks hs, if_pos ha, hnext, ServiceWorld.actionState, hmine, hw.processor,
        if_neg (by simp), if_pos hbegun]
    · rw [actionAfter_other (by simpa [he] using Ne.symm hne), hbefore,
        actionState_congr (hothers t' hne) (by rw [hw.processor]) Iff.rfl]
  · by_cases hne : t' = t
    · subst hne
      exact absurd hmine ha'
    · rw [hw.processor]
      exact h.begun t' (hothers t' hne ▸ ha')

theorem cancelled (h : ActionsKept b w) (hs : w.tasks t = some s) (ha : s.pAction ≠ 0)
    (hw : Writes w t (some { s with pAction := 0 }) (s.cancelEvents t) (s.keptActions w.actions) w') :
    ActionsKept b w' := by
  have hst : actionAfter t w.history = some (.pending s.pAction) := by
    rw [h.state, ServiceWorld.actionState, pActionOf_of_tasks hs, if_pos ha]
  have hc : CancelsPending w'.history := by
    rw [hw.history, ServiceTask.cancelEvents]
    split
    · exact h.cancels.append (by simp)
    · exact h.cancels.cancel hst
  refine h.ended _ hs ha hw (fun e he t' => ?_) (fun _ => rfl) (if_pos rfl) hc
  split at he
  · cases he
  · rw [List.mem_singleton.mp he]
    rfl

theorem deleted (h : ActionsKept b w) (hs : w.tasks t = some s) (ha : s.pAction = 0)
    (hw : Writes w t none s.freeCalls w.actions w') : ActionsKept b w' := by
  refine h.keep s.freeCalls (fun t' => ?_) (fun _ => by rw [hw.processor]) hw.history ?_ ?_
  · by_cases hne : t' = t
    · subst hne
      simp [ServiceWorld.pActionOf, hw.tasks, hs, ha]
    · simp only [ServiceWorld.pActionOf, hw.tasks, setTask_ne _ _ hne]
  · intro e he t'
    obtain ⟨cb, rfl⟩ := s.mem_freeCalls he
    rfl
  · intro e he proxy action
    obtain ⟨cb, rfl⟩ := s.mem_freeCalls he
    simp

/-- A task that was not in memory is added. -/
theorem addTask {p : TaskArgs} (h : ActionsKept b w) (hnone : w.tasks p.task = none)
    (hl : w'.processor.log = w.processor.log ++ [.addTask k p.task])
    (hw : Writes { w with processor := w'.processor } p.task (some (p.added k)) [] w.actions w') :
    ActionsKept b w' := by
  refine h.keep [] (fun t => ?_) (fun t => ?_) hw.history (by simp) (by simp)
  · by_cases hne : t = p.task
    · subst hne
      simp [ServiceWorld.pActionOf, hw.tasks, hnone, TaskArgs.added, addedTask]
    · simp only [ServiceWorld.pActionOf, hw.tasks, setTask_ne _ _ hne]
  · simp [hl, Event.processes]

theorem finalized (h : ActionsKept b w) (proxy : Gpointer) :
    ActionsKept b (finalizeProxy w proxy) := by
  refine h.keep [] (fun t => ?_) (fun _ => rfl) (by simp [finalizeProxy]) (by simp) (by simp)
  simp only [ServiceWorld.pActionOf, finalizeProxy]
  cases w.tasks t with
  | none => rfl
  | some s =>
    simp only [Option.map_some, Option.elim_some]
    split <;> rfl

/-- A task is handed to the process callback. -/
theorem taken {u : Gpointer} (h : ActionsKept none w)
    (hrun : ∃ ops, processor.Run Any ops w'.processor) (ht : w'.tasks = w.tasks)
    (hh : w'.history = w.history)
    (hl : w'.processor.log = w.processor.log ++ [.processCb k t u]) : ActionsKept (some t) w' := by
  have hfresh := not_processed_before hrun hl
  have hany : ∀ t', t' ≠ t → w'.processor.log.any (Event.processes t') =
      w.processor.log.any (Event.processes t') := fun t' hne => by
    have hno : Event.processes t' (.processCb k t u) = false := by
      simpa [Event.processes] using Ne.symm hne
    simp [hl, hno]
  have hpa : ∀ t', w'.pActionOf t' = w.pActionOf t' := fun t' => by
    simp only [ServiceWorld.pActionOf, ht]
  have hzero : w.pActionOf t = 0 := by
    by_contra ha
    rw [(h.begun t ha).1] at hfresh
    cases hfresh
  refine ⟨fun t' => ?_, fun t' ha => ?_, hh ▸ h.cancels⟩
  · rw [hh, h.state]
    by_cases hne : t' = t
    · subst hne
      simp [ServiceWorld.actionState, hpa, hzero, hfresh]
    · rw [actionState_congr (b := none) (hpa t') (hany t' hne) (by simp [Ne.symm hne])]
  · rw [hpa] at ha
    have hne : t' ≠ t := by
      rintro rfl
      exact ha hzero
    rw [hany t' hne]
    exact ⟨(h.begun t' ha).1, by simpa using Ne.symm hne⟩

/-- `t_action` has returned. -/
theorem started {actions : List (Gpointer × TaskAtom)} {failed : Bool} (h : ActionsKept (some t) w)
    (hI : ServiceInv Any (.starting k t) w)
    (hw : Writes w t (some { s with pAction := a }) [.begun t a failed] actions w') :
    ActionsKept none w' := by
  obtain ⟨-, -, -, hf⟩ := hI.current k t rfl
  have hany := any_processes.mpr ⟨k, hf.1⟩
  have hzero : w.pActionOf t = 0 := by
    by_contra ha
    exact (h.begun t ha).2 rfl
  have hmine : w'.pActionOf t = a := by simp [ServiceWorld.pActionOf, hw.tasks]
  have hothers : ∀ t', t' ≠ t → w'.pActionOf t' = w.pActionOf t' := fun t' hne => by
    simp only [ServiceWorld.pActionOf, hw.tasks, setTask_ne _ _ hne]
  refine ⟨fun t' => ?_, fun t' ha => ?_, hw.history ▸ h.cancels.append (by simp)⟩
  · rw [hw.history]
    by_cases hne : t' = t
    · subst hne
      have hwait : w.actionState (some t') t' = .waiting := by
        simp [ServiceWorld.actionState, hzero]
      rw [actionAfter_single (h.state t') (by simp [ServiceEvent.isAbout]), hwait]
      by_cases ha : a = 0
      · simp [ActionState.next, ServiceWorld.actionState, hmine, ha, hw.processor, hany]
      · simp [ActionState.next, ServiceWorld.actionState, hmine, ha]
    · rw [actionAfter_other (by simpa [ServiceEvent.isAbout] using Ne.symm hne), h.state,
        actionState_congr (b := some t) (hothers t' hne) (by rw [hw.processor])
          (by simp [Ne.symm hne])]
  · rw [hw.processor]
    by_cases hne : t' = t
    · subst hne
      exact ⟨hany, by simp⟩
    · exact ⟨(h.begun t' (hothers t' hne ▸ ha)).1, by simp⟩

end ActionsKept

theorem maintains_actionsKept : Maintains fun b _ w => ActionsKept b w where
  stepped := fun p h hl hno => by
    refine h.keep [] (fun _ => rfl) (fun t => ?_) (by simp) (by simp) (by simp)
    have hany : (List.any _ (Event.processes t)) = false := List.any_eq_false.mpr fun e he hp => by
      cases e with
      | processCb k t' u => exact hno k t' u he
      | _ => simp [Event.processes] at hp
    show p.log.any _ = _
    rw [hl, List.any_append, hany, Bool.or_false]
  cancelled := ActionsKept.cancelled
  deleted := ActionsKept.deleted
  added := fun _ h _ hnone hl hw => h.addTask hnone hl hw
  finalized := fun proxy h => h.finalized proxy
  taken := fun _ h hrun hl => h.taken hrun rfl rfl hl
  begun := fun h hI _ _ hw => h.started hI hw
  finished := fun h hs ha ha0 hw =>
    h.ended [] hs (ha.symm ▸ ha0) hw (by simp) (fun _ => rfl) (if_pos ha.symm)
      (hw.history ▸ h.cancels.append (by simp))

/-! ## Runs -/

namespace ActionsKept

variable (h : ActionsKept none w)

include h

theorem waiting_iff : actionAfter t w.history = some .waiting ↔
    w.processor.log.any (Event.processes t) = false := by
  have hb := h.begun t
  rw [h.state, ServiceWorld.actionState]
  by_cases ha : w.pActionOf t = 0
  · cases hp : w.processor.log.any (Event.processes t) <;> simp [ha]
  · simp [ha, (hb ha).1]

theorem pending_iff : actionAfter t w.history = some (.pending a) ↔ w.pActionOf t = a ∧ a ≠ 0 := by
  rw [h.state, ServiceWorld.actionState]
  by_cases ha : w.pActionOf t = 0
  · rw [if_neg (not_not.mpr ha), ha]
    constructor
    · intro hst
      split at hst <;> simp at hst
    · rintro ⟨rfl, h0⟩
      exact absurd rfl h0
  · rw [if_pos ha, Option.some.injEq, ActionState.pending.injEq]
    constructor
    · rintro rfl
      exact ⟨rfl, ha⟩
    · exact And.left

theorem ended_iff : actionAfter t w.history = some .ended ↔
    w.pActionOf t = 0 ∧ w.processor.log.any (Event.processes t) = true := by
  rw [h.state, ServiceWorld.actionState]
  by_cases ha : w.pActionOf t = 0
  · cases hp : w.processor.log.any (Event.processes t) <;> simp [ha]
  · simp [ha]

end ActionsKept

/-- An action is pending exactly while its task is in flight. -/
theorem ServiceInv.pActionOf_iff {P : World → Op → Prop} (h : ServiceInv P .idle w) :
    w.pActionOf t ≠ 0 ↔ ∃ k, InFlight w.processor.log k t := by
  constructor
  · intro ha
    cases hs : w.tasks t with
    | none => simp [ServiceWorld.pActionOf, hs] at ha
    | some s =>
      rw [pActionOf_of_tasks hs] at ha
      exact ⟨s.queueId, ((h.pending t s hs).mp ha).1⟩
  · rintro ⟨k, hf⟩
    obtain ⟨s, hs, -, ha⟩ := h.pending_of_inFlight hf
    rwa [pActionOf_of_tasks hs]

theorem ServiceInv.processed_added {P : World → Op → Prop} {c : Phase} (h : ServiceInv P c w)
    (ht : t ∈ processedTasks k w.processor.log) : t ∈ addedTasks k w.processor.log := by
  obtain ⟨u, hu⟩ := mem_processedTasks ht
  exact job_added h.inv hu (f := .begun t) (if_pos rfl)

/-- A task that was processed was completed unless it is in flight. -/
theorem ServiceInv.completed_iff {P : World → Op → Prop} {c : Phase} (h : ServiceInv P c w) :
    (∃ k, t ∈ completedTasks k w.processor.log) ↔ (∃ k, t ∈ processedTasks k w.processor.log) ∧
      ¬ ∃ k, InFlight w.processor.log k t := by
  constructor
  · rintro ⟨k, hk⟩
    obtain ⟨r, hr⟩ := h.inv.one_running (k := k) (List.prefix_refl w.processor.log)
    have hproc : t ∈ processedTasks k w.processor.log := by
      rw [hr]
      exact List.mem_append_left _ hk
    refine ⟨⟨k, hproc⟩, ?_⟩
    rintro ⟨k', hf⟩
    obtain rfl := h.key_unique (h.processed_added hproc) (h.processed_added hf.1)
    exact hf.2 hk
  · rintro ⟨⟨k, hk⟩, hf⟩
    by_contra hc
    exact hf ⟨k, hk, fun hm => hc ⟨k, hm⟩⟩

/-- In every run `t_action` is called once for each task, and its action ends once: it is pending as long
as the task is in flight, and over when the task is completed. -/
theorem actsOnce_run {ops : List ServiceOp} (h : service.Run (fun _ _ => True) ops w) :
    ActsOnce w := by
  have hI := serviceInv_any h
  have hk := maintains_actionsKept.run actionsKept_new h
  have ha := maintains_awaited.run awaited_new h
  constructor
  case follows => exact fun t => by rw [hk.state]; rfl
  case waiting =>
    intro t
    rw [hk.waiting_iff, Bool.eq_false_iff, ne_eq, any_processes, not_exists]
  case pending =>
    intro t
    simp only [hk.pending_iff, exists_eq_left']
    exact hI.pActionOf_iff
  case ended =>
    intro t
    rw [hk.ended_iff, hI.completed_iff, ← any_processes, ← hI.pActionOf_iff, not_not, and_comm]
  case actions =>
    intro action t
    rw [hk.pending_iff]
    constructor
    · intro hm
      obtain ⟨s, hs, hsa, ha0, hp⟩ := hI.actions action t hm
      exact ⟨⟨(pActionOf_of_tasks hs).trans hsa, ha0⟩, s, hs, hp⟩
    · rintro ⟨⟨rfl, ha0⟩, s, hs, hp⟩
      rw [pActionOf_of_tasks hs] at ha0 ⊢
      exact ha.pending t s hs ha0 hp
  case cancels => exact hk.cancels

/-- The action of one task finishes, the second task has none, the action of the third one is cancelled,
and that of a fourth one, which has the same address as the first, is pending. -/
def fourActions : List ServiceOp :=
  [.call (.addQueue ⟨1, "a", "b"⟩ flagAutoStart), .call (.addQueue ⟨2, "c", "b"⟩ flagAutoStart),
    .call (.addServiceTask ⟨1, "a", "b"⟩ 7 3 none 0), .call (.addServiceTask ⟨1, "a", "b"⟩ 8 3 none 0),
    .call (.addServiceTask ⟨1, "a", "b"⟩ 9 3 none 0), .call (.addServiceTask ⟨2, "c", "b"⟩ 10 3 none 0),
    .dispatch ⟨1, "a", "b"⟩ [] 5 false, .actionCb 5 7 [], .dispatch ⟨1, "a", "b"⟩ [] 0 false,
    .dispatch ⟨1, "a", "b"⟩ [] 6 false, .dispatch ⟨2, "c", "b"⟩ [] 5 false,
    .call (.cancelQueue ⟨1, "a", "b"⟩)]

theorem actsOnce_fourActions :
    ActsOnce (service.final (fun _ _ => True) fourActions) ∧
      actionAfter 9 (service.final (fun _ _ => True) fourActions).history = some .ended ∧
      actionAfter 10 (service.final (fun _ _ => True) fourActions).history = some (.pending 5) :=
  ⟨actsOnce_run (System.run_final (by decide)), by decide, by decide⟩

end DleynaCore
