import DleynaCore.ServiceTask.Proofs.ActionsProofs

/-!
# One action at a time

A queue processes its tasks one at a time, and the action of a task is pending only while the task is in
flight. So the actions of a queue do not overlap, although the processor knows nothing of actions.
-/

namespace DleynaCore

open JobQueue

variable {w w' : ServiceWorld} {t t' : TaskAtom} {s : ServiceTask} {k : TaskQueueKey}
  {b : Option TaskAtom} {es l : List ServiceEvent} {a : Gpointer} {st : ActionState}

/-! ## Histories -/

/-- Nothing leads back to `waiting`. -/
theorem next_ne_waiting (st : ActionState) (e : ServiceEvent) : st.next e ≠ some .waiting := by
  intro h
  cases st with
  | waiting =>
    cases e with
    | begun t action failed =>
      simp only [ActionState.next, Option.some.injEq] at h
      split at h <;> cases h
    | _ => cases h
  | pending action =>
    cases e with
    | finished t a | cancelled t a =>
      simp only [ActionState.next] at h
      split at h <;> cases h
    | _ => cases h
  | ended => cases h

theorem foldlM_next_waiting (h : es.foldlM ActionState.next st = some .waiting) : es = [] := by
  induction es generalizing st with
  | nil => rfl
  | cons e es ih =>
    rw [List.foldlM_cons] at h
    obtain ⟨st', hst', hrest⟩ := Option.bind_eq_some_iff.mp h
    obtain rfl := ih hrest
    obtain rfl : st' = .waiting := Option.some.inj hrest
    exact absurd hst' (next_ne_waiting st e)

/-- As long as the action of a task waits, there are no events about it. -/
theorem not_isAbout_of_waiting (h : actionAfter t l = some .waiting) :
    ∀ e ∈ l, e.isAbout t = false := by
  have hnil := foldlM_next_waiting h
  intro e he
  by_contra hne
  have hm : e ∈ l.filter (ServiceEvent.isAbout t) := List.mem_filter.mpr ⟨he, by simpa using hne⟩
  rw [hnil] at hm
  cases hm

theorem actionAfter_waiting (h : ∀ e ∈ l, e.isAbout t = false) :
    actionAfter t l = some .waiting :=
  actionAfter_other (l := []) h

/-- A task is processed before its action is pending. -/
theorem ActionsKept.processed_of_pending (h : ActionsKept b w) (hl : l <+: w.history)
    (hp : actionAfter t l = some (.pending a)) :
    w.processor.log.any (Event.processes t) = true ∧ b ≠ some t := by
  by_contra hn
  have hzero : w.pActionOf t = 0 := by
    by_contra ha
    exact hn (h.begun t ha)
  have hwait : actionAfter t w.history = some .waiting := by
    rw [h.state, ServiceWorld.actionState, if_neg (not_not.mpr hzero), if_neg hn]
  have hno := not_isAbout_of_waiting hwait
  rw [actionAfter_waiting fun e he => hno e (hl.subset he)] at hp
  cases hp

/-- When `t_action` of a task is called, no action of its queue is pending. -/
theorem ActionsKept.notPending_of_starting {k1 : TaskQueueKey} (h : ActionsKept b w)
    (hI : ServiceInv Any (.starting k t) w) (ht : t ∈ processedTasks k1 w.processor.log)
    (ht' : t' ∈ processedTasks k1 w.processor.log) :
    actionAfter t' w.history ≠ some (.pending a) := by
  intro hp
  obtain ⟨s, -, -, hf⟩ := hI.current k t rfl
  obtain rfl := hI.key_unique (hI.processed_added hf.1) (hI.processed_added ht)
  have ha : w.pActionOf t' ≠ 0 := by
    rw [h.state, ServiceWorld.actionState] at hp
    by_contra h0
    rw [if_neg (not_not.mpr h0)] at hp
    split at hp <;> cases hp
  cases hs : w.tasks t' with
  | none => simp [ServiceWorld.pActionOf, hs] at ha
  | some s' =>
    rw [pActionOf_of_tasks hs] at ha
    obtain ⟨hf', hne⟩ := (hI.pending t' s' hs).mp ha
    rw [hI.key_unique (hI.key t' s' hs) (hI.processed_added ht')] at hf'
    -- the queue has one task in flight
    obtain rfl := hI.inv.one_inFlight (List.prefix_refl _) hf hf'
    exact hne rfl

/-! ## Queues -/

/-- The actions have been begun in the order in which the processor took the tasks, and apart. -/
structure InTurn (b : Option TaskAtom) (w : ServiceWorld) : Prop where
  kept : ActionsKept b w
  order : w.history.filterMap ServiceEvent.begunTask ++ b.toList =
    (processedPairs w.processor.log).map Prod.snd
  apart : ∀ before t action failed after, w.history = before ++ .begun t action failed :: after →
    ∀ k, (k, t) ∈ processedPairs w.processor.log → ∀ t', (k, t') ∈ processedPairs w.processor.log →
      ∀ action', actionAfter t' before ≠ some (.pending action')

theorem processedPairs_append {log log' events : List Event} (hl : log' = log ++ events)
    (hno : ∀ k t u, .processCb k t u ∉ events) : processedPairs log' = processedPairs log := by
  have hnil : processedPairs events = [] := List.filterMap_eq_nil_iff.mpr fun e he => by
    cases e with
    | processCb k t u => exact absurd he (hno k t u)
    | _ => rfl
  rw [hl, processedPairs, List.filterMap_append]
  exact (congrArg _ hnil).trans (List.append_nil _)

theorem inTurn_new : InTurn none ServiceWorld.new where
  kept := actionsKept_new
  order := rfl
  apart := by simp [ServiceWorld.new]

namespace InTurn

/-- A change that begins no action. -/
theorem keep (h : InTurn b w) (hk : ActionsKept b w')
    (hp : processedPairs w'.processor.log = processedPairs w.processor.log)
    (hh : ∃ es, w'.history = w.history ++ es ∧ ∀ e ∈ es, e.begunTask = none) : InTurn b w' := by
  obtain ⟨es, hh, hno⟩ := hh
  refine ⟨hk, ?_, ?_⟩
  · have hnil : es.filterMap ServiceEvent.begunTask = [] := List.filterMap_eq_nil_iff.mpr hno
    rw [hh, List.filterMap_append, hnil, List.append_nil, hp]
    exact h.order
  · intro before t action failed after he
    rw [hh] at he
    rcases split_append he with ⟨after', hold⟩ | ⟨m, -, hm⟩
    · rw [hp]
      exact h.apart before t action failed after' hold
    · have hnone := hno (.begun t action failed) (by simp [hm])
      cases hnone

/-- A task is written to, and no action is begun. -/
theorem written {r : Option ServiceTask} {actions : List (Gpointer × TaskAtom)} (h : InTurn b w)
    (hk : ActionsKept b w') (hw : Writes w t r es actions w')
    (hno : ∀ e ∈ es, e.begunTask = none) : InTurn b w' :=
  h.keep hk (by rw [hw.processor]) ⟨es, hw.history, hno⟩

/-- A task is handed to the process callback. -/
theorem taken {u : Gpointer} (h : InTurn none w)
    (hrun : ∃ ops, processor.Run Any ops w'.processor) (ht : w'.tasks = w.tasks)
    (hh : w'.history = w.history)
    (hl : w'.processor.log = w.processor.log ++ [.processCb k t u]) : InTurn (some t) w' := by
  have hk := h.kept.taken hrun ht hh hl
  have hpairs : processedPairs w'.processor.log = processedPairs w.processor.log ++ [(k, t)] := by
    simp [hl, processedPairs]
  have hwait : actionAfter t w.history = some .waiting :=
    h.kept.waiting_iff.mpr (not_processed_before hrun hl)
  have hno := not_isAbout_of_waiting hwait
  refine ⟨hk, ?_, ?_⟩
  · have ho := h.order
    rw [Option.toList_none, List.append_nil] at ho
    rw [hh, hpairs, List.map_append, ho]
    rfl
  · intro before t1 action failed after he k1 h1 t2 h2 action'
    rw [hh] at he
    rw [hpairs] at h1 h2
    -- nothing has happened to the new task
    have hold : ∀ {t'}, t' ≠ t → (k1, t') ∈ processedPairs w.processor.log ++ [(k, t)] →
        (k1, t') ∈ processedPairs w.processor.log := fun hne hm => by simpa [hne] using hm
    have hne1 : t1 ≠ t := by
      rintro rfl
      have := hno (.begun t1 action failed) (by simp [he])
      simp [ServiceEvent.isAbout] at this
    by_cases hne2 : t2 = t
    · subst hne2
      rw [actionAfter_waiting fun e hm => hno e (by simp [he, hm])]
      simp
    · exact h.apart before t1 action failed after he k1 (hold hne1 h1) t2 (hold hne2 h2) action'

/-- `t_action` has returned. -/
theorem started {actions : List (Gpointer × TaskAtom)} {failed : Bool} (h : InTurn (some t) w)
    (hI : ServiceInv Any (.starting k t) w)
    (hw : Writes w t (some { s with pAction := a }) [.begun t a failed] actions w') :
    InTurn none w' := by
  refine ⟨h.kept.started hI hw, ?_, ?_⟩
  · have ho := h.order
    rw [hw.history, hw.processor, ← ho, List.filterMap_append]
    simp [ServiceEvent.begunTask]
  · intro before t1 action failed1 after hsplit k1 h1 t2 h2 action'
    rw [hw.history] at hsplit
    rw [hw.processor] at h1 h2
    rcases split_append hsplit with ⟨after', hold⟩ | ⟨m, hm, hlast⟩
    · exact h.apart before t1 action failed1 after' hold k1 h1 t2 h2 action'
    · cases m with
      | nil =>
        obtain ⟨⟨rfl, -, -⟩, -⟩ := by simpa using hlast
        rw [hm, List.append_nil]
        exact h.kept.notPending_of_starting hI (mem_processedTasks_iff.mpr h1)
          (mem_processedTasks_iff.mpr h2)
      | cons e m => simp at hlast

end InTurn

theorem maintains_inTurn : Maintains fun b _ w => InTurn b w where
  stepped := fun p h hl hno =>
    h.keep (maintains_actionsKept.stepped (l := []) p h.kept hl hno) (processedPairs_append hl hno)
      ⟨[], by simp, by simp⟩
  cancelled := fun h hs ha hw => by
    refine h.written (h.kept.cancelled hs ha hw) hw fun e he => ?_
    rcases ServiceTask.mem_cancelEvents he with rfl | rfl <;> rfl
  deleted := fun h hs ha hw => by
    refine h.written (h.kept.deleted hs ha hw) hw fun e he => ?_
    obtain ⟨cb, rfl⟩ := ServiceTask.mem_freeCalls he
    rfl
  added := fun a h _ hnone hl hw =>
    h.keep (h.kept.addTask hnone hl hw) (processedPairs_append hl (by simp))
      ⟨[], hw.history, by simp⟩
  finalized := fun proxy h => h.keep (h.kept.finalized proxy) rfl ⟨[], by simp [finalizeProxy], by simp⟩
  taken := fun _ h hrun hl => h.taken hrun rfl rfl hl
  begun := fun h hI _ _ hw => h.started hI hw
  finished := fun h hs ha ha0 hw =>
    h.written (maintains_actionsKept.finished (l := []) h.kept hs ha ha0 hw) hw
      (by simp [ServiceEvent.begunTask])

/-! ## Runs -/

/-- The tasks of a queue are those of its key. -/
theorem processedTasks_eq (k : TaskQueueKey) (log : List Event) :
    processedTasks k log = ((processedPairs log).filter fun x => x.1 = k).map Prod.snd := by
  induction log with
  | nil => rfl
  | cons e log ih =>
    have hcons : processedTasks k (e :: log) = processedTasks k [e] ++ processedTasks k log :=
      processedTasks_append [e] log
    rw [hcons, ih]
    cases e with
    | addTask k' t | processCb k' t u | completed k' t | cancelCb k' t u | deleteCb k' t u =>
      by_cases hk : k' = k <;> simp [processedTasks, jobEvents, jobEvent, processedPairs, hk]
    | _ => rfl

/-- In every run the actions of a queue are begun in the order of its tasks, and never while another one
is pending. -/
theorem actsInTurn_run {ops : List ServiceOp} (h : service.Run (fun _ _ => True) ops w) :
    ActsInTurn w := by
  have hI := serviceInv_any h
  have hT := maintains_inTurn.run inTurn_new h
  have hpair : ∀ {k t}, (k, t) ∈ processedPairs w.processor.log →
      t ∈ addedTasks k w.processor.log := fun hm =>
    hI.processed_added (mem_processedTasks_iff.mpr hm)
  have horder := hT.order
  rw [Option.toList_none, List.append_nil] at horder
  constructor
  case inOrder =>
    intro k
    have hfilter : ∀ x ∈ processedPairs w.processor.log,
        decide (x.2 ∈ addedTasks k w.processor.log) = decide (x.1 = k) := fun x hx => by
      refine decide_eq_decide.mpr ⟨fun hm => hI.key_unique (hpair hx) hm, ?_⟩
      rintro rfl
      exact hpair hx
    have heq : ((w.history.filterMap ServiceEvent.begunTask).filter
        (· ∈ addedTasks k w.processor.log)) = processedTasks k w.processor.log := by
      rw [horder, List.filter_map, processedTasks_eq]
      exact congrArg _ (List.filter_congr hfilter)
    rw [heq]
    exact hI.inv.processed_sublist k
  case apart =>
    intro before t action failed after he k ht t' ht' action' hp
    have hm : t ∈ w.history.filterMap ServiceEvent.begunTask :=
      List.mem_filterMap.mpr ⟨.begun t action failed, by simp [he], rfl⟩
    rw [horder] at hm
    obtain ⟨⟨k1, _⟩, h1, rfl⟩ := List.mem_map.mp hm
    obtain rfl := hI.key_unique (hpair h1) ht
    have hpre : before <+: w.history := ⟨_, he.symm⟩
    obtain ⟨k2, hk2⟩ := any_processes.mp (hT.kept.processed_of_pending hpre hp).1
    obtain rfl := hI.key_unique (hI.processed_added hk2) ht'
    exact hT.apart before _ action failed after he k2 h1 t' (mem_processedTasks_iff.mp hk2) action' hp

/-- The actions of two queues in turns. -/
theorem actsInTurn_fourActions :
    ActsInTurn (service.final (fun _ _ => True) fourActions) ∧
      (service.final (fun _ _ => True) fourActions).history.filterMap ServiceEvent.begunTask =
        [7, 8, 9, 10] :=
  ⟨actsInTurn_run (System.run_final (by decide)), by decide⟩

end DleynaCore
