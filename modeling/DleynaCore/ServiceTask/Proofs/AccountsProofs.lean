import DleynaCore.ServiceTask.Proofs.DrainsProofs
import DleynaCore.ServiceTask.Proofs.FailedStepProofs
import DleynaCore.ServiceTask.Proofs.MaintainsProofs
import DleynaCore.TaskProcessor.Proofs.LifetimeProofs

/-!
# Every service task is freed once

`free_func` belongs to the task: it is called when the task is deleted, and the task is deleted once. What
the client has added and what was freed balance after every call of `service-task.c`.
-/

namespace DleynaCore

variable {w w' : ServiceWorld} {args : List TaskArgs} {t : TaskAtom} {s : ServiceTask}
  {k : TaskQueueKey}

/-- The tasks `args` were added and what has become of them is accounted for; nothing else is in
memory. -/
structure Ledger (args : List TaskArgs) (w : ServiceWorld) : Prop where
  added : ∀ a ∈ args, a.task ∈ allAdded w.processor.log
  distinct : (args.map TaskArgs.task).Nodup
  memory : ∀ t s, w.tasks t = some s →
    ∃ a ∈ args, a.task = t ∧ s.freeFunc = a.freeFunc ∧ s.userData = a.userData
  freed : Freed args w

theorem ledger_new : Ledger [] ServiceWorld.new where
  added := by simp
  distinct := by simp
  memory := by simp [ServiceWorld.new]
  freed := by simp [Freed, ServiceWorld.new]

namespace Ledger

/-- A change that frees nothing and leaves the arguments of the tasks as they are. -/
theorem keep (h : Ledger args w) (hp : w.processor.log <+: w'.processor.log)
    (hsome : ∀ t, (w'.tasks t).isSome = (w.tasks t).isSome)
    (hargs : ∀ t s', w'.tasks t = some s' →
      ∃ s, w.tasks t = some s ∧ s'.freeFunc = s.freeFunc ∧ s'.userData = s.userData)
    (hh : w'.history.filter ServiceEvent.isFree = w.history.filter ServiceEvent.isFree) :
    Ledger args w' where
  added := fun a ha => by
    obtain ⟨es, he⟩ := hp
    have hm := h.added a ha
    unfold allAdded at hm ⊢
    rw [← he, List.filterMap_append]
    exact List.mem_append_left _ hm
  distinct := h.distinct
  memory := fun t s' hs' => by
    obtain ⟨s, hs, hf, hu⟩ := hargs t s' hs'
    obtain ⟨a, ha, hat, haf, hau⟩ := h.memory t s hs
    exact ⟨a, ha, hat, hf.trans haf, hu.trans hau⟩
  freed := by
    have hnone : ∀ t, (w'.tasks t).isNone = (w.tasks t).isNone := fun t => by
      rw [← Option.not_isSome, ← Option.not_isSome, hsome]
    unfold Freed
    rw [hh]
    simp only [hnone]
    exact h.freed

/-- A task is written to, and its arguments stay. -/
theorem written {r : ServiceTask} {es : List ServiceEvent} {actions : List (Gpointer × TaskAtom)}
    (h : Ledger args w) (hs : w.tasks t = some s) (hw : Writes w t (some r) es actions w')
    (hf : r.freeFunc = s.freeFunc) (hu : r.userData = s.userData)
    (hno : ∀ e ∈ es, e.isFree = false) : Ledger args w' := by
  have hnil : es.filter ServiceEvent.isFree = [] :=
    List.filter_eq_nil_iff.mpr fun e he => by simp [hno e he]
  refine h.keep (hw.processor ▸ List.prefix_refl _) (fun t' => ?_) (fun t' s1 hs1 => ?_)
    (by rw [hw.history, List.filter_append, hnil, List.append_nil])
  · by_cases htt : t' = t
    · subst htt
      rw [hw.tasks, setTask_self, hs]
      rfl
    · rw [hw.tasks, setTask_ne _ _ htt]
  · by_cases htt : t' = t
    · subst htt
      rw [hw.tasks, setTask_self] at hs1
      obtain rfl := Option.some.inj hs1
      exact ⟨s, hs, hf, hu⟩
    · rw [hw.tasks, setTask_ne _ _ htt] at hs1
      exact ⟨s1, hs1, rfl, rfl⟩

/-! ## The callbacks -/

theorem cancelled (h : Ledger args w) (hs : w.tasks t = some s)
    (hw : Writes w t (some { s with pAction := 0 }) (s.cancelEvents t) (s.keptActions w.actions) w') :
    Ledger args w' := by
  refine h.written hs hw rfl rfl fun e he => ?_
  rcases s.mem_cancelEvents he with rfl | rfl <;> rfl

/-- The arguments of a task are found once among those added. -/
theorem split (h : Ledger args w) (hs : w.tasks t = some s) : ∃ l1 a l2, args = l1 ++ a :: l2 ∧
    a.task = t ∧ s.freeFunc = a.freeFunc ∧ s.userData = a.userData ∧
      ∀ b ∈ l1 ++ l2, b.task ≠ t := by
  obtain ⟨a, ha, rfl, hf, hu⟩ := h.memory t s hs
  obtain ⟨l1, l2, rfl⟩ := List.append_of_mem ha
  refine ⟨l1, a, l2, rfl, rfl, hf, hu, fun b hb => ?_⟩
  have hd := h.distinct
  rw [List.map_append, List.map_cons, List.nodup_middle, ← List.map_append, List.nodup_cons] at hd
  intro hba
  exact hd.1 (List.mem_map.mpr ⟨b, hb, hba⟩)

/-- The balance when a task is deleted. -/
theorem freed_delete (h : Ledger args w) (hs : w.tasks t = some s)
    (hh : w'.history.filter ServiceEvent.isFree =
      w.history.filter ServiceEvent.isFree ++ s.freeCalls)
    (ht : w'.tasks = (w.setTask t none).tasks) : Freed args w' := by
  obtain ⟨l1, a, l2, rfl, hat, hf, hu, hne⟩ := h.split hs
  have hcalls : s.freeCalls = a.freeCalls := by simp [ServiceTask.freeCalls, TaskArgs.freeCalls, hf, hu]
  have hnone : ∀ l : List TaskArgs, (∀ b ∈ l, b.task ≠ t) →
      (l.filter fun b => (w'.tasks b.task).isNone) = l.filter fun b => (w.tasks b.task).isNone := by
    intro l hl
    refine List.filter_congr fun b hb => ?_
    rw [ht, setTask_ne _ _ (hl b hb)]
  have h1 := hnone l1 fun b hb => hne b (List.mem_append_left _ hb)
  have h2 := hnone l2 fun b hb => hne b (List.mem_append_right _ hb)
  have hold := h.freed
  have hkept : ¬ (w.tasks a.task).isNone = true := by simp [hat, hs]
  have hgone : (w'.tasks a.task).isNone = true := by
    rw [ht, hat, setTask_self]
    rfl
  unfold Freed at hold ⊢
  rw [List.filter_append, List.filter_cons, if_neg hkept, List.flatMap_append] at hold
  rw [hh, List.filter_append, List.filter_cons, if_pos hgone, h1, h2, List.flatMap_append,
    List.flatMap_cons, hcalls]
  exact (hold.append_right _).trans (by
    rw [List.append_assoc]
    exact List.perm_append_comm.append_left _)

theorem deleted (h : Ledger args w) (hs : w.tasks t = some s)
    (hw : Writes w t none s.freeCalls w.actions w') : Ledger args w' := by
  have hh : w'.history.filter ServiceEvent.isFree =
      w.history.filter ServiceEvent.isFree ++ s.freeCalls := by
    rw [hw.history, List.filter_append]
    cases hf : s.freeFunc <;> simp [ServiceTask.freeCalls, hf, ServiceEvent.isFree]
  refine ⟨hw.processor ▸ h.added, h.distinct, fun t' s' hs' => ?_, h.freed_delete hs hh hw.tasks⟩
  by_cases htt : t' = t
  · subst htt
    simp [hw.tasks] at hs'
  · rw [hw.tasks, setTask_ne _ _ htt] at hs'
    exact h.memory t' s' hs'

/-- Callbacks in any order. -/
theorem afterCallbacks {es : List Event} (h : Ledger args w) (he : callbacks w es = .ok w') :
    Ledger args w' := by
  induction es generalizing w with
  | nil =>
    obtain rfl := Except.ok.inj he
    exact h
  | cons e es ih =>
    unfold callbacks at he
    split at he
    · simp at he
    · next w1 hw1 =>
      refine ih ?_ he
      cases e with
      | cancelCb _ task _ =>
        obtain ⟨s, hs, ⟨-, rfl⟩ | ⟨-, hw⟩⟩ := cancelCb_writes hw1
        · exact h
        · exact h.cancelled hs hw
      | deleteCb _ task _ =>
        obtain ⟨s, hs, hw⟩ := deleteCb_writes hw1
        exact h.deleted hs hw
      | _ =>
        obtain rfl := Except.ok.inj hw1
        exact h

/-- A task that was never added is added. -/
theorem addTask {a : TaskArgs} (h : Ledger args w) (hg : a.task ∉ allAdded w.processor.log)
    (hl : w'.processor.log = w.processor.log ++ [.addTask k a.task])
    (hw : Writes { w with processor := w'.processor } a.task (some (a.added k)) [] w.actions w') :
    Ledger (args ++ [a]) w' := by
  have hnew : ∀ b ∈ args, b.task ≠ a.task := fun b hb hba => hg (hba ▸ h.added b hb)
  have hkeep : ∀ b ∈ args, w'.tasks b.task = w.tasks b.task := fun b hb => by
    rw [hw.tasks, setTask_ne _ _ (hnew b hb)]
  refine ⟨fun b hb => ?_, ?_, fun t s hs => ?_, ?_⟩
  · unfold allAdded
    rw [hl, List.filterMap_append]
    rcases List.mem_append.mp hb with hb | hb
    · exact List.mem_append_left _ (h.added b hb)
    · rw [List.mem_singleton.mp hb]
      simp
  · rw [List.map_append, List.nodup_append]
    refine ⟨h.distinct, by simp, fun t ht t' ht' => ?_⟩
    obtain ⟨b, hb, rfl⟩ := List.mem_map.mp ht
    obtain rfl : t' = a.task := by simpa using ht'
    exact hnew b hb
  · by_cases ht : t = a.task
    · subst ht
      rw [hw.tasks, setTask_self] at hs
      obtain rfl := Option.some.inj hs
      exact ⟨a, by simp, rfl, rfl, rfl⟩
    · rw [hw.tasks, setTask_ne _ _ ht] at hs
      obtain ⟨b, hb, hbt⟩ := h.memory t s hs
      exact ⟨b, List.mem_append_left _ hb, hbt⟩
  · have hmine : (w'.tasks a.task).isNone = false := by
      rw [hw.tasks, setTask_self]
      rfl
    have hsame : args.filter (fun b => (w'.tasks b.task).isNone) =
        args.filter fun b => (w.tasks b.task).isNone :=
      List.filter_congr fun b hb => by rw [hkeep b hb]
    unfold Freed
    rw [hw.history, List.append_nil, List.filter_append, hsame]
    simpa [Freed, hmine] using h.freed

end Ledger

theorem maintains_ledger : Maintains fun _ => Ledger where
  stepped := fun p h hl _ =>
    h.keep ⟨_, hl.symm⟩ (fun _ => rfl) (fun _ s hs => ⟨s, hs, rfl, rfl⟩) rfl
  cancelled := fun h hs _ hw => h.cancelled hs hw
  deleted := fun h hs _ hw => h.deleted hs hw
  added := fun _ h hg _ hl hw => h.addTask hg hl hw
  finalized := fun proxy h => by
    refine h.keep (List.prefix_refl _) (fun t => by simp [finalizeProxy]) (fun t s' hs' => ?_) rfl
    obtain ⟨s, hs, rfl⟩ := Option.map_eq_some_iff.mp hs'
    refine ⟨s, hs, ?_⟩
    split <;> exact ⟨rfl, rfl⟩
  taken := fun p h _ hl =>
    h.keep ⟨_, hl.symm⟩ (fun _ => rfl) (fun _ s hs => ⟨s, hs, rfl, rfl⟩) rfl
  begun := fun h _ _ hs hw => h.written hs hw rfl rfl (by simp [ServiceEvent.isFree])
  finished := fun h hs _ _ hw => h.written hs hw rfl rfl (by simp [ServiceEvent.isFree])

theorem ledger_run {P : ServiceWorld → ServiceOp → Prop} {ops : List ServiceOp}
    (h : service.Run P ops w) : Ledger (addedArgs ops) w := maintains_ledger.run ledger_new h

/-! ## The tasks in memory -/

/-- A task in memory waits or runs in its queue, or is in flight although its queue is gone. -/
theorem ServiceInv.held {P : World → Op → Prop} {c : Phase} (h : ServiceInv P c w)
    (hs : w.tasks t = some s) : w.Holds s.queueId t := by
  have hI := h.inv
  have hadd := h.key t s hs
  have hkept : t ∉ deletedTasks s.queueId w.processor.log := fun hd => by
    obtain ⟨f, hf, hft⟩ := List.mem_filterMap.mp hd
    obtain ⟨e, he, hj⟩ := List.mem_filterMap.mp hf
    have hnot := ((h.alive t).mp (by simp [hs])).2
    cases taskEvent_of_jobEvent hj with
    | deleted t' u =>
      obtain rfl := Option.some.inj hft
      simp [ServiceStep.any_deletes he] at hnot
    | added _ | begun _ _ | finished _ | cancelled _ _ => cases hft
  cases hq : w.processor.taskQueues.find? s.queueId with
  | some q =>
    have hh := (hI.queueOk hq).history
    rw [jobEvents_logOf] at hh
    have hm := hh.conserve.symm.subset hadd
    rw [List.append_assoc] at hm
    rcases List.mem_append.mp hm with hm | hm
    · exact absurd hm hkept
    · rcases List.mem_append.mp hm with hm | hm
      · exact Or.inl ⟨q, hq, Or.inr (by simpa using hm)⟩
      · exact Or.inl ⟨q, hq, Or.inl hm⟩
  | none =>
    have hok := hI.queues s.queueId
    rw [QueueView.Ok] at hok
    simp only [World.view, hq, Option.map_none, jobEvents_logOf] at hok
    obtain ⟨ws, r, hd⟩ := hok
    -- what was thrown away was deleted, but for the task that was running
    have hr : r = some t := by
      rcases List.mem_append.mp (hd.conserve.symm.subset hadd) with hm | hm
      · exact absurd hm hkept
      · simpa using hm
    subst hr
    have hbegun : processedTasks s.queueId w.processor.log =
        completedTasks s.queueId w.processor.log ++ [t] := hd.begun_eq
    have hnd := hI.processed_nodup s.queueId
    rw [hbegun, List.nodup_append] at hnd
    refine Or.inr ⟨hq, ?_, fun hc => hnd.2.2 t hc t (by simp) rfl⟩
    rw [hbegun]
    simp

/-- A task that waits, runs or is in flight is in memory. -/
theorem ServiceInv.memory_of_holds {P : World → Op → Prop} (h : ServiceInv P .idle w)
    (ht : w.Holds k t) : ∃ s, w.tasks t = some s ∧ s.queueId = k := by
  rcases ht with ⟨q, hq, hw | hc⟩ | ⟨-, hf⟩
  · obtain ⟨hadd, -, s, hs, -⟩ := h.waiting hq hw
    exact ⟨s, hs, h.key_unique (h.key t s hs) hadd⟩
  · obtain ⟨s, hs, hk, -⟩ := h.pending_of_inFlight (h.inv.inFlight hq hc)
    exact ⟨s, hs, hk⟩
  · obtain ⟨s, hs, hk, -⟩ := h.pending_of_inFlight hf
    exact ⟨s, hs, hk⟩

/-- In every run `free_func` is called once for each task that was added and is not in memory any more;
the others, and no more, wait or run. -/
theorem accounted_run {ops : List ServiceOp} (h : service.Run (fun _ _ => True) ops w) :
    Accounted (addedArgs ops) w := by
  have hI := serviceInv_any h
  have hL := ledger_run h
  constructor
  case distinct => exact hL.distinct
  case freed => exact hL.freed
  case held =>
    intro k t
    constructor
    · rintro ⟨s, hs, rfl⟩
      exact hI.held hs
    · exact hI.memory_of_holds
  case added =>
    intro k t ht
    obtain ⟨s, hs, -⟩ := hI.memory_of_holds ht
    obtain ⟨a, ha, rfl, -⟩ := hL.memory t s hs
    exact List.mem_map_of_mem ha

/-- The first task completes, the second one runs and adds a third, another waits, and the last one is
cancelled. -/
def fourFates : List ServiceOp :=
  [.call (.addQueue ⟨1, "a", "b"⟩ flagAutoStart), .call (.addQueue ⟨2, "c", "b"⟩ 0),
    .call (.addServiceTask ⟨1, "a", "b"⟩ 7 3 (some 5) 1),
    .call (.addServiceTask ⟨1, "a", "b"⟩ 8 3 (some 5) 2),
    .call (.addServiceTask ⟨2, "c", "b"⟩ 9 3 (some 5) 3), .dispatch ⟨1, "a", "b"⟩ [] 0 false,
    .dispatch ⟨1, "a", "b"⟩ [.addServiceTask ⟨1, "a", "b"⟩ 10 3 (some 5) 4] 6 false,
    .call (.cancelQueue ⟨2, "c", "b"⟩)]

theorem accounted_fourFates :
    Accounted (addedArgs fourFates) (service.final (fun _ _ => True) fourFates) ∧
      (service.final (fun _ _ => True) fourFates).history.filter ServiceEvent.isFree =
        [.freeFunc 5 1, .freeFunc 5 3] :=
  ⟨accounted_run (System.run_final (by decide)), by decide⟩

/-! ## Freeing the processor -/

/-- The callbacks of a queue that is freed with its waiting tasks. -/
theorem callbacks_freed {q : TaskQueue} (h : ∀ t ∈ q.tasks, (w.tasks t).isSome = true)
    (hnd : q.tasks.Nodup) : callbacks w (freeCalls k q) = .ok (w.freeTasks q.tasks) := by
  have hdelete : ∀ (ts : List TaskAtom) (w : ServiceWorld), (∀ t ∈ ts, (w.tasks t).isSome = true) →
      ts.Nodup → callbacks w (ts.map fun t => .deleteCb k t q.userData) = .ok (w.freeTasks ts) := by
    intro ts
    induction ts with
    | nil =>
      intro w _ _
      rw [freeTasks_nil]
      rfl
    | cons t ts ih =>
      intro w h hnd
      obtain ⟨hnot, hnd⟩ := List.nodup_cons.mp hnd
      obtain ⟨s, hs⟩ := Option.isSome_iff_exists.mp (h t List.mem_cons_self)
      have htail : ∀ t' ∈ ts, ((w.freeTasks [t]).tasks t').isSome = true := fun t' ht' => by
        have hne : t' ≠ t := fun he => hnot (he ▸ ht')
        simpa [freeTasks_tasks, hne] using h t' (List.mem_cons_of_mem _ ht')
      have hdisj : ∀ t' ∈ ts, t' ∉ [t] := fun t' ht' he => hnot (List.mem_singleton.mp he ▸ ht')
      simp only [List.map_cons, callbacks, callback_deleteCb hs]
      rw [ih _ htail hnd, freeTasks_freeTasks w hdisj, List.singleton_append]
  rw [freeCalls, callbacks_append, hdelete q.tasks w h hnd]
  cases q.taskQueueFinallyCb <;> rfl

/-- The callbacks of the queues that are freed with the processor. -/
theorem callbacks_free {l : List (TaskQueueKey × TaskQueue)}
    (h : ∀ e ∈ l, ∀ t ∈ e.2.tasks, (w.tasks t).isSome = true)
    (hnd : (l.flatMap fun e => e.2.tasks).Nodup) :
    callbacks w (l.flatMap fun e => freeCalls e.1 e.2) =
      .ok (w.freeTasks (l.flatMap fun e => e.2.tasks)) := by
  induction l generalizing w with
  | nil =>
    rw [List.flatMap_nil, List.flatMap_nil, freeTasks_nil]
    rfl
  | cons e l ih =>
    rw [List.flatMap_cons, List.nodup_append] at hnd
    obtain ⟨hnd1, hnd2, hdisj⟩ := hnd
    have hne : ∀ t ∈ l.flatMap fun e => e.2.tasks, t ∉ e.2.tasks := fun t ht ht' =>
      hdisj t ht' t ht rfl
    have htail : ∀ e' ∈ l, ∀ t ∈ e'.2.tasks, ((w.freeTasks e.2.tasks).tasks t).isSome = true := by
      intro e' he' t ht
      have hnot := hne t (List.mem_flatMap.mpr ⟨e', he', ht⟩)
      simpa [freeTasks_tasks, hnot] using h e' (List.mem_cons_of_mem _ he') t ht
    rw [List.flatMap_cons, List.flatMap_cons, callbacks_append,
      callbacks_freed (h e List.mem_cons_self) hnd1]
    simp only
    rw [ih htail hnd2, freeTasks_freeTasks w hne]

/-- The tasks that wait are different, and none of them runs. -/
theorem waiting_nodup {P : World → Op → Prop} {c : Phase} (h : ServiceInv P c w) :
    (w.processor.taskQueues.entries.flatMap fun e => e.2.tasks).Nodup := by
  have hhist : ∀ e ∈ w.processor.taskQueues.entries,
      JobQueue.History (jobEvents e.1 w.processor.log) e.2.tasks e.2.currentTask := by
    intro e he
    have hh := (h.inv.queueOk (HashTable.find?_eq_some.mpr he)).history
    rwa [jobEvents_logOf] at hh
  refine List.nodup_flatMap.mpr ⟨fun e he => ?_, ?_⟩
  · exact (List.nodup_append.mp (hhist e he).nodup).2.1
  · have hkeys := w.processor.taskQueues.keys_nodup
    rw [HashTable.keys, List.Nodup, List.pairwise_map] at hkeys
    refine hkeys.imp_of_mem fun he he' hne t ht ht' => hne ?_
    exact h.key_unique ((hhist _ he).conserve.subset (List.mem_append_right _ ht))
      ((hhist _ he').conserve.subset (List.mem_append_right _ ht'))

/-- A task in flight does not wait. -/
theorem notWaiting_of_inFlight {P : World → Op → Prop} {c : Phase} (h : ServiceInv P c w)
    (hf : InFlight w.processor.log k t) :
    t ∉ w.processor.taskQueues.entries.flatMap fun e => e.2.tasks := by
  intro hm
  obtain ⟨e, he, ht⟩ := List.mem_flatMap.mp hm
  have hq := HashTable.find?_eq_some.mpr he
  obtain ⟨hadd, hcalls, -⟩ := h.waiting hq ht
  obtain ⟨u, hu⟩ := mem_processedTasks hf.1
  exact List.filter_eq_nil_iff.mp hcalls _ hu (by simp [Event.processes])

/-- When the processor is freed, the tasks that wait are freed, each once, and those in flight stay
behind. -/
theorem freedAtExit_run {ops : List ServiceOp} (h : service.Run (fun _ _ => True) ops w) :
    ∃ w', freeServiceProcessor w = .ok w' ∧ FreedAtExit (addedArgs ops) w w' := by
  have hinv := serviceInv_any h
  have hl : (dleynaTaskProcessorFree w.processor).log = w.processor.log ++
      w.processor.taskQueues.entries.flatMap fun e => freeCalls e.1 e.2 := by
    rw [dleynaTaskProcessorFree, gHashTableRemoveAll_eq]
  have hlive : ∀ e ∈ w.processor.taskQueues.entries, ∀ t ∈ e.2.tasks, (w.tasks t).isSome = true := by
    intro e he t ht
    obtain ⟨-, -, s, hs, -⟩ := hinv.waiting (HashTable.find?_eq_some.mpr he) ht
    simp [hs]
  have hcb : freeServiceProcessor w = .ok
      (ServiceWorld.freeTasks { w with processor := dleynaTaskProcessorFree w.processor }
        (w.processor.taskQueues.entries.flatMap fun e => e.2.tasks)) := by
    unfold freeServiceProcessor
    simp only [hl, List.drop_left]
    exact callbacks_free hlive (waiting_nodup hinv)
  refine ⟨_, hcb, by simp [dleynaTaskProcessorFree]; rfl, fun t => ?_, ?_⟩
  · rw [freeTasks_tasks]
    constructor
    · intro hsome
      split at hsome
      · simp at hsome
      · next hnot =>
        obtain ⟨s, hs⟩ := Option.isSome_iff_exists.mp hsome
        rcases hinv.held hs with ⟨q, hq, ht | hc⟩ | ⟨-, hf⟩
        · exact absurd (List.mem_flatMap.mpr ⟨_, HashTable.find?_eq_some.mp hq, ht⟩) hnot
        · exact ⟨_, hinv.inv.inFlight hq hc⟩
        · exact ⟨_, hf⟩
    · rintro ⟨k, hf⟩
      obtain ⟨s, hs, -⟩ := hinv.pending_of_inFlight hf
      rw [if_neg (notWaiting_of_inFlight hinv hf)]
      simp [hs]
  · have hkeep : Ledger (addedArgs ops)
        { w with processor := dleynaTaskProcessorFree w.processor } :=
      (ledger_run h).keep (by simp [hl]) (fun _ => rfl) (fun _ s hs => ⟨s, hs, rfl, rfl⟩) rfl
    exact (hkeep.afterCallbacks hcb).freed

theorem freedAtExit_fourFates :
    ∃ w', freeServiceProcessor (service.final (fun _ _ => True) fourFates) = .ok w' ∧
      FreedAtExit (addedArgs fourFates) (service.final (fun _ _ => True) fourFates) w' :=
  freedAtExit_run (System.run_final (by decide))

end DleynaCore
