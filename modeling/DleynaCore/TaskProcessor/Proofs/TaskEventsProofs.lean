import DleynaCore.TaskProcessor.Proofs.AccountingProofs
import DleynaCore.TaskProcessor.Proofs.InOrderProofs
import DleynaCore.TaskProcessor.Proofs.LogProofs

/-!
# What a step does to single tasks

A running task that completes is deleted, a running task that is cancelled completes if its cancel
callback says so, and nothing else deletes a running task. Nothing happens to a task after its
deletion.
-/

namespace DleynaCore

open JobQueue

variable {w w' : World} {k : TaskQueueKey} {q : TaskQueue} {ops : List Op} {t : TaskAtom}

/-! ## The running task of a queue -/

/-- The cancel callbacks of the request that complete their tasks. -/
def Request.syncs : Request → TaskAtom → Bool
  | .cancel sync | .remove sync | .quitCancel sync => sync
  | _ => fun _ => false

/-- The request reports the task completed. -/
def Request.reports (t : TaskAtom) : Request → Prop
  | .complete t' | .lastComplete t' => t' = t
  | _ => False

/-- What the calls `es` for the queue `k` do to its running task `c`. -/
structure Fate (k : TaskQueueKey) (c : Option TaskAtom) (sync : TaskAtom → Bool)
    (reported : TaskAtom → Prop) (es : List Event) : Prop where
  completed : ∀ t, .completed k t ∈ es → c = some t ∧ ∃ u, .deleteCb k t u ∈ es
  cancelled : ∀ t u, .cancelCb k t u ∈ es → c = some t → sync t = true →
    (∃ u, .deleteCb k t u ∈ es) ∧ .completed k t ∈ es
  deleted : ∀ t u, .deleteCb k t u ∈ es → c = some t →
    reported t ∨ sync t = true ∧ ∃ u, .cancelCb k t u ∈ es

section Fate

variable {c : Option TaskAtom} {sync : TaskAtom → Bool} {reported : TaskAtom → Prop}
  {es es' : List Event}

theorem Fate.append (h : Fate k c sync reported es) (h' : Fate k c sync reported es') :
    Fate k c sync reported (es ++ es') where
  completed := by
    intro t ht
    rcases List.mem_append.mp ht with ht | ht
    · obtain ⟨hc, u, hu⟩ := h.completed t ht
      exact ⟨hc, u, List.mem_append_left _ hu⟩
    · obtain ⟨hc, u, hu⟩ := h'.completed t ht
      exact ⟨hc, u, List.mem_append_right _ hu⟩
  cancelled := by
    intro t u ht hc hs
    rcases List.mem_append.mp ht with ht | ht
    · obtain ⟨⟨u, hu⟩, hd⟩ := h.cancelled t u ht hc hs
      exact ⟨⟨u, List.mem_append_left _ hu⟩, List.mem_append_left _ hd⟩
    · obtain ⟨⟨u, hu⟩, hd⟩ := h'.cancelled t u ht hc hs
      exact ⟨⟨u, List.mem_append_right _ hu⟩, List.mem_append_right _ hd⟩
  deleted := by
    intro t u ht hc
    rcases List.mem_append.mp ht with ht | ht
    · exact (h.deleted t u ht hc).imp id fun ⟨hs, u, hu⟩ => ⟨hs, u, List.mem_append_left _ hu⟩
    · exact (h'.deleted t u ht hc).imp id fun ⟨hs, u, hu⟩ => ⟨hs, u, List.mem_append_right _ hu⟩

/-- Calls that are not about the running task. -/
theorem fate_silent (h1 : ∀ t, .completed k t ∉ es)
    (h2 : ∀ t u, c = some t → .cancelCb k t u ∉ es ∧ .deleteCb k t u ∉ es) :
    Fate k c sync reported es where
  completed := fun t ht => absurd ht (h1 t)
  cancelled := fun t u ht hc => absurd ht (h2 t u hc).1
  deleted := fun t u ht hc => absurd ht (h2 t u hc).2

theorem fate_nil : Fate k c sync reported [] := fate_silent (by simp) (by simp)

theorem fate_freeCalls (h : ∀ t, c = some t → t ∉ q.tasks) :
    Fate k c sync reported (freeCalls k q) := by
  refine fate_silent (fun t ht => ?_) fun t u hc => ⟨fun ht => ?_, fun ht => ?_⟩
  all_goals
    rcases List.mem_append.mp ht with ht | ht
    · obtain ⟨t', ht', he⟩ := List.mem_map.mp ht
      first
        | exact h t hc ((Event.deleteCb.inj he).2.1 ▸ ht')
        | simp at he
    · cases hcb : q.taskQueueFinallyCb <;> simp [hcb] at ht

theorem fate_cancelAndFreeCalls (h : ∀ t, c = some t → t ∉ q.tasks) :
    Fate k c sync reported (cancelAndFreeCalls k q) := by
  refine fate_silent (fun t ht => ?_) fun t u hc => ⟨fun ht => ?_, fun ht => ?_⟩
  all_goals
    obtain ⟨t', ht', he⟩ := List.mem_flatMap.mp ht
    simp at he
  · exact h t hc (he.1 ▸ ht')
  · exact h t hc (he.1 ▸ ht')

theorem fate_cancelCb (u : Gpointer) (hs : sync t = false) :
    Fate k c sync reported [.cancelCb k t u] where
  completed := by simp
  cancelled := by
    intro t' u' ht _ hs'
    have : t' = t := by simpa using (Event.cancelCb.inj (List.mem_singleton.mp ht)).2.1
    simp [this, hs] at hs'
  deleted := by simp

theorem fate_cancelCompleteCalls (hc : c = some t) (hs : sync t = true) :
    Fate k c sync reported (q.cancelCompleteCalls k t) where
  completed := by
    intro t' ht
    have : t' = t := by simpa [TaskQueue.cancelCompleteCalls] using ht
    exact ⟨this ▸ hc, q.userData, by simp [TaskQueue.cancelCompleteCalls, this]⟩
  cancelled := by
    intro t' u ht hc' _
    have : t' = t := by simpa using hc'.symm.trans hc
    exact ⟨⟨q.userData, by simp [TaskQueue.cancelCompleteCalls, this]⟩,
      by simp [TaskQueue.cancelCompleteCalls, this]⟩
  deleted := by
    intro t' u ht hc'
    have : t' = t := by simpa using hc'.symm.trans hc
    exact Or.inr ⟨this ▸ hs, q.userData, by simp [TaskQueue.cancelCompleteCalls, this]⟩

theorem fate_completed (hc : q.currentTask = some t) (hr : reported t) :
    Fate k q.currentTask sync reported ([.completed k t] ++ q.deleteCurrent k) where
  completed := by
    intro t' ht
    have : t' = t := by simpa [TaskQueue.deleteCurrent, hc] using ht
    exact ⟨this ▸ hc, q.userData, by simp [TaskQueue.deleteCurrent, hc, this]⟩
  cancelled := by
    intro t' u ht
    simp [TaskQueue.deleteCurrent, hc] at ht
  deleted := by
    intro t' u _ hc'
    have : t' = t := by simpa using hc'.symm.trans hc
    exact Or.inl (this ▸ hr)

end Fate

section Requests

variable {r : Request} {o : Option TaskQueue} {es : List Event}

theorem Gone.fate (h : Gone k q r es) (hq : ∀ t, q.currentTask = some t → t ∉ q.tasks)
    (hr : ∀ t, r.reports t → q.currentTask = some t) :
    Fate k q.currentTask r.syncs (r.reports ·) es := by
  have hdrain : ∀ t, q.currentTask = some t → t ∉ q.drain.tasks := fun t _ => by
    simp [TaskQueue.drain]
  cases h with
  | start _ _ _ | removeMarked _ _ _ | drop => exact fate_freeCalls hq
  | drained _ _ => exact (fate_cancelAndFreeCalls hq).append (fate_freeCalls hdrain)
  | completed hc hs hreq =>
    refine ((fate_cancelAndFreeCalls hq).append (fate_cancelCompleteCalls hc ?_)).append
      (fate_freeCalls hdrain)
    rcases hreq with rfl | ⟨rfl, -⟩ <;> exact hs
  | left _ hs =>
    exact ((fate_cancelAndFreeCalls hq).append (fate_cancelCb _ hs)).append (fate_freeCalls hdrain)
  | complete _ | lastComplete =>
    exact (fate_completed (hr _ rfl) rfl).append (fate_freeCalls hq)

theorem Kept.fate {q' : TaskQueue} (h : Kept k q r q' es)
    (hq : ∀ t, q.currentTask = some t → t ∉ q.tasks)
    (hr : ∀ t, r.reports t → q.currentTask = some t) :
    Fate k q.currentTask r.syncs (r.reports ·) es := by
  cases h with
  | start | startWaiting _ _ _ | cancelMarked _ | removeDeferred _ | removeMarked _ _ | setFinally
  | setUserData => exact fate_nil
  | addTask _ | addTaskStart _ _ _ | dispatch _ => exact fate_silent (by simp) (by simp)
  | cancelIdle _ _ => exact fate_cancelAndFreeCalls hq
  | cancelRunning _ hs | removeRunning _ hs =>
    exact (fate_cancelAndFreeCalls hq).append (fate_cancelCb _ hs)
  | cancelCompleted _ hc hs _ _ =>
    exact (fate_cancelAndFreeCalls hq).append (fate_cancelCompleteCalls hc hs)
  | complete _ _ _ | completeNext _ _ => exact fate_completed (hr _ rfl) rfl

/-- What a request does to the running task of the queue. -/
theorem serve_fate (hq : ∀ t, q.currentTask = some t → t ∉ q.tasks)
    (hr : ∀ t, r.reports t → q.currentTask = some t) (hs : q.serve k r = .ok (o, es)) :
    Fate k q.currentTask r.syncs (r.reports ·) es := by
  cases answered_of_serve hs with
  | gone h => exact h.fate hq hr
  | kept h => exact h.fate hq hr

end Requests

/-! ## Steps -/

/-- The cancel callbacks of the step that complete their tasks. -/
def Op.syncs : Op → TaskAtom → Bool
  | .cancelQueue _ sync | .removeQueuesForSource _ sync | .removeQueuesForSink _ sync
  | .setQuitting sync => sync
  | _ => fun _ => false

theorem effect_syncs {op : Op} {r : Request} (he : effect w op k = some r) :
    r.syncs = op.syncs ∨ r = .drop := by
  cases asked_of_effect he with
  | cancelOther _ _ _ | passed _ _ | completeOther _ _ _ => exact Or.inr rfl
  | addQueue _ | addTask _ | start | cancel _ _ | cancelLast _ _ | removeForSource _
  | removeForSink _ | reached _ _ _ | complete _ _ | completeLast _ _ | setFinally _
  | setUserData _ | dispatch => exact Or.inl rfl

theorem effect_reports {op : Op} {r : Request} (he : effect w op k = some r) (hr : r.reports t) :
    op = .taskCompleted k t := by
  cases asked_of_effect he with
  | complete task _ | completeLast task _ =>
    have htask : task = t := hr
    rw [htask]
  | addQueue _ | addTask _ | start | cancel _ _ | cancelLast _ _ | cancelOther _ _ _
  | removeForSource _ | removeForSink _ | reached _ _ _ | passed _ _ | completeOther _ _ _
  | setFinally _ | setUserData _ | dispatch => exact hr.elim

/-- A running task is in flight. -/
theorem QueueOk.inFlight {log : List Event} (h : QueueOk k q log) (hc : q.currentTask = some t) :
    InFlight log k t := by
  have hb := h.history.begun_eq
  have hnd := h.history.begun_nodup
  rw [hc] at hb
  rw [hb, List.nodup_append] at hnd
  have hm : t ∈ begunJobs (jobEvents k log) := by
    rw [hb]
    simp
  exact ⟨hm, fun hf => hnd.2.2 t hf t (by simp) rfl⟩

theorem Inv.inFlight (h : Inv w) (hq : w.taskQueues.find? k = some q)
    (hc : q.currentTask = some t) : InFlight w.log k t :=
  inFlight_logOf.mp ((h.queueOk hq).inFlight hc)

/-- What a step adds to the history of a queue: nothing but its addition, or the events of a request
to it. -/
theorem step_events {op : Op} {es : List Event} (hI : Inv w) (hg : Guard w op)
    (hs : step w op = .ok w') (hl : w'.log = w.log ++ es) (k : TaskQueueKey) :
    ((w.taskQueues.find? k = none ∨ effect w op k = none) ∧
      ∀ e ∈ es, e.key = some k → ∃ flags, e = .addQueue k flags) ∨
      ∃ q r o, w.taskQueues.find? k = some q ∧ effect w op k = some r ∧
        q.shape.serve k r = .ok (o, es.filter fun e => e.key = some k) := by
  have hv := (hI.simulates hg hs).view k
  have hlog : (w'.view k).log = (w.view k).log ++ es.filter fun e => e.key = some k := by
    simp [World.view, World.logOf, hl]
  have hsame : w'.view k = w.view k →
      ∀ e ∈ es, e.key = some k → ∃ flags, e = .addQueue k flags := by
    intro hvv e he hk
    rw [hvv] at hlog
    have hnil := List.self_eq_append_right.mp hlog
    exact absurd hk (by simpa using List.filter_eq_nil_iff.mp hnil e he)
  cases he : effect w op k with
  | none =>
    rw [he] at hv
    exact Or.inl ⟨Or.inr rfl, hsame (Except.ok.inj hv).symm⟩
  | some r =>
    rw [he] at hv
    simp only [QueueView.serve?, QueueView.serve] at hv
    cases hq : w.taskQueues.find? k with
    | none =>
      refine Or.inl ⟨Or.inl rfl, ?_⟩
      rw [view_of_find?_none hq] at hv
      simp only at hv
      split at hv
      · next flags =>
        intro e hm hk
        rw [← Except.ok.inj hv, view_of_find?_none hq] at hlog
        have hes := List.append_cancel_left (hlog.symm.trans rfl)
        have hm' : e ∈ es.filter fun e => e.key = some k := List.mem_filter.mpr ⟨hm, by simpa using hk⟩
        rw [hes] at hm'
        exact ⟨flags, List.mem_singleton.mp hm'⟩
      · exact hsame ((Except.ok.inj hv).symm.trans (view_of_find?_none hq).symm)
      · exact hsame ((Except.ok.inj hv).symm.trans (view_of_find?_none hq).symm)
      · exact hsame ((Except.ok.inj hv).symm.trans (view_of_find?_none hq).symm)
      · simp at hv
    | some q =>
      right
      have hvq : (w.view k).queue = some q.shape := by simp [World.view, hq]
      simp only [hvq] at hv
      cases hsv : q.shape.serve k r with
      | error fault => simp [hsv] at hv
      | ok a =>
        obtain ⟨o, es'⟩ := a
        rw [hsv] at hv
        rw [← Except.ok.inj hv] at hlog
        refine ⟨q, r, o, rfl, rfl, ?_⟩
        rw [hsv, show es' = _ from List.append_cancel_left hlog]

/-- What a step does to the tasks in flight. -/
structure TaskStep (w : World) (op : Op) (es : List Event) : Prop where
  completed : ∀ k t, .completed k t ∈ es → InFlight w.log k t ∧ ∃ u, .deleteCb k t u ∈ es
  cancelled : ∀ k t u, .cancelCb k t u ∈ es → InFlight w.log k t → op.syncs t = true →
    (∃ u, .deleteCb k t u ∈ es) ∧ .completed k t ∈ es
  deleted : ∀ k t u, .deleteCb k t u ∈ es → InFlight w.log k t →
    op = .taskCompleted k t ∨ op.syncs t = true ∧ ∃ u, .cancelCb k t u ∈ es

theorem taskStep {op : Op} {es : List Event} (hI : Inv w) (hg : Guard w op)
    (hs : step w op = .ok w') (hl : w'.log = w.log ++ es) : TaskStep w op es := by
  have hkey : ∀ k e, e ∈ es → e.key = some k → (∃ flags, e = .addQueue k flags) ∨
      ∃ q r, w.taskQueues.find? k = some q ∧ effect w op k = some r ∧
        Fate k q.currentTask r.syncs (r.reports ·) (es.filter fun e => e.key = some k) ∧
        e ∈ es.filter fun e => e.key = some k := by
    intro k e he hk
    rcases step_events hI hg hs hl k with h | ⟨q, r, o, hq, her, hsv⟩
    · exact Or.inl (h.2 e he hk)
    · refine Or.inr ⟨q, r, hq, her, ?_, List.mem_filter.mpr ⟨he, by simpa using hk⟩⟩
      have hok := hI.queueOk hq
      refine serve_fate (q := q.shape) (fun t hc hm => ?_) (fun t ht => ?_) hsv
      · have hnd := hok.history.nodup
        rw [hc, List.append_assoc, List.nodup_append, List.nodup_append] at hnd
        exact hnd.2.1.2.2 t (by simp) t hm rfl
      · obtain rfl := effect_reports her ht
        exact hI.current_of_inFlight hq hg
  have hsub : ∀ {k e}, e ∈ es.filter (fun e => e.key = some k) → e ∈ es :=
    fun h => (List.mem_filter.mp h).1
  refine ⟨fun k t ht => ?_, fun k t u ht hf hsync => ?_, fun k t u ht hf => ?_⟩
  · rcases hkey k _ ht rfl with ⟨flags, h⟩ | ⟨q, r, hq, -, hF, hm⟩
    · simp at h
    · obtain ⟨hc, u, hu⟩ := hF.completed t hm
      exact ⟨hI.inFlight hq hc, u, hsub hu⟩
  · rcases hkey k _ ht rfl with ⟨flags, h⟩ | ⟨q, r, hq, her, hF, hm⟩
    · simp at h
    · rcases effect_syncs her with hsy | rfl
      · obtain ⟨⟨u', hu⟩, hc⟩ := hF.cancelled t u hm (hI.current_of_inFlight hq hf)
          (by rw [hsy]; exact hsync)
        exact ⟨⟨u', hsub hu⟩, hsub hc⟩
      · -- a queue that is dropped makes no cancel calls
        exfalso
        rcases step_events hI hg hs hl k with h | ⟨q', r', o, hq', her', hsv⟩
        · simpa using h.2 _ ht rfl
        · obtain rfl : Request.drop = r' := Option.some.inj (her.symm.trans her')
          rw [← (Prod.mk.inj (Except.ok.inj hsv)).2] at hm
          rcases List.mem_append.mp hm with hm | hm
          · simp at hm
          · split at hm <;> simp at hm
  · rcases hkey k _ ht rfl with ⟨flags, h⟩ | ⟨q, r, hq, her, hF, hm⟩
    · simp at h
    · rcases hF.deleted t u hm (hI.current_of_inFlight hq hf) with hr | ⟨hsy, u', hu⟩
      · exact Or.inl (effect_reports her hr)
      · refine Or.inr ⟨?_, u', hsub hu⟩
        rcases effect_syncs her with hsy' | rfl
        · rw [← hsy']
          exact hsy
        · simp [Request.syncs] at hsy

/-! ## The end of a task -/

theorem job_added (hI : Inv w) {e : Event} (he : e ∈ w.log) {f : JobEvent TaskAtom}
    (hf : jobEvent k e = some f) : f.job ∈ addedTasks k w.log := by
  have hm : f ∈ jobEvents k w.log := List.mem_filterMap.mpr ⟨e, he, hf⟩
  rcases hI.history k with ⟨ws, r, hh⟩ | ⟨ws, r, hh⟩
  · exact hh.job_mem hm
  · exact hh.job_mem hm

/-- The events of one kind about a task are those in the history of its queue. -/
theorem countP_eq_count_of_added {P : World → Op → Prop} (h : processor.Run P ops w)
    (ht : t ∈ addedTasks k w.log) {p : Event → Bool} {sel : JobEvent TaskAtom → Option TaskAtom}
    (htask : ∀ e, p e = true → e.task = some t)
    (hsel : ∀ e f, TaskEvent k e f → (p e = true ↔ sel f = some t)) :
    w.log.countP p = ((jobEvents k w.log).filterMap sel).count t := by
  refine countP_eq_count fun e he => kind_iff (htask e) (hsel e) fun hte => ?_
  obtain ⟨k', f, hk', hf, rfl⟩ := jobEvent_of_task hte
  rw [hk', added_unique h (job_added (inv_run h) he hf) ht]

/-- In every run, nothing happens to a task after its deletion. -/
theorem deletedLast_run {P : World → Op → Prop} (h : processor.Run P ops w) :
    w.log.Pairwise fun e f => ∀ t, e.deletes t = true → f.task ≠ some t := by
  have hI := inv_run h
  refine List.pairwise_iff_forall_sublist.mpr fun {e f} hsub t hd ht => ?_
  have he : e ∈ w.log := hsub.subset (by simp)
  have hf : f ∈ w.log := hsub.subset (by simp)
  cases e with
  | deleteCb k t' u =>
    obtain rfl : t' = t := by simpa [Event.deletes] using hd
    obtain ⟨k', g, hk', hg, hgt⟩ := jobEvent_of_task ht
    have hj : jobEvent k (.deleteCb k t' u) = some (.deleted t') := if_pos rfl
    -- both events are about the same queue
    have hk : t' ∈ addedTasks k w.log := job_added hI he hj
    have hkk : k' = k := added_unique h (hgt ▸ job_added hI hf hg) hk
    subst hkk
    have hsub' : [JobEvent.deleted t', g].Sublist (jobEvents k' w.log) := by
      have := hsub.filterMap (jobEvent k')
      simpa [List.filterMap_cons, hj, hg, jobEvents] using this
    have hlast : DeletedLast (jobEvents k' w.log) := by
      rcases hI.history k' with ⟨ws, r, hh⟩ | ⟨ws, r, hh⟩
      · exact hh.deletedLast
      · exact hh.deletedLast
    exact List.pairwise_iff_forall_sublist.mp hlast hsub' t' rfl hgt
  | _ => simp [Event.deletes] at hd

/-- A task in flight is not deleted. -/
theorem Inv.not_deleted (hI : Inv w) (ht : InFlight w.log k t) : t ∉ deletedTasks k w.log := by
  have hrun : ∀ {r : Option TaskAtom},
      processedTasks k w.log = completedTasks k w.log ++ r.toList → r = some t := fun {r} hr => by
    have hm := ht.1
    rw [hr] at hm
    rcases List.mem_append.mp hm with hm | hm
    · exact absurd hm ht.2
    · simpa using hm
  rcases hI.history k with ⟨ws, r, hh⟩ | ⟨ws, r, hh⟩
  · obtain rfl := hrun hh.begun_eq
    exact hh.running_notMem
  · obtain rfl := hrun hh.begun_eq
    exact hh.running_notMem

/-- A task is completed at most once. -/
theorem Inv.completed_nodup (hI : Inv w) (k : TaskQueueKey) : (completedTasks k w.log).Nodup := by
  have hnd : (processedTasks k w.log).Nodup := by
    rcases hI.history k with ⟨ws, r, hh⟩ | ⟨ws, r, hh⟩
    · exact hh.begun_nodup
    · exact hh.added_nodup.sublist hh.begun_sublist
  obtain ⟨r, hr⟩ := hI.one_running (k := k) (List.prefix_refl w.log)
  rw [hr, List.nodup_append] at hnd
  exact hnd.1

theorem Inv.processed_nodup (hI : Inv w) (k : TaskQueueKey) : (processedTasks k w.log).Nodup := by
  rcases hI.history k with ⟨ws, r, hh⟩ | ⟨ws, r, hh⟩
  · exact hh.begun_nodup
  · exact hh.added_nodup.sublist hh.begun_sublist

/-! ## The tasks in flight -/

theorem mem_processedTasks_iff {log : List Event} :
    t ∈ processedTasks k log ↔ (k, t) ∈ processedPairs log := by
  constructor
  · intro h
    obtain ⟨u, hu⟩ := mem_processedTasks h
    exact List.mem_filterMap.mpr ⟨_, hu, rfl⟩
  · intro h
    obtain ⟨e, he, hp⟩ := List.mem_filterMap.mp h
    cases e with
    | processCb k' t' u =>
      obtain ⟨rfl, rfl⟩ : k' = k ∧ t' = t := by simpa using hp
      exact List.mem_filterMap.mpr ⟨.begun t', List.mem_filterMap.mpr ⟨_, he, if_pos rfl⟩, rfl⟩
    | _ => simp at hp

theorem mem_inFlightTasks {log : List Event} : (k, t) ∈ inFlightTasks log ↔ InFlight log k t := by
  rw [inFlightTasks, List.mem_filter, ← mem_processedTasks_iff, InFlight]
  simp

theorem mem_completedTasks_iff {log : List Event} :
    t ∈ completedTasks k log ↔ Event.completed k t ∈ log := by
  refine ⟨fun h => ?_, mem_completedTasks⟩
  obtain ⟨f, hf, hft⟩ := List.mem_filterMap.mp h
  obtain ⟨e, he, hj⟩ := List.mem_filterMap.mp hf
  cases taskEvent_of_jobEvent hj with
  | finished t' =>
    obtain rfl := Option.some.inj hft
    exact he
  | added _ | begun _ _ | cancelled _ _ | deleted _ _ => cases hft

theorem addedTasks_mono {log log' es : List Event} (hl : log' = log ++ es)
    (h : t ∈ addedTasks k log) : t ∈ addedTasks k log' := by
  rw [hl, addedTasks_append]
  exact List.mem_append_left _ h

theorem completedTasks_mono {log log' es : List Event} (hl : log' = log ++ es)
    (h : t ∈ completedTasks k log) : t ∈ completedTasks k log' := by
  rw [hl, completedTasks_append]
  exact List.mem_append_left _ h

/-- Without a dispatch, the tasks in flight after a step are those before it that it does not
complete. -/
theorem inFlight_append {op : Op} {es : List Event} (hI : Inv w) (hg : Guard w op)
    (hs : step w op = .ok w') (hl : w'.log = w.log ++ es) (hop : op ≠ .dispatch k) :
    InFlight w'.log k t ↔ InFlight w.log k t ∧ .completed k t ∉ es := by
  have hp : processedTasks k es = [] := by
    refine List.eq_nil_iff_forall_not_mem.mpr fun t ht => ?_
    obtain ⟨u, hu⟩ := mem_processedTasks ht
    exact hop (process_step hI hg hs hl hu)
  rw [InFlight, InFlight, hl, processedTasks_append, completedTasks_append, hp, List.append_nil,
    List.mem_append, not_or, and_assoc, mem_completedTasks_iff, mem_completedTasks_iff]

theorem count_processedPairs (k : TaskQueueKey) (t : TaskAtom) (log : List Event) :
    (processedPairs log).count (k, t) = (processedTasks k log).count t := by
  induction log with
  | nil => rfl
  | cons e log ih =>
    have hcons : processedTasks k (e :: log) =
        ((jobEvent k e).bind JobEvent.begun?).toList ++ processedTasks k log := by
      rw [processedTasks, jobEvents, List.filterMap_cons]
      cases jobEvent k e with
      | none => rfl
      | some f =>
        rw [begunJobs, List.filterMap_cons]
        simp only [Option.bind_some]
        cases f.begun? <;> rfl
    rw [hcons, List.count_append, ← ih]
    cases e with
    | processCb k' t' u =>
      simp only [processedPairs, List.filterMap_cons, List.count_cons, jobEvent]
      by_cases hk : k' = k
      · simp [hk, Nat.add_comm, List.count_singleton]
      · simp [hk]
    | _ =>
      simp only [processedPairs, List.filterMap_cons, jobEvent]
      (try split) <;> simp

theorem Inv.inFlightTasks_nodup (hI : Inv w) : (inFlightTasks w.log).Nodup := by
  refine List.Nodup.filter _ (List.nodup_iff_count_le_one.mpr fun x => ?_)
  obtain ⟨k, t⟩ := x
  rw [count_processedPairs]
  exact List.nodup_iff_count_le_one.mp (hI.processed_nodup k) t

/-- When every task in flight is the running task of its queue, there are as many of them as queues
with a running task. -/
theorem Inv.length_inFlightTasks (hI : Inv w)
    (h : ∀ k t, InFlight w.log k t → ∃ q, w.taskQueues.find? k = some q ∧ q.currentTask = some t) :
    (inFlightTasks w.log).length = w.taskQueues.count TaskQueue.busy := by
  rw [← HashTable.length_keysWhere, ← List.length_map (f := Prod.fst)]
  have hnd : ((inFlightTasks w.log).map Prod.fst).Nodup := by
    refine hI.inFlightTasks_nodup.map_on fun x hx y hy hxy => ?_
    obtain ⟨k, t⟩ := x
    obtain ⟨k', t'⟩ := y
    obtain rfl : k = k' := hxy
    rw [hI.one_inFlight (List.prefix_refl _) (mem_inFlightTasks.mp hx) (mem_inFlightTasks.mp hy)]
  refine ((List.perm_ext_iff_of_nodup hnd (HashTable.keysWhere_nodup _ _)).mpr fun k => ?_).length_eq
  rw [HashTable.mem_keysWhere, List.mem_map]
  constructor
  · rintro ⟨⟨k', t⟩, hm, rfl⟩
    obtain ⟨q, hq, hc⟩ := h _ _ (mem_inFlightTasks.mp hm)
    simp [hq, TaskQueue.busy, hc]
  · intro hk
    obtain ⟨q, hq, hb⟩ := (Option.any_eq_true _ _).mp hk
    obtain ⟨t, hc⟩ := Option.isSome_iff_exists.mp hb
    exact ⟨(k, t), mem_inFlightTasks.mpr (hI.inFlight hq hc), rfl⟩

/-! ## The events of single steps -/

/-- The step cancels queues. -/
def Op.cancels : Op → Bool
  | .cancelQueue _ _ | .removeQueuesForSource _ _ | .removeQueuesForSink _ _ | .setQuitting _ => true
  | _ => false

/-- The request cancels the queue. -/
def Request.cancels : Request → Bool
  | .cancel _ | .remove _ | .quitCancel _ => true
  | _ => false

theorem cancelCb_notMem_freeCalls {u : Gpointer} : Event.cancelCb k t u ∉ freeCalls k q := by
  unfold freeCalls
  cases q.taskQueueFinallyCb <;> simp

theorem cancelCb_notMem_completed {t' : TaskAtom} {u : Gpointer} :
    Event.cancelCb k t u ∉ [.completed k t'] ++ q.deleteCurrent k := by
  unfold TaskQueue.deleteCurrent
  cases q.currentTask <;> simp

theorem serve_cancels {r : Request} {o : Option TaskQueue} {es : List Event} {u : Gpointer}
    (hs : q.serve k r = .ok (o, es)) (he : .cancelCb k t u ∈ es) : r.cancels = true := by
  cases answered_of_serve hs with
  | gone h =>
    cases h with
    | start _ _ _ | drop => exact absurd he cancelCb_notMem_freeCalls
    | removeMarked _ _ _ | left _ _ => rfl
    | drained _ hreq => rcases hreq with ⟨sync, rfl⟩ | ⟨⟨sync, rfl | rfl⟩, -⟩ <;> rfl
    | completed _ _ hreq => rcases hreq with rfl | ⟨rfl, -⟩ <;> rfl
    | complete _ | lastComplete =>
      rcases List.mem_append.mp he with he | he
      · exact absurd he cancelCb_notMem_completed
      · exact absurd he cancelCb_notMem_freeCalls
  | kept h =>
    cases h with
    | cancelMarked _ | cancelIdle _ _ | cancelRunning _ _ | cancelCompleted _ _ _ _ _
    | removeDeferred _ | removeMarked _ _ | removeRunning _ _ => rfl
    | start | startWaiting _ _ _ | addTask _ | addTaskStart _ _ _ | dispatch _ | setFinally
    | setUserData => simp at he
    | complete _ _ _ | completeNext _ _ => exact absurd he cancelCb_notMem_completed

theorem effect_cancels {op : Op} {r : Request} (he : effect w op k = some r)
    (hr : r.cancels = true) : op.cancels = true := by
  cases asked_of_effect he with
  | cancel _ _ | cancelLast _ _ | removeForSource _ | removeForSink _ | reached _ _ _ => rfl
  | addQueue _ | addTask _ | start | cancelOther _ _ _ | passed _ _ | complete _ _
  | completeLast _ _ | completeOther _ _ _ | setFinally _ | setUserData _ | dispatch => cases hr

/-- Only a step that cancels queues makes cancel callbacks. -/
theorem cancel_step {op : Op} {es : List Event} {u : Gpointer} (hI : Inv w) (hg : Guard w op)
    (hs : step w op = .ok w') (hl : w'.log = w.log ++ es) (he : .cancelCb k t u ∈ es) :
    op.cancels = true := by
  rcases step_events hI hg hs hl k with ⟨-, h⟩ | ⟨q, r, o, -, her, hsv⟩
  · simpa using h _ he rfl
  · exact effect_cancels her
      (serve_cancels hsv (List.mem_filter.mpr ⟨he, by simp [Event.key]⟩))

theorem completed_step {es : List Event} (hs : step w (.taskCompleted k t) = .ok w')
    (hl : w'.log = w.log ++ es) : .completed k t ∈ es := by
  obtain ⟨es', hl'⟩ := extends_taskCompleted hs
  rw [World.emit_log, hl, List.append_assoc] at hl'
  rw [← List.append_cancel_left hl']
  simp

theorem addTask_step (hs : step w (.addTask k t) = .ok w') : w'.log = w.log ++ [.addTask k t] := by
  simp only [step, dleynaTaskQueueAddTask] at hs
  split at hs
  · simp at hs
  · obtain rfl := Except.ok.inj hs
    split
    · rfl
    · split <;> rfl

theorem dispatch_step (hs : step w (.dispatch k) = .ok w') : ∃ q t,
    w.taskQueues.find? k = some q ∧ w'.log = w.log ++ [.processCb k t q.userData] ∧
      (w'.taskQueues.find? k).bind TaskQueue.currentTask = some t := by
  simp only [step, dispatchProcessTask, prvProcessTask] at hs
  split at hs
  · simp at hs
  · next q hq =>
    split at hs
    · simp at hs
    · next t ts ht =>
      obtain rfl := Except.ok.inj hs
      refine ⟨q, t, hq, rfl, ?_⟩
      simp [World.find?_setQueue, hq]

/-- A registered queue can be cancelled. -/
theorem cancelQueue_registered (hq : w.taskQueues.find? k = some q) (sync : TaskAtom → Bool) :
    ∃ w', step w (.cancelQueue k sync) = .ok w' := prvCancel_registered hq sync

/-- Cancelling a cancelled queue does nothing. -/
theorem cancelQueue_cancelled (hc : w.isCancelled k = true) (sync : TaskAtom → Bool) :
    step w (.cancelQueue k sync) = .ok w := by
  unfold World.isCancelled at hc
  split at hc
  · next q hq => simp [step, dleynaTaskProcessorCancelQueue, prvCancel, prvCancelOnly, hq, hc]
  · simp at hc

/-- After a dispatch one more task is in flight. -/
theorem inFlight_dispatched {u : Gpointer} (hI : Inv w) (hI' : Inv w')
    (hl : w'.log = w.log ++ [.processCb k t u]) : ¬ InFlight w.log k t ∧
      ∀ k' t', InFlight w'.log k' t' ↔ InFlight w.log k' t' ∨ k' = k ∧ t' = t := by
  have hp : ∀ k', processedTasks k' w'.log =
      processedTasks k' w.log ++ if k' = k then [t] else [] := by
    intro k'
    rw [hl, processedTasks_append]
    by_cases hk : k = k'
    · simp [processedTasks, jobEvents, jobEvent, hk]
    · simp [processedTasks, jobEvents, jobEvent, hk, Ne.symm hk]
  have hc : ∀ k', completedTasks k' w'.log = completedTasks k' w.log := by
    intro k'
    rw [hl, completedTasks_append]
    by_cases hk : k = k' <;> simp [completedTasks, jobEvents, jobEvent, hk, List.filterMap_cons]
  have hfresh : t ∉ processedTasks k w.log := by
    have hnd := hI'.processed_nodup k
    rw [hp, if_pos rfl, List.nodup_append] at hnd
    exact fun hm => hnd.2.2 t hm t (by simp) rfl
  refine ⟨fun hf => hfresh hf.1, fun k' t' => ?_⟩
  rw [InFlight, hp, hc, List.mem_append, or_and_right]
  refine or_congr Iff.rfl ⟨fun h => ?_, ?_⟩
  · have hm := h.1
    split at hm
    · next hk => exact ⟨hk, by simpa using hm⟩
    · simp at hm
  · rintro ⟨rfl, rfl⟩
    refine ⟨by simp, fun hm => hfresh ?_⟩
    obtain ⟨r, hr⟩ := hI.one_running (k := k') (List.prefix_refl w.log)
    rw [hr]
    exact List.mem_append_left _ hm

end DleynaCore
