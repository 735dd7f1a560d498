import DleynaCore.TaskProcessor.Properties
import DleynaCore.TaskProcessor.Proofs.LogProofs

/-!
# Queues do not interfere

All queues share one table, one counter and one main loop. As long as the processor does not quit,
what a step does to a queue depends on nothing but what is seen from that queue, so the steps that
are addressed to other queues can be taken out of a run.
-/

namespace DleynaCore

variable {w w' : World} {k : TaskQueueKey} {q : TaskQueue} {ops : List Op}

/-! ## A step that a queue can answer does not fault -/

/-- The request is for a registered queue. -/
def Request.needsQueue : Request → Bool
  | .addQueue _ | .remove _ | .quitCancel _ | .drop => false
  | _ => true

theorem find?_of_serve {r : Request} {v : QueueView} (hr : r.needsQueue = true)
    (hs : (w.view k).serve k r = .ok v) :
    ∃ q, w.taskQueues.find? k = some q ∧ ∃ a, q.shape.serve k r = .ok a := by
  cases hq : w.taskQueues.find? k with
  | none =>
    rw [view_of_find?_none hq] at hs
    cases r <;> simp_all [QueueView.serve, Request.needsQueue]
  | some q =>
    exact ⟨q, rfl, serve_of_view hq hs⟩

/-- No queue but `k` is registered. -/
def OnlyQueue (k : TaskQueueKey) (w : World) : Prop := ∀ k', k' ≠ k → w.taskQueues.find? k' = none

theorem OnlyQueue.keys (h : OnlyQueue k w) : w.taskQueues.keys = [] ∨ w.taskQueues.keys = [k] := by
  have hk : ∀ k' ∈ w.taskQueues.keys, k' = k := fun k' hk' => by
    by_contra hne
    exact HashTable.find?_eq_none.mp (h k' hne) hk'
  have hnd := w.taskQueues.keys_nodup
  cases hks : w.taskQueues.keys with
  | nil => exact Or.inl rfl
  | cons k0 ks =>
    rw [hks] at hk hnd
    obtain rfl : k0 = k := hk k0 (by simp)
    cases ks with
    | nil => exact Or.inr rfl
    | cons k1 ks =>
      obtain rfl : k1 = k0 := hk k1 (by simp)
      simp at hnd

/-- A bulk removal does not fault when the only queue can answer it. -/
theorem removeOnlyQueue_ok {hit : TaskQueueKey → Bool} {sync : TaskAtom → Bool} {v : QueueView}
    (hS : SourcesOk w) (ho : OnlyQueue k w)
    (hs : (w.view k).serve k (.remove sync) = .ok v) :
    ∃ w', gHashTableForeachRemove (prvFreeQueueFor hit sync) w.taskQueues.keys w = .ok w' := by
  refine removeQueues_ok w.taskQueues.entries (HashTable.keys_nodup _) hS (fun e he => ?_)
    fun e he _ => ?_
  · simp [World.view, HashTable.find?_eq_some.mpr he]
  · have hq := HashTable.find?_eq_some.mpr he
    obtain rfl : e.1 = k := by
      by_contra hne
      simp [ho e.1 hne] at hq
    exact serve_of_view hq hs

/-- A step addressed to the only queue does not fault when the queue can answer it. -/
theorem step_ok {op : Op} {v : QueueView} (hS : SourcesOk w) (hqt : w.quitting = false)
    (ho : OnlyQueue k w) (ha : addressedTo k op = true)
    (hs : (w.view k).serve? k (effect w op k) = .ok v) : ∃ w', step w op = .ok w' := by
  have hl : w.lastTask = false := by simp [World.lastTask, hqt]
  cases op with
  | addQueue key flags => exact ⟨_, rfl⟩
  | addTask queueId task =>
    obtain rfl : queueId = k := by simpa [addressedTo] using ha
    simp only [effect, if_true, QueueView.serve?] at hs
    obtain ⟨q, hq, -⟩ := find?_of_serve rfl hs
    simp only [step, dleynaTaskQueueAddTask, hq]
    exact ⟨_, rfl⟩
  | start queueId =>
    obtain rfl : queueId = k := by simpa [addressedTo] using ha
    simp only [effect, if_true, QueueView.serve?] at hs
    obtain ⟨q, hq, -⟩ := find?_of_serve rfl hs
    simp only [step, dleynaTaskQueueStart, hq]
    exact ⟨_, rfl⟩
  | cancelQueue queueId sync =>
    obtain rfl : queueId = k := by simpa [addressedTo] using ha
    simp only [effect, hl, Bool.false_and, Bool.false_eq_true, if_false, if_true,
      QueueView.serve?] at hs
    obtain ⟨q, hq, -⟩ := find?_of_serve rfl hs
    exact prvCancel_registered hq sync
  | removeQueuesForSource source sync =>
    obtain rfl : source = k.source := by simpa [addressedTo] using ha
    simp only [effect, if_true, QueueView.serve?] at hs
    exact removeOnlyQueue_ok hS ho hs
  | removeQueuesForSink sink sync =>
    obtain rfl : sink = k.sink := by simpa [addressedTo] using ha
    simp only [effect, if_true, QueueView.serve?] at hs
    exact removeOnlyQueue_ok hS ho hs
  | taskCompleted queueId task =>
    obtain rfl : queueId = k := by simpa [addressedTo] using ha
    simp only [effect, hl, Bool.false_eq_true, if_false, if_true, QueueView.serve?] at hs
    obtain ⟨q, hq, -⟩ := find?_of_serve rfl hs
    have hq' : (w.emit [.completed queueId task]).taskQueues.find? queueId = some q := hq
    exact taskCompleted_registered hq'
  | setFinally queueId finallyCb =>
    obtain rfl : queueId = k := by simpa [addressedTo] using ha
    simp only [effect, if_true, QueueView.serve?] at hs
    obtain ⟨q, hq, -⟩ := find?_of_serve rfl hs
    simp only [step, dleynaTaskQueueSetFinally, hq]
    exact ⟨_, rfl⟩
  | setUserData queueId userData =>
    obtain rfl : queueId = k := by simpa [addressedTo] using ha
    simp only [effect, if_true, QueueView.serve?] at hs
    obtain ⟨q, hq, -⟩ := find?_of_serve rfl hs
    simp only [step, dleynaTaskQueueSetUserData, hq]
    exact ⟨_, rfl⟩
  | dispatch queueId =>
    obtain rfl : queueId = k := by simpa [addressedTo] using ha
    simp only [effect, if_true, QueueView.serve?] at hs
    obtain ⟨q, hq, a, hsv⟩ := find?_of_serve rfl hs
    have hfd : (detach w (.processTask queueId)).taskQueues = w.taskQueues := rfl
    simp only [step, dispatchProcessTask, prvProcessTask, hfd, hq]
    cases ht : q.tasks with
    | nil => simp [TaskQueue.serve, ht] at hsv
    | cons t ts => exact ⟨_, rfl⟩
  | setQuitting sync => simp [addressedTo] at ha
  | dispatchQuit => simp [addressedTo] at ha
  | rehash taskQueues => simp [addressedTo] at ha

/-! ## The requests of a step while the processor does not quit -/

/-- What is asked of a queue depends on the step alone. -/
theorem effect_congr {op : Op} (hw : w.quitting = false) (hw' : w'.quitting = false)
    (hop : NeverQuits w op) : effect w' op k = effect w op k := by
  cases op <;> simp_all [effect, World.lastTask, NeverQuits]

/-- A step addressed to another queue asks nothing. -/
theorem effect_unaddressed {op : Op} (hw : w.quitting = false) (hop : NeverQuits w op)
    (ha : addressedTo k op = false) : effect w op k = none := by
  have hl : w.lastTask = false := by simp [World.lastTask, hw]
  cases he : effect w op k with
  | none => rfl
  | some r =>
    cases asked_of_effect he with
    | reached _ _ _ | passed _ _ => exact hop.elim
    | cancelOther _ _ hlast | completeOther _ _ hlast => simp [hl] at hlast
    | _ => simp [addressedTo] at ha

/-- A step addressed to the queue asks others for nothing but to be removed. -/
theorem effect_other {op : Op} {k' : TaskQueueKey} (hw : w.quitting = false) (hop : NeverQuits w op)
    (ha : addressedTo k op = true) (hk : k' ≠ k) :
    effect w op k' = none ∨ ∃ sync, effect w op k' = some (.remove sync) := by
  have hl : w.lastTask = false := by simp [World.lastTask, hw]
  cases he : effect w op k' with
  | none => exact Or.inl rfl
  | some r =>
    cases asked_of_effect he with
    | removeForSource sync | removeForSink sync => exact Or.inr ⟨sync, rfl⟩
    | reached _ _ _ | passed _ _ => exact hop.elim
    | cancelOther _ _ hlast | completeOther _ _ hlast => simp [hl] at hlast
    | _ =>
      have hself : k' = k := by simpa [addressedTo] using ha
      exact absurd hself hk

/-! ## Two runs -/

/-- The two processors look the same from `k`, neither quits, and in the second there is, and was,
no queue but `k`. -/
structure SameFor (k : TaskQueueKey) (s t : World) : Prop where
  view : t.view k = s.view k
  left : s.quitting = false
  right : t.quitting = false
  only : OnlyQueue k t
  history : ∀ k', k' ≠ k → t.logOf k' = []

/-- The environment may take a step on `k` in the second processor if it may in the first. -/
theorem SameFor.guard {s t : World} {op : Op} (h : SameFor k s t) (ha : addressedTo k op = true)
    (hg : Guard s op) : Guard t op := by
  have hlog : t.logOf k = s.logOf k := congrArg QueueView.log h.view
  cases op with
  | addQueue key flags =>
    obtain rfl : key = k := by simpa [addressedTo] using ha
    obtain ⟨hl, hlg, hsz⟩ := hg
    have hs : s.taskQueues.find? key = none := by
      rw [HashTable.find?_eq_none]
      intro hm
      obtain ⟨e, he, rfl⟩ := List.mem_map.mp hm
      exact HashTable.lookup_eq_none.mp hl (List.mem_map.mpr ⟨e, he, rfl⟩)
    have ht : t.taskQueues.find? key = none := by
      have hq := congrArg QueueView.queue h.view
      simpa [World.view, hs] using hq
    have hks : t.taskQueues.keys = [] := by
      rcases h.only.keys with hks | hks
      · exact hks
      · exact absurd (by simp [hks]) (HashTable.find?_eq_none.mp ht)
    have hnil : t.taskQueues.entries = [] := List.map_eq_nil_iff.mp hks
    refine ⟨by simp [HashTable.lookup, hnil], hlog.trans hlg, ?_⟩
    simp only [HashTable.size, hnil, List.length_nil]
    decide
  | addTask queueId task =>
    obtain rfl : queueId = k := by simpa [addressedTo] using ha
    intro hm
    obtain ⟨e, he, hte⟩ := List.mem_filterMap.mp hm
    cases e with
    | addTask k' t' =>
      obtain rfl : t' = task := by simpa using hte
      by_cases hk : k' = queueId
      · have : Event.addTask k' t' ∈ s.logOf queueId :=
          hlog ▸ List.mem_filter.mpr ⟨he, by simp [Event.key, hk]⟩
        exact hg (List.mem_filterMap.mpr ⟨_, (List.mem_filter.mp this).1, rfl⟩)
      · have : Event.addTask k' t' ∈ t.logOf k' := List.mem_filter.mpr ⟨he, by simp [Event.key]⟩
        simp [h.history k' hk] at this
    | _ => simp at hte
  | taskCompleted queueId task =>
    obtain rfl : queueId = k := by simpa [addressedTo] using ha
    have hg : InFlight s.log queueId task := hg
    rw [← inFlight_logOf, ← hlog, inFlight_logOf] at hg
    exact hg
  | dispatch queueId =>
    obtain rfl : queueId = k := by simpa [addressedTo] using ha
    have hp : (t.pendingOf queueId).length = (s.pendingOf queueId).length :=
      congrArg QueueView.pending h.view
    obtain ⟨⟨id, src⟩, hm, rfl⟩ := List.mem_map.mp hg
    have hpos := List.length_pos_of_mem (mem_pendingOf.mpr hm)
    rw [← hp] at hpos
    obtain ⟨id', hid⟩ := List.exists_mem_of_length_pos hpos
    exact List.mem_map.mpr ⟨_, mem_pendingOf.mp hid, rfl⟩
  | start queueId | cancelQueue queueId sync | removeQueuesForSource source sync
  | removeQueuesForSink sink sync | setFinally queueId finallyCb
  | setUserData queueId userData => trivial
  | setQuitting sync => simp [addressedTo] at ha
  | dispatchQuit => simp [addressedTo] at ha
  | rehash taskQueues => simp [addressedTo] at ha

theorem not_quitting_step {op : Op} (hI : Inv w) (hqt : w.quitting = false) (hg : Guard w op)
    (hop : NeverQuits w op) (hs : step w op = .ok w') : w'.quitting = false := by
  rw [quitting_step hI hg hs fun sync he => by subst he; exact hop]
  exact hqt

/-- A step on another queue is not noticed. -/
theorem SameFor.skip {s s' t : World} {op : Op} (h : SameFor k s t) (hI : Inv s)
    (ha : addressedTo k op = false) (hg : Guard s op) (hop : NeverQuits s op)
    (hs : step s op = .ok s') : SameFor k s' t where
  view := by
    have hv := (hI.simulates hg hs).view k
    rw [effect_unaddressed h.left hop ha] at hv
    exact h.view.trans (Except.ok.inj hv)
  left := not_quitting_step hI h.left hg hop hs
  right := h.right
  only := h.only
  history := h.history

/-- A step on the queue can be taken in both processors. -/
theorem SameFor.step {s s' t : World} {op : Op} (h : SameFor k s t) (hI : Inv s) (hJ : Inv t)
    (ha : addressedTo k op = true) (hg : Guard s op) (hop : NeverQuits s op)
    (hs : step s op = .ok s') : ∃ t', DleynaCore.step t op = .ok t' ∧ SameFor k s' t' := by
  have hgt := h.guard ha hg
  have hopt : NeverQuits t op := by cases op <;> trivial
  have hvs := (hI.simulates hg hs).view k
  rw [← h.view, ← effect_congr h.left h.right hop] at hvs
  obtain ⟨t', ht⟩ := step_ok hJ.sources h.right h.only ha hvs
  have hT := hJ.simulates hgt ht
  have hother : ∀ k', k' ≠ k → t'.view k' = t.view k' := fun k' hk => by
    have hv := hT.view k'
    rcases effect_other h.right hopt ha hk with he | ⟨sync, he⟩
    · rw [he] at hv
      exact (Except.ok.inj hv).symm
    · rw [he, view_of_find?_none (h.only k' hk)] at hv
      rw [view_of_find?_none (h.only k' hk)]
      exact (Except.ok.inj hv).symm
  refine ⟨t', ht, ?_, not_quitting_step hI h.left hg hop hs,
    not_quitting_step hJ h.right hgt hopt ht, fun k' hk => ?_, fun k' hk => ?_⟩
  · exact Except.ok.inj ((hT.view k).symm.trans hvs)
  · have hq := congrArg QueueView.queue (hother k' hk)
    simpa [World.view, h.only k' hk] using hq
  · have hl := congrArg QueueView.log (hother k' hk)
    exact hl.trans (h.history k' hk)

theorem sameFor_new (k : TaskQueueKey) : SameFor k World.new World.new :=
  ⟨rfl, rfl, rfl, fun _ _ => rfl, fun _ _ => rfl⟩

/-- The steps that are not addressed to `k` can be deleted from a run: at its end the record of `k`
and the calls made for it are the same. -/
theorem nonInterference_run (h : processor.Run NeverQuits ops w) (k : TaskQueueKey) :
    ∃ w', processor.Run NeverQuits (ops.filter (addressedTo k)) w' ∧
      (w'.taskQueues.find? k).map TaskQueue.shape = (w.taskQueues.find? k).map TaskQueue.shape ∧
      w'.logOf k = w.logOf k := by
  obtain ⟨w', hrun, hsame⟩ := h.project (R := SameFor k) (addressedTo k) (sameFor_new k)
    (fun _ s t op s' hs _ hR hsel hg hP hst => hR.skip (inv_run hs) hsel hg hP hst)
    (fun _ s t op s' hs ht hR hsel hg hP hst => by
      obtain ⟨t', ht', hR'⟩ := hR.step (inv_run hs) (inv_run ht) hsel hg hP hst
      refine ⟨t', hR.guard hsel hg, ?_, ht', hR'⟩
      cases op <;> trivial)
  exact ⟨w', hrun, congrArg QueueView.queue hsame.view, congrArg QueueView.log hsame.view⟩

/-- Two queues are served in turn, and a bulk removal finds one of them. -/
def interleaved : List Op :=
  [.addQueue ⟨1, "a", "b"⟩ flagAutoStart, .addQueue ⟨2, "c", "b"⟩ 0, .addTask ⟨1, "a", "b"⟩ 7,
    .addTask ⟨2, "c", "b"⟩ 8, .start ⟨2, "c", "b"⟩, .dispatch ⟨2, "c", "b"⟩,
    .dispatch ⟨1, "a", "b"⟩, .removeQueuesForSource "c" (fun _ => false),
    .taskCompleted ⟨1, "a", "b"⟩ 7, .taskCompleted ⟨2, "c", "b"⟩ 8]

theorem nonInterference_interleaved :
    ∃ w', processor.Run NeverQuits (interleaved.filter (addressedTo ⟨1, "a", "b"⟩)) w' ∧
      (w'.taskQueues.find? ⟨1, "a", "b"⟩).map TaskQueue.shape =
        ((processor.final NeverQuits interleaved).taskQueues.find? ⟨1, "a", "b"⟩).map
          TaskQueue.shape ∧
      w'.logOf ⟨1, "a", "b"⟩ = (processor.final NeverQuits interleaved).logOf ⟨1, "a", "b"⟩ :=
  nonInterference_run (System.run_final (by decide)) ⟨1, "a", "b"⟩

end DleynaCore
