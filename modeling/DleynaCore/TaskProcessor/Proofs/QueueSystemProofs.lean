import DleynaCore.Library.Simulation
import DleynaCore.TaskProcessor.Proofs.NonInterferenceProofs
import DleynaCore.TaskProcessor.Proofs.RunningProofs

/-!
# The processor is a collection of queues

Without a shutdown, the runs of the processor as seen from one queue are the runs of that queue on
its own, neither fewer nor more.
-/

namespace DleynaCore

variable {w w' : World} {k : TaskQueueKey} {op : Op} {r : Request} {v : QueueView}

theorem asks_eq (hqt : w.quitting = false) (hop : NeverQuits w op) : op.asks k = effect w op k :=
  effect_congr hqt rfl hop

/-! ## From the processor to the queue -/

theorem outsideShutdown_of_effect (hqt : w.quitting = false) (hop : NeverQuits w op)
    (he : effect w op k = some r) : OutsideShutdown v r := by
  have hl : w.lastTask = false := by simp [World.lastTask, hqt]
  cases asked_of_effect he with
  | start => exact hqt
  | cancelLast _ hc | cancelOther _ _ hc => simp [hl] at hc
  | completeLast _ hc | completeOther _ _ hc => simp [hl] at hc
  | reached _ _ _ | passed _ _ => exact hop.elim
  | _ => trivial

/-- What is seen of the queue goes through the states of the queue on its own. -/
theorem queueSystem_of_processor {ops : List Op} (h : processor.Run NeverQuits ops w)
    (k : TaskQueueKey) : (queueSystem k).Run OutsideShutdown (ops.filterMap (Op.asks k)) (w.view k) := by
  have hsim := h.simulated (T := queueSystem k) (Q := OutsideShutdown) (f := Op.asks k)
    (R := fun w v => v = w.view k ∧ w.quitting = false) ⟨rfl, rfl⟩
  obtain ⟨v, hrun, rfl, -⟩ := hsim
    (by
      rintro as s _ op s' hs ⟨rfl, hqt⟩ hobs hg hop hst
      have hI := inv_run hs
      have hv := (hI.simulates hg hst).view k
      rw [← asks_eq hqt hop, hobs] at hv
      exact ⟨Except.ok.inj hv, not_quitting_step hI hqt hg hop hst⟩)
    (by
      rintro as s _ op r s' hs ⟨rfl, hqt⟩ hobs hg hop hst
      have hI := inv_run hs
      have hv := (hI.simulates hg hst).view k
      rw [asks_eq hqt hop] at hobs
      rw [hobs] at hv
      exact ⟨_, fits_of_guard hg hobs, outsideShutdown_of_effect hqt hop hobs, hv, rfl,
        not_quitting_step hI hqt hg hop hst⟩)
  exact hrun

/-! ## From the queue to the processor -/

/-- Every request is made by a step. -/
theorem exists_op (h : OutsideShutdown v r) (k : TaskQueueKey) :
    ∃ op, op.asks k = some r ∧ addressedTo k op = true ∧ NeverQuits w op := by
  cases r with
  | addQueue flags => exact ⟨.addQueue k flags, by simp [Op.asks, effect], by simp [addressedTo], trivial⟩
  | addTask task => exact ⟨.addTask k task, by simp [Op.asks, effect], by simp [addressedTo], trivial⟩
  | start quitting =>
    obtain rfl : quitting = false := h
    exact ⟨.start k, by simp [Op.asks, effect, World.new], by simp [addressedTo], trivial⟩
  | cancel sync =>
    exact ⟨.cancelQueue k sync, by simp [Op.asks, effect, World.lastTask, World.new],
      by simp [addressedTo], trivial⟩
  | remove sync =>
    exact ⟨.removeQueuesForSource k.source sync, by simp [Op.asks, effect], by simp [addressedTo],
      trivial⟩
  | complete task =>
    exact ⟨.taskCompleted k task, by simp [Op.asks, effect, World.lastTask, World.new],
      by simp [addressedTo], trivial⟩
  | dispatch => exact ⟨.dispatch k, by simp [Op.asks, effect], by simp [addressedTo], trivial⟩
  | setFinally cb => exact ⟨.setFinally k cb, by simp [Op.asks, effect], by simp [addressedTo], trivial⟩
  | setUserData u => exact ⟨.setUserData k u, by simp [Op.asks, effect], by simp [addressedTo], trivial⟩
  | lastComplete _ | quitCancel _ | drop => exact h.elim

/-- Only the queue `k` is, and was, registered; the processor does not quit. -/
abbrev Hosts (k : TaskQueueKey) (w : World) : Prop := SameFor k w w

/-- Tasks were added to no other queue. -/
theorem Hosts.mem_addedTasks (h : Hosts k w) {t : TaskAtom} (ht : t ∈ allAdded w.log) :
    t ∈ addedTasks k (w.logOf k) := by
  obtain ⟨e, he, hte⟩ := List.mem_filterMap.mp ht
  cases e with
  | addTask k' t' =>
    obtain rfl : t' = t := by simpa using hte
    have hm : Event.addTask k' t' ∈ w.logOf k' := List.mem_filter.mpr ⟨he, by simp [Event.key]⟩
    have hk : k' = k := by
      by_contra hne
      simp [h.history k' hne] at hm
    subst hk
    exact List.mem_filterMap.mpr
      ⟨.added t', List.mem_filterMap.mpr ⟨_, hm, by simp [jobEvent]⟩, rfl⟩
  | _ => simp at hte

/-- What a queue on its own is promised, a processor with no other queue is promised. -/
theorem Hosts.guard (h : Hosts k w) (he : effect w op k = some r) (ha : addressedTo k op = true)
    (hf : r.Fits k (w.view k)) (hs : (w.view k).serve k r = .ok v) : Guard w op := by
  have hl : w.lastTask = false := by simp [World.lastTask, h.left]
  cases asked_of_effect he with
  | addQueue flags =>
    have hnone : w.taskQueues.find? k = none := by
      cases hq : w.taskQueues.find? k with
      | none => rfl
      | some q => simp [QueueView.serve, TaskQueue.serve, World.view, hq] at hs
    have hks : w.taskQueues.keys = [] := by
      rcases h.only.keys with hks | hks
      · exact hks
      · exact absurd (by simp [hks]) (HashTable.find?_eq_none.mp hnone)
    have hnil : w.taskQueues.entries = [] := List.map_eq_nil_iff.mp hks
    refine ⟨by simp [HashTable.lookup, hnil], hf, ?_⟩
    simp only [HashTable.size, hnil, List.length_nil]
    decide
  | addTask task =>
    intro hm
    exact hf (h.mem_addedTasks hm)
  | complete task _ => exact inFlight_logOf.mp hf
  | dispatch =>
    obtain ⟨id, hid⟩ := List.exists_mem_of_length_pos (Nat.pos_of_ne_zero hf)
    exact List.mem_map.mpr ⟨_, mem_pendingOf.mp hid, rfl⟩
  | start | cancel _ _ | removeForSource _ | removeForSink _ | setFinally _ | setUserData _ => trivial
  | cancelLast _ hc | cancelOther _ _ hc => simp [hl] at hc
  | completeLast _ hc | completeOther _ _ hc => simp [hl] at hc
  | reached _ _ _ | passed _ _ => simp [addressedTo] at ha

/-- The queue on its own goes through what is seen of it in a processor with no other queue. -/
theorem processor_of_queueSystem {rs : List Request} (h : (queueSystem k).Run OutsideShutdown rs v) :
    ∃ ops w, processor.Run NeverQuits ops w ∧ ops.filterMap (Op.asks k) = rs ∧ w.view k = v := by
  obtain ⟨ops, w, hrun, hobs, rfl, -⟩ :=
    h.realized (S := processor) (P := NeverQuits) (f := Op.asks k)
      (R := fun w v => w.view k = v ∧ Hosts k w) ⟨rfl, sameFor_new k⟩ (by
      rintro ops w _ r v' hw - ⟨rfl, hH⟩ hf hr hs
      obtain ⟨op, hasks, ha, hop⟩ := exists_op (w := w) hr k
      have he := asks_eq (k := k) hH.left hop ▸ hasks
      have hg := hH.guard he ha hf hs
      have hI := inv_run hw
      obtain ⟨w', hst⟩ := step_ok (v := v') hI.sources hH.left hH.only ha (by rw [he]; exact hs)
      obtain ⟨w'', hst', hH'⟩ := SameFor.step hH hI hI ha hg hop hst
      obtain rfl : w' = w'' := Except.ok.inj (hst.symm.trans hst')
      have hv := (hI.simulates hg hst).view k
      rw [he] at hv
      exact ⟨op, w', hasks, hg, hop, hst, Except.ok.inj (hv.symm.trans hs), hH'⟩)
  exact ⟨ops, w, hrun, hobs, rfl⟩

/-- The requests `rs` lead the queue on its own to `v` exactly if there is a run of the processor
that asks them of the queue, whatever it does to the other queues, and shows `v` at its end. -/
theorem queueSystem_iff (k : TaskQueueKey) (rs : List Request) (v : QueueView) :
    (queueSystem k).Run OutsideShutdown rs v ↔
      ∃ ops w, processor.Run NeverQuits ops w ∧ ops.filterMap (Op.asks k) = rs ∧ w.view k = v := by
  constructor
  · exact processor_of_queueSystem
  · rintro ⟨ops, w, h, rfl, rfl⟩
    exact queueSystem_of_processor h k

/-! ## Interleavings -/

theorem inFlight_congr {w w' : World} (h : w.view k = w'.view k) {t : TaskAtom} :
    InFlight w.log k t ↔ InFlight w'.log k t := by
  have hlog : w.logOf k = w'.logOf k := congrArg QueueView.log h
  rw [← inFlight_logOf, ← inFlight_logOf (w := w'), hlog]

/-- The counter of running tasks is known from what is seen of the queues. -/
theorem runningTasks_congr {ops ops' : List Op} {w w' : World} (h : processor.Run NeverQuits ops w)
    (h' : processor.Run NeverQuits ops' w') (hv : ∀ k, w.view k = w'.view k) :
    w.runningTasks = w'.runningTasks := by
  have hperm : (inFlightTasks w.log).Perm (inFlightTasks w'.log) := by
    refine (List.perm_ext_iff_of_nodup (inv_run h).inFlightTasks_nodup
      (inv_run h').inFlightTasks_nodup).mpr ?_
    rintro ⟨k, t⟩
    rw [mem_inFlightTasks, mem_inFlightTasks]
    exact inFlight_congr (hv k)
  rw [(counts_run h).2, (counts_run h').2, hperm.length_eq]

/-- Outside a shutdown it does not matter how the steps for different queues are interleaved: two runs
that ask the same of every queue show the same of every queue, and count the same running tasks. -/
theorem interleavings_agree {ops ops' : List Op} {w w' : World}
    (h : processor.Run NeverQuits ops w) (h' : processor.Run NeverQuits ops' w')
    (hasks : ∀ k, ops.filterMap (Op.asks k) = ops'.filterMap (Op.asks k)) :
    (∀ k, w.view k = w'.view k) ∧ w.runningTasks = w'.runningTasks := by
  have hv : ∀ k, w.view k = w'.view k := by
    intro k
    have hk := queueSystem_of_processor h k
    rw [hasks k] at hk
    exact hk.unique (queueSystem_of_processor h' k)
  exact ⟨hv, runningTasks_congr h h' hv⟩

/-- Two queues that are served one after the other, and in turns. -/
theorem interleavings_inTurns :
    let ops := [.addQueue ⟨1, "a", "b"⟩ flagAutoStart, .addTask ⟨1, "a", "b"⟩ 7, .dispatch ⟨1, "a", "b"⟩,
      .addQueue ⟨2, "c", "b"⟩ flagAutoStart, .addTask ⟨2, "c", "b"⟩ 9, .dispatch ⟨2, "c", "b"⟩,
      .taskCompleted ⟨2, "c", "b"⟩ 9]
    let ops' := [.addQueue ⟨2, "c", "b"⟩ flagAutoStart, .addQueue ⟨1, "a", "b"⟩ flagAutoStart,
      .addTask ⟨2, "c", "b"⟩ 9, .addTask ⟨1, "a", "b"⟩ 7, .dispatch ⟨2, "c", "b"⟩,
      .taskCompleted ⟨2, "c", "b"⟩ 9, .dispatch ⟨1, "a", "b"⟩]
    (∀ k, (processor.final NeverQuits ops).view k = (processor.final NeverQuits ops').view k) ∧
      (processor.final NeverQuits ops).runningTasks = (processor.final NeverQuits ops').runningTasks := by
  intro ops ops'
  refine interleavings_agree (System.run_final (by decide)) (System.run_final (by decide)) fun k => ?_
  by_cases h1 : k = ⟨1, "a", "b"⟩
  · subst h1
    rfl
  · by_cases h2 : k = ⟨2, "c", "b"⟩
    · subst h2
      rfl
    · simp [ops, ops', Op.asks, effect, h1, h2, World.lastTask, World.new]

end DleynaCore
