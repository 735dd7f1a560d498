import DleynaCore.TaskProcessor.Proofs.RemoveQueuesProofs

/-!
# Bulk removals in either order

A bulk removal answers for each queue that it is interested in, and leaves the others alone. A queue that
has been visited once is gone or waits for its running task, and a second visit does nothing.
-/

namespace DleynaCore

variable {w w' w1 w2 v1 v2 : World} {k : TaskQueueKey} {q : TaskQueue} {ops : List Op}
  {hit hit' : TaskQueueKey → Bool} {sync sync' : TaskAtom → Bool} {v v' v'' : QueueView}
  {taskQueues : TaskQueues}

/-! ## One queue -/

/-- What a queue answers does not depend on which tasks would complete in their cancel callbacks: if
one did, the removal would have used freed memory. -/
theorem serve_remove_sync {a a' : Option TaskQueue × List Event}
    (h : q.serve k (.remove sync) = .ok a) (h' : q.serve k (.remove sync') = .ok a') : a = a' := by
  simp only [TaskQueue.serve] at h h'
  by_cases hd : q.deferRemove = true
  · rw [if_pos hd] at h h'
    exact Except.ok.inj (h.symm.trans h')
  · rw [if_neg hd] at h h'
    cases hcur : q.currentTask with
    | none =>
      simp only [hcur] at h h'
      exact Except.ok.inj (h.symm.trans h')
    | some t =>
      simp only [hcur] at h h'
      by_cases hcan : q.cancelled = true
      · rw [if_pos hcan] at h h'
        exact Except.ok.inj (h.symm.trans h')
      · rw [if_neg hcan] at h h'
        split at h
        · cases h
        · split at h'
          · cases h'
          · exact Except.ok.inj (h.symm.trans h')

theorem view_remove_sync (h : v.serve k (.remove sync) = .ok v')
    (h' : v.serve k (.remove sync') = .ok v'') : v' = v'' := by
  unfold QueueView.serve at h h'
  cases hq : v.queue with
  | none =>
    simp only [hq] at h h'
    exact Except.ok.inj (h.symm.trans h')
  | some q =>
    simp only [hq] at h h'
    cases hs : q.serve k (.remove sync) with
    | error fault =>
      rw [hs] at h
      cases h
    | ok a =>
      cases hs' : q.serve k (.remove sync') with
      | error fault =>
        rw [hs'] at h'
        cases h'
      | ok a' =>
        obtain rfl := serve_remove_sync hs hs'
        rw [hs] at h
        rw [hs'] at h'
        exact Except.ok.inj (h.symm.trans h')

/-- Every registered queue that is hit waits for its running task. -/
def AllDeferred (hit : TaskQueueKey → Bool) (w : World) : Prop :=
  ∀ k q, hit k = true → w.taskQueues.find? k = some q → q.deferRemove = true

/-- A queue that waits for its running task, or is not there, answers nothing. -/
theorem serve_remove_deferred (hS : SourcesOk w) (hd : AllDeferred hit w) (hk : hit k = true)
    (sync : TaskAtom → Bool) : (w.view k).serve k (.remove sync) = .ok (w.view k) := by
  cases hq : w.taskQueues.find? k with
  | none => simp [view_of_find?_none hq, QueueView.serve]
  | some q =>
    have hsv : q.shape.serve k (.remove sync) = .ok (some q.shape, []) :=
      if_pos (hd k q hk hq)
    rw [serve_eq hS hq hsv, put_some hS hq, view_of_find? hS hq, List.append_nil]

/-! ## One removal -/

/-- A bulk removal of the queues that are hit, the table being traversed in some order. -/
def Removes (hit : TaskQueueKey → Bool) (w w' : World) : Prop :=
  ∃ (taskQueues : TaskQueues) (sync : TaskAtom → Bool), taskQueues.entries.Perm w.taskQueues.entries ∧
    gHashTableForeachRemove (prvFreeQueueFor hit sync) taskQueues.keys
      { w with taskQueues := taskQueues } = .ok w'

theorem removes_of_source {source : String} (h : RemovesForSource source w w') :
    Removes (fun k => source == k.source) w w' := h

theorem removes_of_sink {sink : String} (h : RemovesForSink sink w w') :
    Removes (fun k => sink == k.sink) w w' := h

/-- Another order of traversal is not seen from a queue. -/
theorem unchanged_rehash (hp : taskQueues.entries.Perm w.taskQueues.entries) (k : TaskQueueKey) :
    Unchanged k w { w with taskQueues := taskQueues } :=
  ⟨HashTable.find?_perm hp k, rfl, rfl⟩

theorem Unchanged.view (h : Unchanged k w w') : w'.view k = w.view k :=
  view_congr h.queue h.pending h.log

/-- What a bulk removal does: the queues that are hit answer, and the others are unchanged. -/
structure Removed (hit : TaskQueueKey → Bool) (w w' : World) : Prop where
  inv : Inv w'
  hits : ∀ k, hit k = true → ∃ sync, (w.view k).serve k (.remove sync) = .ok (w'.view k)
  others : ∀ k, hit k = false → Unchanged k w w'
  running : w'.runningTasks = w.runningTasks
  quit : w'.quitView = w.quitView

theorem inv_rehash (hI : Inv w) (hp : taskQueues.entries.Perm w.taskQueues.entries) :
    Inv { w with taskQueues := taskQueues } := by
  have hg : Guard w (.rehash taskQueues) := hp
  exact hI.step hg rfl

theorem removed_of_removes (hI : Inv w) (h : Removes hit w w') : Removed hit w w' := by
  obtain ⟨taskQueues, sync, hp, hw⟩ := h
  have hI0 := inv_rehash hI hp
  obtain ⟨hS, hrun, hquit, hview⟩ := removeQueues_view taskQueues.keys_nodup hI0.sources hw
  have hview0 : ∀ k, World.view { w with taskQueues := taskQueues } k = w.view k := by
    intro k
    exact (unchanged_rehash hp k).view
  constructor
  case inv =>
    refine ⟨hS, fun k => serve_ok (hI0.queues k) ?_ (hview k)⟩
    intro r hr
    split at hr
    · cases hr
      trivial
    · cases hr
  case hits =>
    intro k hk
    refine ⟨sync, ?_⟩
    by_cases hmem : k ∈ taskQueues.keys
    · have hserve := hview k
      rwa [if_pos ⟨hmem, hk⟩, hview0] at hserve
    · -- the traversal does not find the queue
      have hsame := hview k
      rw [if_neg (fun hc => hmem hc.1), hview0] at hsame
      have hnone : w.taskQueues.find? k = none := by
        rw [← HashTable.find?_perm hp k]
        exact HashTable.find?_eq_none.mpr hmem
      rw [← Except.ok.inj hsame, view_of_find?_none hnone]
      rfl
  case others =>
    intro k hk
    exact (unchanged_rehash hp k).trans (unchanged_removeQueues hI0.sources hw hk)
  case running => exact hrun
  case quit => exact hquit

/-- The queues that are hit and stay wait for their running tasks. -/
theorem Removed.deferred (h : Removed hit w w') (hI : Inv w) : AllDeferred hit w' := by
  intro k q' hk hq'
  obtain ⟨sync, hserve⟩ := h.hits k hk
  have hview' := view_of_find? h.inv.sources hq'
  cases hq : w.taskQueues.find? k with
  | none =>
    have hsame : (w.view k).serve k (.remove sync) = .ok (w.view k) := by
      rw [view_of_find?_none hq]
      rfl
    have heq := Except.ok.inj (hsame.symm.trans hserve)
    rw [hview', view_of_find?_none hq] at heq
    cases heq
  | some q =>
    have hvq : (w.view k).queue = some q.shape := by simp [World.view, hq]
    cases serve_removed hvq (hI.queueOk hq) hserve with
    | gone _ hnone _ =>
      rw [hview'] at hnone
      cases hnone
    | kept _ hkept _ hd _ =>
      rw [hview'] at hkept
      cases hkept
      exact hd

/-! ## Nothing is left to do -/

/-- A traversal over queues that are not hit, or wait for their running tasks, does nothing. -/
theorem foreachRemove_deferred (hd : AllDeferred hit w) (sync : TaskAtom → Bool)
    {ks : List TaskQueueKey} (hks : ∀ k ∈ ks, k ∈ w.taskQueues.keys) :
    gHashTableForeachRemove (prvFreeQueueFor hit sync) ks w = .ok w := by
  induction ks with
  | nil => rfl
  | cons k ks ih =>
    obtain ⟨hk, hks⟩ := List.forall_mem_cons.mp hks
    obtain ⟨q, hq⟩ := HashTable.mem_keys.mp hk
    have hvisit : prvFreeQueueFor hit sync w k = .ok (false, w) := by
      have hcond : ¬ (hit k && !q.deferRemove) = true := by
        cases hh : hit k with
        | false => simp
        | true => simp [hd k q hh hq]
      simp only [prvFreeQueueFor, hq]
      rw [if_neg hcond]
    rw [gHashTableForeachRemove, hvisit]
    simp only [ne_eq, not_true, if_false]
    exact ih hks

theorem removes_again (hd : AllDeferred hit w') (hp : taskQueues.entries.Perm w'.taskQueues.entries)
    (sync : TaskAtom → Bool) :
    gHashTableForeachRemove (prvFreeQueueFor hit sync) taskQueues.keys
      { w' with taskQueues := taskQueues } = .ok { w' with taskQueues := taskQueues } := by
  refine foreachRemove_deferred ?_ sync fun k hk => hk
  intro k q hk hq
  exact hd k q hk ((HashTable.find?_perm hp k).symm.trans hq)

/-! ## Two removals -/

/-- A second removal, for which a queue may be hit too, leaves it as the first has left it. -/
theorem Removed.view_again (h : Removed hit w w1) (h' : Removed hit' w1 w2) (hI : Inv w) (hk : hit k = true) :
    w2.view k = w1.view k := by
  cases hk' : hit' k with
  | false => exact (h'.others k hk').view
  | true =>
    obtain ⟨sync', hserve⟩ := h'.hits k hk'
    exact view_remove_sync hserve (serve_remove_deferred h.inv.sources (h.deferred hI) hk sync')

/-- What is seen of a queue after removals in both orders. -/
theorem view_both (hI : Inv w) (h1 : Removed hit w w1) (h2 : Removed hit' w1 w2)
    (h3 : Removed hit' w v1) (h4 : Removed hit v1 v2) (k : TaskQueueKey) : w2.view k = v2.view k := by
  cases hk : hit k with
  | true =>
    obtain ⟨sync, hserve⟩ := h1.hits k hk
    rw [h1.view_again h2 hI hk]
    cases hk' : hit' k with
    | true =>
      obtain ⟨sync', hserve'⟩ := h3.hits k hk'
      rw [h3.view_again h4 hI hk']
      exact view_remove_sync hserve hserve'
    | false =>
      obtain ⟨sync', hserve'⟩ := h4.hits k hk
      rw [(h3.others k hk').view] at hserve'
      exact view_remove_sync hserve hserve'
  | false =>
    rw [(h4.others k hk).view]
    cases hk' : hit' k with
    | true =>
      obtain ⟨sync, hserve⟩ := h2.hits k hk'
      obtain ⟨sync', hserve'⟩ := h3.hits k hk'
      rw [(h1.others k hk).view] at hserve
      exact view_remove_sync hserve hserve'
    | false => rw [(h2.others k hk').view, (h1.others k hk).view, (h3.others k hk').view]

/-- A queue that waits for its running task has no pending dispatch, so its record is what is seen. -/
theorem shape_of_deferred (hI : Inv w) (hq : w.taskQueues.find? k = some q) (hd : q.deferRemove = true) :
    q.shape = q := by
  have hok := hI.queueOk hq
  have hid : q.shape.idleId = 0 := by
    by_contra hne
    exact (hok.deferred hd).1 (hok.idle hne).1
  have hzero : q.idleId = 0 := by
    by_contra hne
    simp [TaskQueue.shape, hne] at hid
  rw [TaskQueue.shape, hzero]
  simp [← hzero]

theorem find?_of_deferred (hI : Inv w) (hI' : Inv w') (hview : w'.view k = w.view k)
    (hd : ∀ q, w.taskQueues.find? k = some q → q.deferRemove = true) :
    w'.taskQueues.find? k = w.taskQueues.find? k := by
  have hqueue : (w'.taskQueues.find? k).map TaskQueue.shape = (w.taskQueues.find? k).map TaskQueue.shape :=
    congrArg QueueView.queue hview
  cases hq : w.taskQueues.find? k with
  | none => simpa [hq] using hqueue
  | some q =>
    rw [hq, Option.map_some] at hqueue
    obtain ⟨q', hq', hshape⟩ := Option.map_eq_some_iff.mp hqueue
    have hd' : q'.deferRemove = true := (congrArg TaskQueue.deferRemove hshape).trans (hd q hq)
    rw [shape_of_deferred hI' hq' hd', shape_of_deferred hI hq (hd q hq)] at hshape
    rw [hq', hshape]

/-- Histories with the same events about every queue, and about none, have the same events. -/
theorem log_perm (hlog : ∀ k, w'.logOf k = w.logOf k) (hquit : w'.quitView = w.quitView) :
    w'.log.Perm w.log := by
  refine List.perm_iff_count.mpr fun e => ?_
  cases he : e.key with
  | none =>
    have hcount : ∀ l : List Event, (l.filter fun e => e.key = none).count e = l.count e :=
      fun _ => List.count_filter (decide_eq_true he)
    rw [← hcount w'.log, ← hcount w.log]
    exact congrArg (List.count e) (congrArg QuitView.log hquit)
  | some k =>
    have hcount : ∀ l : List Event, (l.filter fun e => e.key = some k).count e = l.count e :=
      fun _ => List.count_filter (decide_eq_true he)
    rw [← hcount w'.log, ← hcount w.log]
    exact congrArg (List.count e) (hlog k)

theorem Removed.deferred_twice (h : Removed hit w w1) (h' : Removed hit' w1 w2) (hI : Inv w)
    (hk : hit k = true ∨ hit' k = true) : ∀ q, w2.taskQueues.find? k = some q → q.deferRemove = true := by
  intro q hq
  cases hk' : hit' k with
  | true => exact h'.deferred h.inv k q hk' hq
  | false =>
    have hk : hit k = true := hk.resolve_right (by simp [hk'])
    rw [(h'.others k hk').queue] at hq
    exact h.deferred hI k q hk hq

/-- Two bulk removals have the same outcome in both orders. -/
theorem sameOutcome_both (hI : Inv w) (h1 : Removed hit w w1) (h2 : Removed hit' w1 w2)
    (h3 : Removed hit' w v1) (h4 : Removed hit v1 v2) : SameOutcome w2 v2 where
  queues k := by
    by_cases hk : hit k = true ∨ hit' k = true
    · exact find?_of_deferred h2.inv h4.inv (view_both hI h1 h2 h3 h4 k).symm
        (h1.deferred_twice h2 hI hk)
    · obtain ⟨hk1, hk2⟩ := not_or.mp hk
      rw [Bool.not_eq_true] at hk1 hk2
      have hleft := (h1.others k hk1).trans (h2.others k hk2)
      have hright := (h3.others k hk2).trans (h4.others k hk1)
      rw [hright.queue, hleft.queue]
  pending k := congrArg QueueView.pending (view_both hI h1 h2 h3 h4 k).symm
  running := by rw [h4.running, h3.running, h2.running, h1.running]
  log := by
    refine log_perm (fun k => congrArg QueueView.log (view_both hI h1 h2 h3 h4 k).symm) ?_
    rw [h4.quit, h3.quit, h2.quit, h1.quit]

/-- Removing the queues of a source and those of a sink, in either order and with any traversals, has one
outcome, and doing either again does nothing. -/
theorem removalsCommute (h : processor.Run Any ops w) (source sink : String) :
    RemovalsCommute source sink w := by
  have hI := inv_run h
  constructor
  case commute =>
    intro w1 w2 v1 v2 h1 h2 h3 h4
    have hr1 := removed_of_removes hI (removes_of_source h1)
    have hr2 := removed_of_removes hr1.inv (removes_of_sink h2)
    have hr3 := removed_of_removes hI (removes_of_sink h3)
    have hr4 := removed_of_removes hr3.inv (removes_of_source h4)
    exact sameOutcome_both hI hr1 hr2 hr3 hr4
  case sourceTwice =>
    intro w1 h1 taskQueues sync hp
    exact removes_again ((removed_of_removes hI (removes_of_source h1)).deferred hI) hp sync
  case sinkTwice =>
    intro w1 h1 taskQueues sync hp
    exact removes_again ((removed_of_removes hI (removes_of_sink h1)).deferred hI) hp sync

/-- Of two queues of one source, the second is removed for its sink too. -/
theorem removalsCommute_twoQueues :
    RemovalsCommute "a" "c" (processor.final Any twoQueues) ∧
      (∃ w1 w2, RemovesForSource "a" (processor.final Any twoQueues) w1 ∧ RemovesForSink "c" w1 w2) ∧
      ∃ v1 v2, RemovesForSink "c" (processor.final Any twoQueues) v1 ∧ RemovesForSource "a" v1 v2 :=
  ⟨removalsCommute (System.run_final (by decide)) "a" "c",
    ⟨_, _, ⟨_, fun _ => false, .refl _, rfl⟩, _, fun _ => false, .refl _, rfl⟩,
    _, _, ⟨_, fun _ => false, .refl _, rfl⟩, _, fun _ => false, .refl _, rfl⟩

end DleynaCore
