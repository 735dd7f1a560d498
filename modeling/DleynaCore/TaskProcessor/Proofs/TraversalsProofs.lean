import DleynaCore.TaskProcessor.Proofs.ViewsProofs

/-!
# The traversals of the table

`g_hash_table_foreach_remove` with the two kinds of callbacks: those of the bulk removals, which
never change the table behind the traversal unless they fault, and the one of
`prv_cancel_all_queues`, which may end the traversal early.
-/

namespace DleynaCore

variable {w w' : World} {k : TaskQueueKey} {q : TaskQueue} {sync : TaskAtom → Bool}

/-- The version of the table is not seen. -/
theorem Acts.setVersion {v : QueueView} {n : Nat} (h : Acts w w' k v n) (m : Nat) :
    Acts w { w' with version := m } k v n where
  sources := h.sources.congr rfl rfl (fun _ q' hk => ⟨q', hk, rfl⟩) fun _ hl => hl
  self := h.self
  others := h.others
  running := h.running
  quit := h.quit

/-- A traversal removes the node of the queue. -/
theorem acts_erase (h : SourcesOk w) (hq : w.taskQueues.find? k = some q) :
    Acts w (prvFreeCb { w with taskQueues := w.taskQueues.erase k } k q) k
      ⟨none, q.shape.idleId, w.logOf k ++ freeCalls k q⟩ w.runningTasks := by
  have he : prvFreeCb { w with taskQueues := w.taskQueues.erase k } k q =
      { gHashTableRemove w k with version := w.version } := by
    simp [gHashTableRemove, hq, prvFreeCb, World.emit]
  rw [he]
  exact (acts_gHashTableRemove h hq).setVersion _

/-! ## Bulk removal -/

/-- What a traversal has done with the queue `k` once the callback returned `b`. -/
inductive Visited (w w' : World) (k : TaskQueueKey) (v : QueueView) : Bool → Prop where
  | kept (h : Acts w w' k v w.runningTasks) : Visited w w' k v false
  | removed {q : TaskQueue} (hq : w'.taskQueues.find? k = some q)
      (h : Acts w (prvFreeCb { w' with taskQueues := w'.taskQueues.erase k } k q) k v
        w.runningTasks) : Visited w w' k v true

/-- A queue that is to be removed goes when its running task completes in its cancel callback. -/
theorem gone_of_deferred (hS : SourcesOk w) (hq : w.taskQueues.find? k = some q) {t : TaskAtom}
    (hcur : q.currentTask = some t) (hd : q.deferRemove = true)
    (hw : dleynaTaskQueueTaskCompleted
      ((cancelWaiting w k q).emit [.cancelCb k t q.userData, .completed k t]) k = .ok w') :
    w'.taskQueues.find? k = none := by
  by_cases hl : w.lastTask = true
  · rw [(ends_cancelCompleted hS hq hcur hl hw).table]
    rfl
  · have hv := (acts_cancelCompleted hS hq hcur (by simpa using hl) hw).self
    have hdr : q.drain.deferRemove = true := by simpa [TaskQueue.drain] using hd
    rw [TaskQueue.finish, if_pos hdr] at hv
    have hgone := congrArg QueueView.queue hv
    simpa [World.view, QueueView.put] using hgone

/-- A queue that the callback of a bulk removal is interested in. -/
theorem visited_prvFreeQueueFor_hit {hit : TaskQueueKey → Bool} {b : Bool} (hS : SourcesOk w)
    (hq : w.taskQueues.find? k = some q) (hhit : hit k = true) (hd : q.deferRemove = false)
    (h : prvFreeQueueFor hit sync w k = .ok (b, w')) :
    w'.version = w.version ∧ ∃ v, (w.view k).serve k (.remove sync) = .ok v ∧
      Visited w w' k v b := by
  set q1 : TaskQueue := { q with deferRemove := q.currentTask.isSome } with hq1
  set w1 := w.setQueue k q1 with hw1
  have hA1 : Acts w w1 k _ _ := acts_setQueue hS hq q1 rfl
  have hf1 : w1.taskQueues.find? k = some q1 := World.find?_setQueue_self hq q1
  unfold prvFreeQueueFor at h
  simp only [hq, hhit, hd, Bool.not_false, Bool.and_self, if_true, ← hq1, ← hw1] at h
  unfold prvCancel at h
  cases hc : prvCancelOnly sync w1 k with
  | error fault => simp [hc] at h
  | ok r =>
    obtain ⟨b', w2⟩ := r
    obtain ⟨q2, hq2, hcases⟩ := prvCancelOnly_cases hc
    obtain rfl : q1 = q2 := Option.some.inj (hf1.symm.trans hq2)
    simp only [hc] at h
    rcases hcases with ⟨hcan, rfl, rfl⟩ | ⟨hcan, hcur, rfl, rfl⟩ | ⟨t, hcan, hcur, hs, rfl, rfl⟩ |
      ⟨t, hcan, hcur, hs, rfl, hw2⟩
    · -- already marked as cancelled: only `defer_remove` is looked at
      simp only [hf1, Except.ok.injEq, Prod.mk.injEq] at h
      obtain ⟨rfl, rfl⟩ := h
      refine ⟨rfl, ?_⟩
      cases hcur : q.currentTask with
      | some t =>
        have hsv : q.shape.serve k (.remove sync) =
            .ok (some { q.shape with deferRemove := true }, []) := by
          simp [TaskQueue.serve, hd, hcur, show q.cancelled = true from hcan]
        refine ⟨_, serve_eq hS hq hsv, ?_⟩
        have hb : (!q1.deferRemove) = false := by simp [hq1, hcur]
        rw [hb, put_some hS hq]
        refine .kept (hA1.cast ?_)
        simp [hq1, hcur, TaskQueue.shape]
      | none =>
        have hsv : q.shape.serve k (.remove sync) = .ok (none, freeCalls k q) := by
          simp [TaskQueue.serve, hd, hcur, show q.cancelled = true from hcan]
        refine ⟨_, serve_eq hS hq hsv, ?_⟩
        have hb : (!q1.deferRemove) = true := by simp [hq1, hcur]
        have hqq : q1 = q := by
          cases q
          simp_all
        rw [hb, put_none hS hq]
        refine .removed hf1 ((hA1.trans (acts_erase hA1.sources hf1)).cast ?_)
        simp [hqq, TaskQueue.stops, show q.cancelled = true from hcan, hw1]
    · -- no running task: the queue is drained and goes
      have hauto : q1.autoRemove = false := by
        by_contra ha
        rw [Bool.not_eq_false] at ha
        simp [ha, find?_gHashTableRemove] at h
      have hf2 := find?_cancelWaiting_self hf1
      simp only [hauto, hf2, Except.ok.injEq, Prod.mk.injEq] at h
      obtain ⟨rfl, rfl⟩ := h
      have hsv : q.shape.serve k (.remove sync) =
          .ok (none, cancelAndFreeCalls k q ++ freeCalls k q.drain) := by
        simp [TaskQueue.serve, hd, show q.currentTask = none from hcur,
          show q.cancelled = false from hcan, show q.autoRemove = false from hauto]
      refine ⟨by rw [cancelWaiting_version]; rfl, _, serve_eq hS hq hsv, ?_⟩
      have hA2 := acts_cancelWaiting hA1.sources hf1
      have hb : (!q1.drain.deferRemove) = true := by
        simp [TaskQueue.drain, hq1, show q.currentTask = none from hcur]
      rw [hb, put_none hS hq]
      have hA3 := (hA1.trans hA2).trans (acts_erase hA2.sources hf2)
      refine .removed hf2 ((hA3.ofRunning hA2.running).cast ?_)
      rw [logOf_cancelWaiting, if_pos rfl]
      have hl : w1.logOf k = w.logOf k := rfl
      have hc1 : cancelAndFreeCalls k q1 = cancelAndFreeCalls k q := rfl
      have hc2 : freeCalls k q1.drain = freeCalls k q.drain := rfl
      have hst : q.stops (.remove sync) = true := by
        simp [TaskQueue.stops, show q.cancelled = false from hcan]
      rw [hl, hc1, hc2, if_pos hst, List.append_assoc]
      rfl
    · -- the running task stays, and the queue waits for it
      have hes : OwnedBy k [.cancelCb k t q1.userData] := ownedBy_singleton rfl
      have hf2 : ((cancelWaiting w1 k q1).emit
          [.cancelCb k t q1.userData]).taskQueues.find? k = some q1.drain :=
        find?_cancelWaiting_self hf1
      simp only [hf2, Except.ok.injEq, Prod.mk.injEq] at h
      obtain ⟨rfl, rfl⟩ := h
      have hcur' : q.currentTask = some t := hcur
      have hsv : q.shape.serve k (.remove sync) = .ok (some { q.drain with deferRemove := true },
          cancelAndFreeCalls k q ++ [.cancelCb k t q.userData]) := by
        simp [TaskQueue.serve, hd, hcur', hs, show q.cancelled = false from hcan]
      refine ⟨by simp [hw1], _, serve_eq hS hq hsv, ?_⟩
      have hb : (!q1.drain.deferRemove) = false := by simp [TaskQueue.drain, hq1, hcur']
      rw [hb, put_some hS hq]
      refine .kept ((hA1.trans (acts_cancelRunning hA1.sources hf1 hes)).cast ?_)
      have hl : w1.logOf k = w.logOf k := rfl
      have hc1 : cancelAndFreeCalls k q1 = cancelAndFreeCalls k q := rfl
      have hd1 : q1.drain = { q.drain with deferRemove := true } := by
        simp [TaskQueue.drain, hq1, hcur']
      rw [hl, hc1, hd1]
      rfl
    · -- the running task completes at once, which removes the queue: `defer_remove` is read in freed memory
      have hdr : q1.deferRemove = true := by
        simp [hq1, show q.currentTask = some t from hcur]
      simp [gone_of_deferred hA1.sources hf1 hcur hdr hw2] at h

/-- One visit of a bulk removal. -/
theorem visited_prvFreeQueueFor {hit : TaskQueueKey → Bool} {b : Bool} (hS : SourcesOk w)
    (h : prvFreeQueueFor hit sync w k = .ok (b, w')) :
    w'.version = w.version ∧
      ∃ v, (w.view k).serve? k (if hit k then some (.remove sync) else none) = .ok v ∧
        Visited w w' k v b := by
  cases hq : w.taskQueues.find? k with
  | none => simp [prvFreeQueueFor, hq] at h
  | some q =>
    by_cases hh : hit k = true ∧ q.deferRemove = false
    · rw [if_pos hh.1]
      exact visited_prvFreeQueueFor_hit hS hq hh.1 hh.2 h
    · have hn : (hit k && !q.deferRemove) = false := by
        cases hk : hit k <;> simp_all
      simp only [prvFreeQueueFor, hq, hn, Bool.false_eq_true, if_false, Except.ok.injEq,
        Prod.mk.injEq] at h
      obtain ⟨rfl, rfl⟩ := h
      refine ⟨rfl, w.view k, ?_, .kept (.refl hS k)⟩
      split
      · next hk =>
        have hd : q.deferRemove = true := by simpa [hk] using hh
        have hsv : q.shape.serve k (.remove sync) = .ok (some q.shape, []) := by
          simp [TaskQueue.serve, hd]
        simp only [QueueView.serve?]
        rw [serve_eq hS hq hsv, put_some hS hq, view_of_find? hS hq, List.append_nil]
      · rfl

/-- The first visit of a bulk removal, after which it goes on. -/
theorem foreachRemove_cons {hit : TaskQueueKey → Bool} {b : Bool} {w1 : World}
    (hS : SourcesOk w) (hf : prvFreeQueueFor hit sync w k = .ok (b, w1)) (ks : List TaskQueueKey) :
    ∃ w2 v, (b = false ∧ w2 = w1 ∨ b = true ∧ ∃ q, w1.taskQueues.find? k = some q ∧
        w2 = prvFreeCb { w1 with taskQueues := w1.taskQueues.erase k } k q) ∧
      Acts w w2 k v w.runningTasks ∧
      (w.view k).serve? k (if hit k then some (.remove sync) else none) = .ok v ∧
      gHashTableForeachRemove (prvFreeQueueFor hit sync) (k :: ks) w =
        gHashTableForeachRemove (prvFreeQueueFor hit sync) ks w2 := by
  obtain ⟨hver, v, hv, hvis⟩ := visited_prvFreeQueueFor hS hf
  cases hvis with
  | kept hA =>
    refine ⟨w1, v, Or.inl ⟨rfl, rfl⟩, hA, hv, ?_⟩
    simp [gHashTableForeachRemove, hf, hver]
  | @removed q hq hA =>
    refine ⟨_, v, Or.inr ⟨rfl, q, hq, rfl⟩, hA, hv, ?_⟩
    simp [gHashTableForeachRemove, hf, hq, prvFreeCb, hver]

/-- A bulk removal asks the queues that it is interested in, each once. -/
theorem removeQueues_view {hit : TaskQueueKey → Bool} {ks : List TaskQueueKey} (hnd : ks.Nodup)
    (hS : SourcesOk w) (h : gHashTableForeachRemove (prvFreeQueueFor hit sync) ks w = .ok w') :
    SourcesOk w' ∧ w'.runningTasks = w.runningTasks ∧ w'.quitView = w.quitView ∧
      ∀ k, (w.view k).serve? k (if k ∈ ks ∧ hit k = true then some (.remove sync) else none) =
        .ok (w'.view k) := by
  induction ks generalizing w with
  | nil =>
    obtain rfl : w = w' := by simpa [gHashTableForeachRemove] using h
    exact ⟨hS, rfl, rfl, fun k => by simp [QueueView.serve?]⟩
  | cons k0 ks ih =>
    cases hf : prvFreeQueueFor hit sync w k0 with
    | error fault => simp [gHashTableForeachRemove, hf] at h
    | ok r =>
      obtain ⟨w2, v, -, hA, hv, hgo⟩ := foreachRemove_cons hS hf ks
      obtain ⟨hS', hr', hq', hv'⟩ := ih (List.nodup_cons.mp hnd).2 hA.sources (hgo ▸ h)
      refine ⟨hS', hr'.trans hA.running, hq'.trans hA.quit, fun k => ?_⟩
      by_cases hk : k = k0
      · have := hv' k
        rw [hk, if_neg (fun hc => (List.nodup_cons.mp hnd).1 hc.1), hA.self] at this
        simp only [QueueView.serve?, Except.ok.injEq] at this
        rw [hk, ← this, ← hv]
        simp
      · rw [← hv' k, hA.others k hk]
        simp [hk]

/-! ## Quitting -/

theorem completesOnCancel_shape (q : TaskQueue) :
    q.shape.completesOnCancel sync = q.completesOnCancel sync := rfl

/-- The first visit of the traversal, when it completes no task: the queue is cancelled, and removed
at once or with all others at the end. -/
theorem acts_prvCancelOnly {b : Bool} (hS : SourcesOk w) (hq : w.taskQueues.find? k = some q)
    (hco : q.completesOnCancel sync = false) (h : prvCancelOnly sync w k = .ok (b, w')) :
    w'.version = w.version ∧ ∃ v v', Visited w w' k v b ∧ v.serve k .drop = .ok v' ∧
      (w.view k).serve k (if q.cancelled = false then .quitCancel sync else .drop) = .ok v' := by
  obtain ⟨q', hq', hcases⟩ := prvCancelOnly_cases h
  obtain rfl : q = q' := Option.some.inj (hq.symm.trans hq')
  rcases hcases with ⟨hcan, rfl, rfl⟩ | ⟨hcan, hcur, rfl, rfl⟩ | ⟨t, hcan, hcur, hs, rfl, rfl⟩ |
    ⟨t, hcan, hcur, hs, rfl, -⟩
  · have hd := serve_eq hS hq (r := .drop) rfl
    refine ⟨rfl, _, _, .kept (.refl hS k), hd, ?_⟩
    rw [if_neg (by simp [hcan])]
    exact hd
  · have hA := acts_cancelWaiting hS hq
    have hf := find?_cancelWaiting_self hq
    have hsv : q.shape.serve k (.quitCancel sync) =
        .ok (none, cancelAndFreeCalls k q ++ freeCalls k q.drain) := by
      simp [TaskQueue.serve, hcur]
    have hst : q.stops (.quitCancel sync) = true := by simp [TaskQueue.stops, hcan]
    refine ⟨cancelWaiting_version w k q, ?_⟩
    rw [if_pos hcan, serve_eq hS hq hsv, put_none hS hq, if_pos hst]
    cases ha : q.autoRemove with
    | true =>
      have hR := hA.trans (acts_erase hA.sources hf)
      rw [logOf_cancelWaiting, if_pos rfl] at hR
      refine ⟨_, _, .removed hf (hR.ofRunning hA.running), ?_, rfl⟩
      simp [QueueView.serve, TaskQueue.drain]
    | false =>
      refine ⟨_, _, .kept hA, ?_, rfl⟩
      simp [QueueView.serve, TaskQueue.serve, QueueView.put, TaskQueue.stops]
  · have hA := acts_cancelRunning hS hq (ownedBy_singleton (e := .cancelCb k t q.userData) rfl)
    have hsv : q.shape.serve k (.quitCancel sync) = .ok (none,
        cancelAndFreeCalls k q ++ [.cancelCb k t q.userData] ++ freeCalls k q.drain) := by
      simp [TaskQueue.serve, hcur, hs]
    have hst : q.stops (.quitCancel sync) = true := by simp [TaskQueue.stops, hcan]
    refine ⟨cancelWaiting_version w k q, ?_⟩
    rw [if_pos hcan, serve_eq hS hq hsv, put_none hS hq, if_pos hst]
    refine ⟨_, _, .kept hA, ?_, rfl⟩
    simp [QueueView.serve, TaskQueue.serve, QueueView.put, TaskQueue.stops]
  · simp [TaskQueue.completesOnCancel, hcan, hcur, hs] at hco

theorem isCancelled_of_find? (hq : w.taskQueues.find? k = some q) :
    w.isCancelled k = q.cancelled := by
  simp [World.isCancelled, hq]

theorem isCancelled_congr (h : w'.view k = w.view k) : w'.isCancelled k = w.isCancelled k := by
  have hq := congrArg QueueView.queue h
  unfold World.isCancelled
  cases h1 : w'.taskQueues.find? k <;> cases h2 : w.taskQueues.find? k <;>
    simp [World.view, h1, h2] at hq ⊢
  have hc := congrArg TaskQueue.cancelled hq
  exact hc

/-- A queue whose record is the given one up to its source id. -/
theorem find?_of_view {q0 : TaskQueue} (h : (w.view k).queue = some q0.shape) :
    ∃ q, w.taskQueues.find? k = some q ∧ q.shape = q0.shape := by
  simpa [World.view] using h

/-- The visit of a queue whose running task completes inside its cancel callback. -/
theorem prvCancelOnly_completes {b : Bool} (hq : w.taskQueues.find? k = some q)
    (hco : q.completesOnCancel sync = true) (h : prvCancelOnly sync w k = .ok (b, w')) :
    ∃ t, q.cancelled = false ∧ q.currentTask = some t ∧ sync t = true ∧ b = false ∧
      dleynaTaskQueueTaskCompleted
        ((cancelWaiting w k q).emit [.cancelCb k t q.userData, .completed k t]) k = .ok w' := by
  obtain ⟨q', hq', hcases⟩ := prvCancelOnly_cases h
  obtain rfl : q = q' := Option.some.inj (hq.symm.trans hq')
  rcases hcases with ⟨hcan, -⟩ | ⟨-, hcur, -⟩ | ⟨t, -, hcur, hs, -⟩ | ht
  · simp [TaskQueue.completesOnCancel, hcan] at hco
  · simp [TaskQueue.completesOnCancel, hcur] at hco
  · simp [TaskQueue.completesOnCancel, hcur, hs] at hco
  · exact ht

/-- The visit of a queue whose running task completes inside its cancel callback: the traversal is
abandoned with all queues gone, abandoned with only this queue gone, or it goes on. -/
theorem visited_completes {b : Bool} (hS : SourcesOk w) (hquit : w.quitting = true)
    (hq : w.taskQueues.find? k = some q) (hco : q.completesOnCancel sync = true)
    (h : prvCancelOnly sync w k = .ok (b, w')) :
    b = false ∧ ∃ v, (w.view k).serve k (.quitCancel sync) = .ok v ∧
      ((q.abandons w.runningTasks = true ∧ w'.version ≠ w.version ∧
          ((guintPred w.runningTasks = 0 ∧ Ends w w' k v) ∨
            guintPred w.runningTasks ≠ 0 ∧ Acts w w' k v (guintPred w.runningTasks))) ∨
        q.abandons w.runningTasks = false ∧ w'.version = w.version ∧
          ∃ v', Acts w w' k v' (guintPred w.runningTasks) ∧ v'.serve k .drop = .ok v) := by
  obtain ⟨t, hcan, hcur, hs, rfl, hw⟩ := prvCancelOnly_completes hq hco h
  have hsv : q.shape.serve k (.quitCancel sync) = .ok (none,
      cancelAndFreeCalls k q ++ (q.cancelCompleteCalls k t ++ freeCalls k q.drain)) := by
    simp [TaskQueue.serve, hcur, hs]
  have hst : q.stops (.quitCancel sync) = true := by simp [TaskQueue.stops, hcan]
  refine ⟨rfl, _, serve_eq hS hq hsv, ?_⟩
  rw [hst]
  have hver := version_taskCompleted (w := (cancelWaiting w k q).emit _)
    (find?_cancelWaiting_self hq) hw
  have hlast : w.lastTask = (guintPred w.runningTasks == 0) := by simp [World.lastTask, hquit]
  have hcond : (w.lastTask || q.drain.deferRemove ||
      (decide (q.drain.tasks = []) && q.drain.autoRemove)) = q.abandons w.runningTasks := by
    simp [TaskQueue.abandons, hlast, TaskQueue.drain, TaskQueue.autoRemove]
  simp only [lastTask_emit, lastTask_cancelWaiting, hcond, World.emit_version,
    cancelWaiting_version] at hver
  cases hab : q.abandons w.runningTasks with
  | true =>
    rw [hab, if_pos rfl] at hver
    refine Or.inl ⟨rfl, by omega, ?_⟩
    by_cases hl : guintPred w.runningTasks = 0
    · exact Or.inl ⟨hl, ends_cancelCompleted hS hq hcur (by simp [hlast, hl]) hw⟩
    · have hA := acts_cancelCompleted hS hq hcur (by simp [hlast, hl]) hw
      have hf : q.drain.finish k = (none, freeCalls k q.drain) := by
        have : q.deferRemove = true ∨ q.autoRemove = true := by
          simpa [TaskQueue.abandons, hl] using hab
        unfold TaskQueue.finish
        rcases this with hd | ha
        · rw [if_pos (show q.drain.deferRemove = true from hd)]
        · rw [if_pos (show q.drain.autoRemove = true from ha)]
          simp [TaskQueue.drain]
      rw [hf] at hA
      exact Or.inr ⟨hl, hA⟩
  | false =>
    rw [hab, if_neg (by simp)] at hver
    refine Or.inr ⟨rfl, hver, ?_⟩
    simp only [TaskQueue.abandons, Bool.or_eq_false_iff, beq_eq_false_iff_ne] at hab
    obtain ⟨⟨hl, hd⟩, ha⟩ := hab
    have hA := acts_cancelCompleted hS hq hcur (by simp [hlast, hl]) hw
    have hf : q.drain.finish k = (some { q.drain with currentTask := none }, []) := by
      unfold TaskQueue.finish
      rw [if_neg (by simpa [TaskQueue.drain] using hd), if_neg (by simp [TaskQueue.drain]),
        if_neg (by simpa [TaskQueue.drain, TaskQueue.autoRemove] using ha)]
    rw [hf] at hA
    refine ⟨_, hA, ?_⟩
    simp [QueueView.serve, TaskQueue.serve, QueueView.put, TaskQueue.stops, freeCalls,
      TaskQueue.drain]

theorem serve_drop_none {v : QueueView} (h : v.queue = none) : v.serve k .drop = .ok v := by
  simp [QueueView.serve, h]

/-- Nothing is left of a queue cancelled by quitting. -/
theorem serve_quitCancel_queue {v v' : QueueView} (h : v.serve k (.quitCancel sync) = .ok v') :
    v'.queue = none := by
  unfold QueueView.serve at h
  cases hv : v.queue with
  | none =>
    obtain rfl : v = v' := by simpa [hv] using h
    exact hv
  | some q =>
    simp only [hv, TaskQueue.serve, Except.ok.injEq] at h
    rw [← h]
    rfl

/-- What the traversal of `prv_cancel_all_queues` does, with the `g_hash_table_remove_all` that
follows it: the queues that it reaches are cancelled, all others are removed as they are. -/
structure Cancelled (sync : TaskAtom → Bool) (w w' : World)
    (es : List (TaskQueueKey × TaskQueue)) : Prop where
  sources : SourcesOk w'
  running : w'.runningTasks = quitRunning sync w.runningTasks es
  quit : w'.quitView = if quitCompletes sync w.runningTasks es then w.quitView.schedule 0
    else w.quitView
  view : ∀ k, (w.view k).serve k
    (if k ∈ reachedKeys sync w.runningTasks es ∧ w.isCancelled k = false then .quitCancel sync
      else .drop) = .ok ((gHashTableRemoveAll w').view k)

/-- The traversal goes on after its first visit. -/
theorem Cancelled.cons {es : List (TaskQueueKey × TaskQueue)} {w1 : World} {v v' : QueueView}
    {n : Nat} (hk : k ∉ reachedKeys sync n es) (hA : Acts w w1 k v n)
    (hdrop : v.serve k .drop = .ok v')
    (hv : (w.view k).serve k (if w.isCancelled k = false then .quitCancel sync else .drop) = .ok v')
    (hC : Cancelled sync w1 w' es) :
    SourcesOk w' ∧ w'.runningTasks = quitRunning sync n es ∧
      w'.quitView = (if quitCompletes sync n es then w.quitView.schedule 0 else w.quitView) ∧
      ∀ k', (w.view k').serve k'
        (if k' ∈ k :: reachedKeys sync n es ∧ w.isCancelled k' = false then .quitCancel sync
          else .drop) = .ok ((gHashTableRemoveAll w').view k') := by
  have hrun := hC.running
  have hquit := hC.quit
  rw [hA.running] at hrun hquit
  rw [hA.quit] at hquit
  refine ⟨hC.sources, hrun, hquit, fun k' => ?_⟩
  have hcv := hC.view k'
  rw [hA.running] at hcv
  by_cases hkk : k' = k
  · subst hkk
    rw [if_neg (fun hc => hk hc.1), hA.self, hdrop] at hcv
    rw [← hcv, ← hv]
    simp
  · rw [hA.others k' hkk, isCancelled_congr (hA.others k' hkk)] at hcv
    simpa [hkk] using hcv

theorem notMem_reachedKeys {es : List (TaskQueueKey × TaskQueue)} (hk : k ∉ es.map Prod.fst)
    (n : Nat) : k ∉ reachedKeys sync n es := by
  induction es generalizing n with
  | nil => simp [reachedKeys]
  | cons e es ih =>
    simp only [List.map_cons, List.mem_cons, not_or] at hk
    obtain ⟨k0, q0⟩ := e
    simp only [reachedKeys]
    split
    · split
      · simpa using hk.1
      · simpa using ⟨hk.1, ih hk.2 _⟩
    · simpa using ⟨hk.1, ih hk.2 _⟩

theorem cancelAll_view (es : List (TaskQueueKey × TaskQueue)) (hnd : (es.map Prod.fst).Nodup)
    (hS : SourcesOk w) (hquit : w.quitting = true)
    (hes : ∀ e ∈ es, (w.view e.1).queue = some e.2.shape)
    (h : gHashTableForeachRemove (prvCancelCb sync) (es.map Prod.fst) w = .ok w') :
    Cancelled sync w w' es := by
  induction es generalizing w with
  | nil =>
    obtain rfl : w = w' := by simpa [gHashTableForeachRemove] using h
    refine ⟨hS, rfl, rfl, fun k => ?_⟩
    simpa [reachedKeys] using view_gHashTableRemoveAll hS k
  | cons e es ih =>
    obtain ⟨k0, q0⟩ := e
    obtain ⟨q, hq, hsh⟩ := find?_of_view (hes _ List.mem_cons_self)
    simp only at hq hsh
    have hnd' := List.nodup_cons.mp hnd
    have hco : q0.completesOnCancel sync = q.completesOnCancel sync :=
      (congrArg (TaskQueue.completesOnCancel sync) hsh).symm
    have hab : q0.abandons w.runningTasks = q.abandons w.runningTasks :=
      (congrArg (TaskQueue.abandons · w.runningTasks) hsh).symm
    rw [List.map_cons, gHashTableForeachRemove] at h
    -- what is known of the rest of the traversal, once the first visit acted on its own queue
    have hrest : ∀ {w1 v n}, Acts w w1 k0 v n →
        gHashTableForeachRemove (prvCancelCb sync) (es.map Prod.fst) w1 = .ok w' →
        Cancelled sync w1 w' es := by
      intro w1 v n hA h1
      refine ih hnd'.2 hA.sources ((congrArg QuitView.quitting hA.quit).trans hquit) ?_ h1
      intro e he
      have hne : e.1 ≠ k0 := fun hc => hnd'.1 (List.mem_map.mpr ⟨e, he, hc⟩)
      rw [hA.others e.1 hne]
      exact hes e (List.mem_cons_of_mem _ he)
    cases hf : prvCancelCb sync w k0 with
    | error fault => simp [hf] at h
    | ok r =>
      obtain ⟨b, w1⟩ := r
      rw [hf] at h
      cases hc : q.completesOnCancel sync with
      | true =>
        obtain ⟨rfl, v, hv, hvis⟩ := visited_completes hS hquit hq hc hf
        have hic : w.isCancelled k0 = false := by
          rw [isCancelled_of_find? hq]
          simpa using (Bool.and_eq_true_iff.mp hc).1
        rw [← hco] at hc
        rw [← hab] at hvis
        rcases hvis with ⟨hst, hver, hgone⟩ | ⟨hst, hver, v', hA, hdrop⟩
        · obtain rfl : w1 = w' := by simpa [hver] using h
          rcases hgone with ⟨hl, hE⟩ | ⟨hl, hA⟩
          · refine ⟨hE.sources, ?_, ?_, fun k => ?_⟩
            · simp [quitRunning, hc, hst, hE.running, hl]
            · simp [quitCompletes, hc, hst, hl, hE.quit]
            · have hnone : (w1.view k).queue = none := by simp [World.view, hE.table]
              rw [← view_gHashTableRemoveAll hE.sources k, serve_drop_none hnone]
              by_cases hk : k = k0
              · subst hk
                simpa [reachedKeys, hc, hst, hic, hE.self] using hv
              · simpa [reachedKeys, hc, hst, hk] using hE.others k hk
          · refine ⟨hA.sources, ?_, ?_, fun k => ?_⟩
            · simp [quitRunning, hc, hst, hA.running]
            · simp [quitCompletes, hc, hst, hl, hA.quit]
            · rw [← view_gHashTableRemoveAll hA.sources k]
              by_cases hk : k = k0
              · subst hk
                rw [hA.self, serve_drop_none (serve_quitCancel_queue hv)]
                simpa [reachedKeys, hc, hst, hic] using hv
              · simp [reachedKeys, hc, hst, hk, hA.others k hk]
        · have h2 : gHashTableForeachRemove (prvCancelCb sync) (es.map Prod.fst) w1 = .ok w' := by
            simpa [hver] using h
          have hv' : (w.view k0).serve k0
              (if w.isCancelled k0 = false then .quitCancel sync else .drop) = .ok v := by
            rw [if_pos hic]
            exact hv
          obtain ⟨h1, h2, h3, h4⟩ := Cancelled.cons (notMem_reachedKeys hnd'.1 _) hA hdrop hv'
            (hrest hA h2)
          refine ⟨h1, ?_, ?_, fun k => ?_⟩
          · simpa [quitRunning, hc, hst] using h2
          · simpa [quitCompletes, hc, hst] using h3
          · simpa [reachedKeys, hc, hst] using h4 k
      | false =>
        obtain ⟨hver, v, v', hvis, hdrop, hv⟩ := acts_prvCancelOnly hS hq hc hf
        have hgo : ∃ w2, Acts w w2 k0 v w.runningTasks ∧
            gHashTableForeachRemove (prvCancelCb sync) (es.map Prod.fst) w2 = .ok w' := by
          cases hvis with
          | kept hA => exact ⟨w1, hA, by simpa [hver] using h⟩
          | @removed q hq hA =>
            refine ⟨_, hA, ?_⟩
            simpa [hq, prvFreeCb, hver] using h
        obtain ⟨w2, hA, h2⟩ := hgo
        rw [← isCancelled_of_find? hq] at hv
        obtain ⟨h1, h2, h3, h4⟩ := Cancelled.cons (notMem_reachedKeys hnd'.1 _) hA hdrop hv
          (hrest hA h2)
        rw [← hco] at hc
        refine ⟨h1, ?_, ?_, fun k => ?_⟩
        · simpa [quitRunning, hc] using h2
        · simpa [quitCompletes, hc] using h3
        · simpa [reachedKeys, hc] using h4 k

theorem taskCompleted_registered (hq : w.taskQueues.find? k = some q) :
    ∃ w', dleynaTaskQueueTaskCompleted w k = .ok w' := by
  simp only [dleynaTaskQueueTaskCompleted, hq]
  exact ⟨_, rfl⟩

theorem prvCancelOnly_registered (hq : w.taskQueues.find? k = some q) (sync : TaskAtom → Bool) :
    ∃ b w', prvCancelOnly sync w k = .ok (b, w') := by
  simp only [prvCancelOnly, hq]
  split
  · exact ⟨_, _, rfl⟩
  · split
    · next t _ =>
      split
      · obtain ⟨w3, h3⟩ := taskCompleted_registered (k := k) (q := q.drain)
          (w := ((cancelWaiting w k q).emit [.cancelCb k t q.userData]).emit [.completed k t])
          (find?_cancelWaiting_self hq)
        exact ⟨false, w3, by rw [h3]⟩
      · exact ⟨_, _, rfl⟩
    · exact ⟨_, _, rfl⟩

theorem prvCancel_registered (hq : w.taskQueues.find? k = some q) (sync : TaskAtom → Bool) :
    ∃ w', prvCancel sync w k = .ok w' := by
  obtain ⟨b, w', h⟩ := prvCancelOnly_registered hq sync
  unfold prvCancel
  rw [h]
  cases b <;> exact ⟨_, rfl⟩

/-- The traversal of `prv_cancel_all_queues` finds every queue that it visits. -/
theorem cancelAll_ok (sync : TaskAtom → Bool) (es : List (TaskQueueKey × TaskQueue)) (hnd : (es.map Prod.fst).Nodup)
    (hS : SourcesOk w) (hquit : w.quitting = true)
    (hes : ∀ e ∈ es, (w.view e.1).queue = some e.2.shape) :
    ∃ w', gHashTableForeachRemove (prvCancelCb sync) (es.map Prod.fst) w = .ok w' := by
  induction es generalizing w with
  | nil => exact ⟨w, rfl⟩
  | cons e es ih =>
    obtain ⟨k0, q0⟩ := e
    obtain ⟨q, hq, -⟩ := find?_of_view (hes _ List.mem_cons_self)
    have hnd' := List.nodup_cons.mp hnd
    -- the other queues are still there after the first visit
    have hrest : ∀ {w1 v n}, Acts w w1 k0 v n →
        ∃ w', gHashTableForeachRemove (prvCancelCb sync) (es.map Prod.fst) w1 = .ok w' := by
      intro w1 v n hA
      refine ih hnd'.2 hA.sources ((congrArg QuitView.quitting hA.quit).trans hquit) ?_
      intro e he
      have hne : e.1 ≠ k0 := fun hc => hnd'.1 (List.mem_map.mpr ⟨e, he, hc⟩)
      rw [hA.others e.1 hne]
      exact hes e (List.mem_cons_of_mem _ he)
    obtain ⟨b, w1, hf⟩ := prvCancelOnly_registered hq sync
    have hf' : prvCancelCb sync w k0 = .ok (b, w1) := hf
    rw [List.map_cons, gHashTableForeachRemove]
    simp only [hf']
    cases hc : q.completesOnCancel sync with
    | true =>
      obtain ⟨rfl, v, -, hvis⟩ := visited_completes hS hquit hq hc hf
      rcases hvis with ⟨-, hver, -⟩ | ⟨-, hver, v', hA, -⟩
      · exact ⟨w1, by simp [hver]⟩
      · simpa [hver] using hrest hA
    | false =>
      obtain ⟨hver, v, v', hvis, -⟩ := acts_prvCancelOnly hS hq hc hf
      cases hvis with
      | kept hA => simpa [hver] using hrest hA
      | @removed q' hq' hA => simpa [hq', prvFreeCb, hver] using hrest hA

/-- A registered queue answers the request that is answered from its view. -/
theorem serve_of_view {r : Request} {v : QueueView} (hq : w.taskQueues.find? k = some q)
    (hs : (w.view k).serve k r = .ok v) : ∃ a, q.shape.serve k r = .ok a := by
  simp only [QueueView.serve, World.view, hq, Option.map_some] at hs
  split at hs
  · simp at hs
  · next hsv => exact ⟨_, hsv⟩

/-- A queue that is not marked answers a bulk removal only if nothing frees it on the way. -/
theorem serve_remove_ok {sync : TaskAtom → Bool} {a : Option TaskQueue × List Event}
    (hd : q.deferRemove = false) (hcan : q.cancelled = false)
    (hs : q.serve k (.remove sync) = .ok a) :
    (q.currentTask = none → q.autoRemove = false) ∧
      ∀ t, q.currentTask = some t → sync t = false := by
  constructor
  · intro hc
    by_contra ha
    rw [Bool.not_eq_false] at ha
    simp [TaskQueue.serve, hd, hcan, hc, ha] at hs
  · intro t hc
    by_contra hsync
    rw [Bool.not_eq_false] at hsync
    simp [TaskQueue.serve, hd, hcan, hc, hsync] at hs

/-- The callback of a bulk removal does not fault on a queue that can answer it. -/
theorem prvFreeQueueFor_ok {hit : TaskQueueKey → Bool} (hq : w.taskQueues.find? k = some q)
    (hs : hit k = true → ∃ a, q.shape.serve k (.remove sync) = .ok a) :
    ∃ b w', prvFreeQueueFor hit sync w k = .ok (b, w') := by
  simp only [prvFreeQueueFor, hq]
  by_cases hh : (hit k && !q.deferRemove) = true
  · rw [if_pos hh]
    rw [Bool.and_eq_true, Bool.not_eq_true'] at hh
    obtain ⟨a, hs⟩ := hs hh.1
    set q1 : TaskQueue := { q with deferRemove := q.currentTask.isSome } with hq1
    have hf1 : (w.setQueue k q1).taskQueues.find? k = some q1 := World.find?_setQueue_self hq q1
    obtain ⟨b, w1, h1⟩ := prvCancelOnly_registered hf1 sync
    obtain ⟨q2, hq2, hcases⟩ := prvCancelOnly_cases h1
    obtain rfl : q1 = q2 := Option.some.inj (hf1.symm.trans hq2)
    -- the queue is still there when `defer_remove` is read again
    have hstay : b = false ∧ ∃ q3, w1.taskQueues.find? k = some q3 := by
      rcases hcases with ⟨-, rfl, rfl⟩ | ⟨hcan, hcur, rfl, rfl⟩ | ⟨t, -, -, -, rfl, rfl⟩ |
        ⟨t, hcan, hcur, hsync, -, -⟩
      · exact ⟨rfl, _, hf1⟩
      · exact ⟨(serve_remove_ok (q := q.shape) hh.2 hcan hs).1 hcur, _,
          find?_cancelWaiting_self hf1⟩
      · exact ⟨rfl, _, find?_cancelWaiting_self hf1⟩
      · have := (serve_remove_ok (q := q.shape) hh.2 hcan hs).2 t hcur
        simp [this] at hsync
    obtain ⟨rfl, q3, hq3⟩ := hstay
    simp only [prvCancel, h1, hq3]
    exact ⟨_, _, rfl⟩
  · rw [if_neg hh]
    exact ⟨_, _, rfl⟩

/-- A bulk removal does not fault when every queue that it is to remove can answer it. -/
theorem removeQueues_ok {hit : TaskQueueKey → Bool} (es : List (TaskQueueKey × TaskQueue))
    (hnd : (es.map Prod.fst).Nodup) (hS : SourcesOk w)
    (hes : ∀ e ∈ es, (w.view e.1).queue = some e.2.shape)
    (hs : ∀ e ∈ es, hit e.1 = true → ∃ a, e.2.shape.serve e.1 (.remove sync) = .ok a) :
    ∃ w', gHashTableForeachRemove (prvFreeQueueFor hit sync) (es.map Prod.fst) w = .ok w' := by
  induction es generalizing w with
  | nil => exact ⟨w, rfl⟩
  | cons e es ih =>
    rw [List.map_cons, List.nodup_cons] at hnd
    obtain ⟨q, hq, hshape⟩ := find?_of_view (hes e List.mem_cons_self)
    obtain ⟨b, w1, h1⟩ := prvFreeQueueFor_ok hq fun hh => hshape ▸ hs e List.mem_cons_self hh
    obtain ⟨w2, v, -, hA, -, hgo⟩ := foreachRemove_cons hS h1 (es.map Prod.fst)
    rw [List.map_cons, hgo]
    refine ih hnd.2 hA.sources (fun e' he' => ?_) fun e' he' => hs e' (List.mem_cons_of_mem _ he')
    have hne : e'.1 ≠ e.1 := fun h => hnd.1 (h ▸ List.mem_map_of_mem he')
    rw [hA.others _ hne]
    exact hes e' (List.mem_cons_of_mem _ he')

end DleynaCore
