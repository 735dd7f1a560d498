import DleynaCore.TaskProcessor.Proofs.TraversalsProofs

/-!
# Every step is a request to every queue

The simulation between the processor and its queues: a step that does not fault changes what is
seen from a queue exactly as the request that `effect` names, and what is seen of the shutdown as
`quitAfter` says.
-/

namespace DleynaCore

variable {w w' : World} {k : TaskQueueKey} {q : TaskQueue}

/-- What a step does to the processor. -/
structure Simulates (w : World) (op : Op) (w' : World) : Prop where
  sources : SourcesOk w'
  view : ∀ k, (w.view k).serve? k (effect w op k) = .ok (w'.view k)
  running : w'.runningTasks = runningAfter w op
  quit : w'.quitView = quitAfter w op

/-- A step that acts on one queue alone. -/
theorem Acts.simulates {op : Op} {r : Request} {v : QueueView} {n : Nat} (h : Acts w w' k v n)
    (hv : (w.view k).serve k r = .ok v) (he : ∀ k', effect w op k' = if k' = k then some r else none)
    (hn : n = runningAfter w op) (hq : quitAfter w op = w.quitView) : Simulates w op w' where
  sources := h.sources
  view := by
    intro k'
    rw [he]
    by_cases hk : k' = k
    · rw [if_pos hk, hk, h.self]
      exact hv
    · rw [if_neg hk, h.others k' hk]
      rfl
  running := h.running.trans hn
  quit := h.quit.trans hq.symm

/-! ## The steps on one queue -/

/-- A queue is added for a pair that has none. -/
theorem addQueue_new (hl : w.taskQueues.lookup k.pair = none) (flags : UInt32) :
    dleynaTaskProcessorAddQueue w k flags =
      { w with taskQueues := w.taskQueues.insertNew k (.new flags) hl
               version := w.version + 1 }.emit [.addQueue k flags] := by
  unfold dleynaTaskProcessorAddQueue
  split
  · rfl
  · next h => simp [hl] at h

/-- A queue is added for a pair that has one: the old queue is freed, and its key stays. -/
theorem addQueue_registered {oldKey : TaskQueueKey} {oldQueue : TaskQueue}
    (hl : w.taskQueues.lookup k.pair = some (oldKey, oldQueue)) (flags : UInt32) :
    dleynaTaskProcessorAddQueue w k flags =
      prvFreeCb ((w.emit [.addQueue k flags]).setQueue oldKey (.new flags)) oldKey oldQueue := by
  unfold dleynaTaskProcessorAddQueue
  split
  · next h => simp [hl] at h
  · next h =>
    rw [hl] at h
    cases h
    rfl

theorem acts_addQueue (hS : SourcesOk w) {flags : UInt32}
    (hl : w.taskQueues.lookup k.pair = none) (hlog : w.logOf k = []) :
    Acts w (dleynaTaskProcessorAddQueue w k flags) k
      ⟨some (.new flags), 0, [.addQueue k flags]⟩ w.runningTasks := by
  have hw := addQueue_new hl flags
  set w1 := dleynaTaskProcessorAddQueue w k flags with hw1
  have hf : ∀ k', w1.taskQueues.find? k' =
      if k' = k then some (.new flags) else w.taskQueues.find? k' := fun k' => by
    rw [hw]
    exact HashTable.find?_insertNew _ _ _ _ hl
  have hlg : ∀ k', w1.logOf k' = w.logOf k' ++ if k' = k then [.addQueue k flags] else [] :=
    fun k' => by
      rw [hw]
      exact World.logOf_emit_owned _ (ownedBy_singleton rfl) k'
  have hp : ∀ k', w1.pendingOf k' = w.pendingOf k' := fun k' => by
    rw [hw]
    rfl
  have hp0 : w.pendingOf k = [] := by
    by_contra hne
    exact hS.known k (Or.inr hne) hlog
  have hS1 : SourcesOk w1 := by
    refine ⟨by rw [hw]; exact hS.nodup, by rw [hw]; exact hS.bound, fun k' q' hk => ?_,
      fun k' hk => ?_⟩
    · rw [hf] at hk
      rw [hp]
      split at hk
      · next hkk =>
        obtain rfl : TaskQueue.new flags = q' := by simpa using hk
        rw [hkk, hp0]
        rfl
      · exact hS.linked k' q' hk
    · rw [hlg]
      by_cases hkk : k' = k
      · simp [hkk]
      · rw [if_neg hkk, List.append_nil]
        rw [hf, hp, if_neg hkk] at hk
        exact hS.known k' hk
  refine ⟨hS1, ?_, fun k' hk => ?_, by rw [hw]; rfl, by rw [hw]; exact quitView_emit _ (ownedBy_singleton rfl)⟩
  · rw [view_of_find? hS1 (q := .new flags) (by simp [hf]), hlg, hlog]
    simp [TaskQueue.shape, TaskQueue.new]
  · exact view_congr (by simp [hf, hk]) (hp k') (by simp [hlg, hk])

theorem step_addQueue {flags : UInt32} (hS : SourcesOk w) (hg : Guard w (.addQueue k flags))
    (h : step w (.addQueue k flags) = .ok w') : Simulates w (.addQueue k flags) w' := by
  obtain ⟨hl, hlog, -⟩ := hg
  obtain rfl : dleynaTaskProcessorAddQueue w k flags = w' := by simpa [step] using h
  have hf : w.taskQueues.find? k = none := by
    rw [HashTable.find?_eq_none]
    intro hm
    obtain ⟨e, he, rfl⟩ := List.mem_map.mp hm
    exact HashTable.lookup_eq_none.mp hl (List.mem_map.mpr ⟨e, he, rfl⟩)
  refine (acts_addQueue hS hl hlog).simulates (r := .addQueue flags) ?_ (fun _ => rfl) rfl rfl
  rw [view_of_find?_none hf, hlog]
  rfl

theorem step_addTask {t : TaskAtom} (hS : SourcesOk w) (h : step w (.addTask k t) = .ok w') :
    Simulates w (.addTask k t) w' := by
  simp only [step, dleynaTaskQueueAddTask] at h
  cases hq : w.taskQueues.find? k with
  | none => simp [hq] at h
  | some q =>
    set q1 : TaskQueue := { q with tasks := q.tasks ++ [t] } with hq1
    set w1 := (w.emit [.addTask k t]).setQueue k q1 with hw1
    have hE := acts_emit hS hq (ownedBy_singleton (e := .addTask k t) rfl)
    have hA := hE.trans (acts_setQueue hE.sources hq q1 rfl)
    have hf1 : w1.taskQueues.find? k = some q1 :=
      World.find?_setQueue_self (w := w.emit [.addTask k t]) hq q1
    have hl1 : w1.logOf k = w.logOf k ++ [.addTask k t] := by simp [hw1, Event.key]
    simp only [hq, Except.ok.injEq, ← hq1, ← hw1] at h
    by_cases hs : q.deferRemove = false ∧
        (q.autoStart && (q.currentTask.isNone && q.idleId == 0)) = true
    · obtain ⟨hd, hs⟩ := hs
      have hi0 : q.idleId = 0 := by
        simp only [Bool.and_eq_true, beq_iff_eq] at hs
        exact hs.2.2
      rw [if_neg (by simp [hd]), if_pos hs] at h
      subst h
      refine (hA.trans (acts_idleAddProcessTask hA.sources hf1 hi0)).simulates (r := .addTask t) ?_
        (fun _ => rfl) rfl rfl
      have hsv : q.shape.serve k (.addTask t) = .ok (some { q1 with idleId := 1 }, [.addTask k t]) := by
        simp only [TaskQueue.serve, shape_deferRemove, shape_autoStart, shape_currentTask,
          shape_idleId_beq]
        rw [if_neg (by simp [hd]), if_pos hs]
        rfl
      rw [serve_eq hS hq hsv, put_some hS hq, hl1]
    · have hw' : w1 = w' := by
        rw [← h]
        cases hd : q.deferRemove with
        | true => rfl
        | false => rw [if_neg (by simp), if_neg fun hc => hs ⟨hd, hc⟩]
      subst hw'
      refine hA.simulates (r := .addTask t) ?_ (fun _ => rfl) rfl rfl
      have hsv : q.shape.serve k (.addTask t) = .ok (some q1.shape, [.addTask k t]) := by
        simp only [TaskQueue.serve, shape_deferRemove, shape_autoStart, shape_currentTask,
          shape_idleId_beq]
        cases hd : q.deferRemove with
        | true =>
          rw [if_pos rfl]
          simp [hq1, TaskQueue.shape, hd]
        | false =>
          rw [if_neg (by simp), if_neg fun hc => hs ⟨hd, hc⟩]
          simp [hq1, TaskQueue.shape, hd]
      rw [serve_eq hS hq hsv, put_some hS hq]
      simp [Event.key]

theorem step_start (hS : SourcesOk w) (h : step w (.start k) = .ok w') :
    Simulates w (.start k) w' := by
  simp only [step, dleynaTaskQueueStart] at h
  cases hq : w.taskQueues.find? k with
  | none => simp [hq] at h
  | some q =>
    simp only [hq, Except.ok.injEq] at h
    -- a request that leaves the queue alone
    have hsame : q.shape.serve k (.start w.quitting) = .ok (some q.shape, []) → w = w' →
        Simulates w (.start k) w' := by
      rintro hsv rfl
      refine (Acts.refl hS k).simulates (r := .start w.quitting) ?_ (fun _ => rfl) rfl rfl
      rw [serve_eq hS hq hsv, put_some hS hq, view_of_find? hS hq, List.append_nil]
    by_cases hqt : w.quitting = true
    · exact hsame (by simp [TaskQueue.serve, hqt]) (by rw [← h, if_pos hqt])
    · rw [if_neg hqt] at h
      by_cases hd : q.deferRemove = true
      · exact hsame (by simp [TaskQueue.serve, hd]) (by rw [← h, if_pos hd])
      · rw [if_neg hd] at h
        by_cases ht : 0 < q.tasks.length
        · rw [if_pos ht] at h
          by_cases hi : (q.currentTask.isNone && q.idleId == 0) = true
          · rw [if_pos hi] at h
            subst h
            have hi0 : q.idleId = 0 := by
              simp only [Bool.and_eq_true, beq_iff_eq] at hi
              exact hi.2
            refine (acts_idleAddProcessTask hS hq hi0).simulates (r := .start w.quitting) ?_
              (fun _ => rfl) rfl rfl
            have hsv : q.shape.serve k (.start w.quitting) = .ok (some { q with idleId := 1 }, []) := by
              simp only [TaskQueue.serve, shape_deferRemove, shape_tasks, shape_currentTask,
                shape_idleId_beq]
              rw [if_neg hqt, if_neg hd, if_pos ht, if_pos hi]
              rfl
            rw [serve_eq hS hq hsv, put_some hS hq, List.append_nil]
          · rw [if_neg hi] at h
            refine hsame ?_ h
            simp only [TaskQueue.serve, shape_deferRemove, shape_tasks, shape_currentTask,
              shape_idleId_beq]
            rw [if_neg hqt, if_neg hd, if_pos ht, if_neg hi]
        · rw [if_neg ht] at h
          by_cases ha : q.autoRemove = true
          · rw [if_pos ha] at h
            subst h
            refine (acts_gHashTableRemove hS hq).simulates (r := .start w.quitting) ?_
              (fun _ => rfl) rfl rfl
            have hsv : q.shape.serve k (.start w.quitting) = .ok (none, freeCalls k q) := by
              simp only [TaskQueue.serve]
              rw [if_neg hqt, if_neg (show ¬ q.shape.deferRemove = true from hd),
                if_neg (show ¬ 0 < q.shape.tasks.length from ht),
                if_pos (show q.shape.autoRemove = true from ha)]
              rfl
            rw [serve_eq hS hq hsv, put_none hS hq]
            rfl
          · rw [if_neg ha] at h
            refine hsame ?_ h
            simp only [TaskQueue.serve]
            rw [if_neg hqt, if_neg (show ¬ q.shape.deferRemove = true from hd),
              if_neg (show ¬ 0 < q.shape.tasks.length from ht),
              if_neg (show ¬ q.shape.autoRemove = true from ha)]

theorem step_setFinally {cb : Option Gpointer} (hS : SourcesOk w)
    (h : step w (.setFinally k cb) = .ok w') : Simulates w (.setFinally k cb) w' := by
  simp only [step, dleynaTaskQueueSetFinally] at h
  cases hq : w.taskQueues.find? k with
  | none => simp [hq] at h
  | some q =>
    simp only [hq, Except.ok.injEq] at h
    subst h
    refine (acts_setQueue hS hq { q with taskQueueFinallyCb := cb } rfl).simulates
      (r := .setFinally cb) ?_ (fun _ => rfl) rfl rfl
    rw [serve_eq hS hq rfl, put_some hS hq, List.append_nil]
    rfl

theorem step_setUserData {u : Gpointer} (hS : SourcesOk w)
    (h : step w (.setUserData k u) = .ok w') : Simulates w (.setUserData k u) w' := by
  simp only [step, dleynaTaskQueueSetUserData] at h
  cases hq : w.taskQueues.find? k with
  | none => simp [hq] at h
  | some q =>
    simp only [hq, Except.ok.injEq] at h
    subst h
    refine (acts_setQueue hS hq { q with userData := u } rfl).simulates
      (r := .setUserData u) ?_ (fun _ => rfl) rfl rfl
    rw [serve_eq hS hq rfl, put_some hS hq, List.append_nil]
    rfl

/-! ## The main loop -/

theorem detach_sublist (w : World) (s : IdleSource) : (detach w s).sources.Sublist w.sources :=
  List.eraseP_sublist

/-- Taking one kind of source off the main loop leaves the other kinds. -/
theorem filter_eraseP {l : List (Nat × IdleSource)} {s s' : IdleSource} (hne : s ≠ s') :
    (l.eraseP fun x => x.2 = s).filter (fun x => x.2 = s') = l.filter fun x => x.2 = s' := by
  induction l with
  | nil => rfl
  | cons x l ih =>
    rw [List.eraseP_cons]
    by_cases hx : x.2 = s
    · have hx' : x.2 ≠ s' := fun hc => hne (hx.symm.trans hc)
      simp [hx, hne]
    · simp only [hx, decide_false, cond_false, List.filter_cons, ih]

theorem length_filter_eraseP {l : List (Nat × IdleSource)} {s : IdleSource} :
    ((l.eraseP fun x => x.2 = s).filter fun x => x.2 = s).length =
      (l.filter fun x => x.2 = s).length - 1 := by
  induction l with
  | nil => rfl
  | cons x l ih =>
    rw [List.eraseP_cons]
    by_cases hx : x.2 = s
    · simp [hx]
    · simp [hx, ih]

/-- A pending dispatch of a registered queue is the one that the queue knows. -/
theorem pending_unique (hS : SourcesOk w) (hq : w.taskQueues.find? k = some q)
    (hg : IdleSource.processTask k ∈ w.sources.map Prod.snd) :
    q.idleId ≠ 0 ∧ w.pendingOf k = [q.idleId] := by
  obtain ⟨⟨id, s⟩, hs, rfl⟩ := List.mem_map.mp hg
  have hm := mem_pendingOf.mpr hs
  have hl := hS.linked k q hq
  by_cases h0 : q.idleId = 0
  · rw [hl, if_pos h0] at hm
    simp at hm
  · rw [if_neg h0] at hl
    exact ⟨h0, hl⟩

theorem step_dispatch (hS : SourcesOk w) (hg : Guard w (.dispatch k))
    (h : step w (.dispatch k) = .ok w') : Simulates w (.dispatch k) w' := by
  simp only [step, dispatchProcessTask, prvProcessTask] at h
  have hfd : (detach w (.processTask k)).taskQueues = w.taskQueues := rfl
  rw [hfd] at h
  cases hq : w.taskQueues.find? k with
  | none => simp [hq] at h
  | some q =>
    simp only [hq] at h
    cases ht : q.tasks with
    | nil => simp [ht] at h
    | cons t ts =>
      simp only [ht, Except.ok.injEq] at h
      set q' : TaskQueue :=
        { q with cancelled := false, idleId := 0, currentTask := some t, tasks := ts } with hq'
      obtain ⟨-, hp1⟩ := pending_unique hS hq hg
      have hsub : w'.sources.Sublist w.sources := by
        rw [← h]
        exact detach_sublist w _
      have hatt : w'.attached = w.attached := by rw [← h]; rfl
      have hf : ∀ k', w'.taskQueues.find? k' =
          if k' = k then some q' else w.taskQueues.find? k' := fun k' => by
        rw [← h]
        refine (World.find?_setQueue (detach w (.processTask k)) k q' k').trans ?_
        rw [hfd, hq]
        rfl
      have hl : ∀ k', w'.logOf k' =
          w.logOf k' ++ if k' = k then [.processCb k t q.userData] else [] := fun k' => by
        rw [← h]
        exact World.logOf_emit_owned _ (ownedBy_singleton rfl) k'
      have hp : ∀ k', w'.pendingOf k' = if k' = k then [] else w.pendingOf k' := fun k' => by
        have : w'.pendingOf k' = (detach w (.processTask k)).pendingOf k' := by
          rw [← h]
          rfl
        rw [this, pendingOf_detach]
        by_cases hk : k' = k
        · simp [hk, hp1]
        · simp [hk, Ne.symm hk]
      have hS' : SourcesOk w' := by
        refine ⟨hS.nodup.sublist (hsub.map _), fun s hs => hatt ▸ hS.bound s (hsub.subset hs),
          fun k' q2 hk => ?_, fun k' hk => ?_⟩
        · rw [hf] at hk
          rw [hp]
          split at hk
          · next hkk =>
            obtain rfl : q' = q2 := by simpa using hk
            rw [if_pos hkk]
            rfl
          · next hkk => rw [if_neg hkk, hS.linked k' q2 hk]
        · rw [hl]
          refine List.append_ne_nil_of_left_ne_nil (hS.known k' ?_) _
          by_cases hkk : k' = k
          · exact Or.inl ⟨q, hkk ▸ hq⟩
          · rw [hf, hp, if_neg hkk, if_neg hkk] at hk
            exact hk
      have hA : Acts w w' k ⟨some q', 0, w.logOf k ++ [.processCb k t q.userData]⟩
          (guintSucc w.runningTasks) := by
        refine ⟨hS', ?_, fun k' hk => ?_, by rw [← h]; rfl, ?_⟩
        · rw [view_of_find? hS' (q := q') (by simp [hf]), hl, if_pos rfl]
          rfl
        · exact view_congr (by simp [hf, hk]) (by simp [hp, hk]) (by simp [hl, hk])
        · refine quitView_congr (by rw [← h]; rfl) ?_ ?_
          · rw [← h]
            show (w.log ++ _).filter _ = _
            rw [List.filter_append, filter_quit_owned (ownedBy_singleton rfl), List.append_nil]
          · rw [← h]
            exact filter_eraseP (by simp)
      refine hA.simulates (r := .dispatch) ?_ (fun _ => rfl) rfl rfl
      have hsv : q.shape.serve k .dispatch = .ok (some q', [.processCb k t q.userData]) := by
        simp only [TaskQueue.serve, shape_tasks, ht]
        rfl
      rw [serve_eq hS hq hsv, put_some hS hq]

theorem step_dispatchQuit (hS : SourcesOk w) (h : step w .dispatchQuit = .ok w') :
    Simulates w .dispatchQuit w' := by
  obtain rfl : dispatchOnQuitCb w = w' := by simpa [step] using h
  have hsub : (dispatchOnQuitCb w).sources.Sublist w.sources := detach_sublist w _
  have hp : ∀ k, (dispatchOnQuitCb w).pendingOf k = w.pendingOf k := fun k =>
    (pendingOf_detach w .onQuitCb k).trans (by simp)
  have hl : ∀ k, (dispatchOnQuitCb w).logOf k = w.logOf k := fun k => by
    simp [dispatchOnQuitCb, World.logOf, Event.key, detach]
  refine ⟨⟨hS.nodup.sublist (hsub.map _), fun s hs => hS.bound s (hsub.subset hs),
    fun k q hk => ?_, fun k hk => ?_⟩, fun k => ?_, rfl, ?_⟩
  · rw [hp]
    exact hS.linked k q hk
  · rw [hl]
    rw [hp] at hk
    exact hS.known k hk
  · have hv : (dispatchOnQuitCb w).view k = w.view k := view_congr rfl (hp k) (hl k)
    rw [hv]
    rfl
  · simp [quitAfter, World.quitView, dispatchOnQuitCb, detach, Event.key, length_filter_eraseP]

theorem step_rehash {T : TaskQueues} (hS : SourcesOk w) (hg : Guard w (.rehash T))
    (h : step w (.rehash T) = .ok w') : Simulates w (.rehash T) w' := by
  obtain rfl : { w with taskQueues := T } = w' := by simpa [step] using h
  have hf : ∀ k, T.find? k = w.taskQueues.find? k := HashTable.find?_perm hg
  refine ⟨hS.congr rfl rfl (fun k q' hk => ⟨q', (hf k) ▸ hk, rfl⟩) fun _ hl => hl, fun k => ?_, rfl,
    rfl⟩
  have hv : World.view { w with taskQueues := T } k = w.view k := view_congr (hf k) rfl rfl
  rw [hv]
  rfl

/-! ## Bulk removal -/

/-- A queue that is not in the table does not answer a removal. -/
theorem serve_remove_notMem {sync : TaskAtom → Bool} (hk : k ∉ w.taskQueues.keys) :
    (w.view k).serve k (.remove sync) = .ok (w.view k) := by
  rw [view_of_find?_none (HashTable.find?_eq_none.mpr hk)]
  rfl

theorem simulates_removeQueues {op : Op} (hit : TaskQueueKey → Bool) {sync : TaskAtom → Bool}
    (hS : SourcesOk w)
    (h : gHashTableForeachRemove (prvFreeQueueFor hit sync) w.taskQueues.keys w = .ok w')
    (he : ∀ k, effect w op k = if hit k = true then some (.remove sync) else none)
    (hn : w.runningTasks = runningAfter w op) (hq : w.quitView = quitAfter w op) :
    Simulates w op w' := by
  obtain ⟨h1, h2, h3, h4⟩ := removeQueues_view (HashTable.keys_nodup _) hS h
  refine ⟨h1, fun k => ?_, h2.trans hn, h3.trans hq⟩
  rw [he, ← h4 k]
  by_cases hk : k ∈ w.taskQueues.keys
  · simp [hk]
  · by_cases hh : hit k = true
    · simp [hk, hh, QueueView.serve?, serve_remove_notMem hk]
    · simp [hh]

theorem step_removeQueuesForSource {source : String} {sync : TaskAtom → Bool} (hS : SourcesOk w)
    (h : step w (.removeQueuesForSource source sync) = .ok w') :
    Simulates w (.removeQueuesForSource source sync) w' :=
  simulates_removeQueues (fun k => source == k.source) hS h
    (fun k => by simp [effect]) rfl rfl

theorem step_removeQueuesForSink {sink : String} {sync : TaskAtom → Bool} (hS : SourcesOk w)
    (h : step w (.removeQueuesForSink sink sync) = .ok w') :
    Simulates w (.removeQueuesForSink sink sync) w' :=
  simulates_removeQueues (fun k => sink == k.sink) hS h
    (fun k => by simp [effect]) rfl rfl

/-! ## Completion and cancellation -/

/-- A queue that is left alone by the last completion is removed. -/
theorem Ends.view {v : QueueView} {r : Request} (h : Ends w w' k v)
    (hv : (w.view k).serve k r = .ok v) (k' : TaskQueueKey) :
    (w.view k').serve k' (if k' = k then r else .drop) = .ok (w'.view k') := by
  by_cases hk : k' = k
  · rw [if_pos hk, hk, h.self]
    exact hv
  · rw [if_neg hk]
    exact h.others k' hk

theorem step_taskCompleted {t : TaskAtom} (hS : SourcesOk w)
    (hi : ∀ q, w.taskQueues.find? k = some q → q.idleId = 0)
    (h : step w (.taskCompleted k t) = .ok w') : Simulates w (.taskCompleted k t) w' := by
  set w0 := w.emit [.completed k t] with hw0
  have h : dleynaTaskQueueTaskCompleted w0 k = .ok w' := h
  cases hq : w.taskQueues.find? k with
  | none => simp [dleynaTaskQueueTaskCompleted, w0, hq] at h
  | some q =>
    have hE := acts_emit hS hq (ownedBy_singleton (e := .completed k t) rfl)
    by_cases hl : w.lastTask = true
    · have hEnd := ends_taskCompleted hE.sources (w := w0) hq hl h
      have hv : (w.view k).serve k (.lastComplete t) =
          .ok ((w0.view k).put false none (q.deleteCurrent k ++ freeCalls k q)) := by
        rw [serve_eq hS hq (r := .lastComplete t) rfl, hE.self, view_of_find? hS hq]
        simp [QueueView.put, TaskQueue.stops]
      have hEnd' : Ends w w' k ((w0.view k).put false none (q.deleteCurrent k ++ freeCalls k q)) :=
        ⟨hEnd.sources, hEnd.self, fun k' hk => by rw [← hEnd.others k' hk, hE.others k' hk],
          hEnd.running, hE.quit ▸ hEnd.quit, hEnd.table⟩
      refine ⟨hEnd.sources, fun k' => ?_, ?_, ?_⟩
      · rw [← hEnd'.view hv k']
        simp [effect, hl, QueueView.serve?]
      · rw [hEnd.running]
        simp only [World.lastTask, Bool.and_eq_true, beq_iff_eq] at hl
        exact hl.2.symm
      · rw [hEnd'.quit]
        simp [quitAfter, hl]
    · have hl : w.lastTask = false := by simpa using hl
      have hA := hE.trans (acts_taskCompleted hE.sources (w := w0) hq (fun _ => hi q hq) hl h)
      refine hA.simulates (r := .complete t) ?_ (fun k' => by simp [effect, hl]) rfl
        (by simp [quitAfter, hl])
      rw [serve_eq hS hq (r := .complete t) rfl, hE.self, view_of_find? hS hq]
      simp [QueueView.put, TaskQueue.stops]

theorem completesOnCancel_of_find? (sync : TaskAtom → Bool) (hq : w.taskQueues.find? k = some q) :
    w.completesOnCancel sync k = q.completesOnCancel sync := by
  simp [World.completesOnCancel, hq]

theorem find?_of_completesOnCancel {sync : TaskAtom → Bool}
    (h : w.completesOnCancel sync k = true) :
    ∃ q, w.taskQueues.find? k = some q ∧ q.completesOnCancel sync = true := by
  cases hq : w.taskQueues.find? k with
  | none => simp [World.completesOnCancel, hq] at h
  | some q => exact ⟨q, rfl, completesOnCancel_of_find? sync hq ▸ h⟩

/-- Cancelling a queue completes its running task exactly if it is not marked, and the task is one that
completes in its cancel callback. -/
theorem completesOnCancel_iff {sync : TaskAtom → Bool} : q.completesOnCancel sync = true ↔
    q.cancelled = false ∧ ∃ t, q.currentTask = some t ∧ sync t = true := by
  unfold TaskQueue.completesOnCancel
  cases q.currentTask with
  | none => simp
  | some t => simp

theorem step_cancelQueue {sync : TaskAtom → Bool} (hS : SourcesOk w)
    (h : step w (.cancelQueue k sync) = .ok w') : Simulates w (.cancelQueue k sync) w' := by
  have h : prvCancel sync w k = .ok w' := h
  unfold prvCancel at h
  cases hc : prvCancelOnly sync w k with
  | error fault => simp [hc] at h
  | ok r =>
    obtain ⟨b, w1⟩ := r
    obtain ⟨q, hq, hcases⟩ := prvCancelOnly_cases hc
    have hco := completesOnCancel_of_find? sync hq
    -- unless the running task completes, only the queue itself is concerned
    have hone : q.completesOnCancel sync = false → ∀ {v}, Acts w w' k v w.runningTasks →
        (w.view k).serve k (.cancel sync) = .ok v → Simulates w (.cancelQueue k sync) w' := by
      intro hn v hA hv
      refine hA.simulates (r := .cancel sync) hv (fun k' => ?_) ?_ ?_
      · simp [effect, hco, hn]
      · simp [runningAfter, hco, hn]
      · simp [quitAfter, hco, hn]
    rcases hcases with ⟨hcan, rfl, rfl⟩ | ⟨hcan, hcur, rfl, rfl⟩ | ⟨t, hcan, hcur, hs, rfl, rfl⟩ |
      ⟨t, hcan, hcur, hs, rfl, hw1⟩
    · -- a queue that is already marked is left alone
      obtain rfl : w1 = w' := by simpa [hc] using h
      have hsv : q.shape.serve k (.cancel sync) = .ok (some q.shape, []) := by
        simp [TaskQueue.serve, hcan]
      refine hone (by simp [TaskQueue.completesOnCancel, hcan]) (Acts.refl hS k) ?_
      rw [serve_eq hS hq hsv, put_some hS hq, view_of_find? hS hq, List.append_nil]
    · -- nothing runs: the queue is drained, and removed if it is `AUTO_REMOVE`
      have hA := acts_cancelWaiting hS hq
      have hf := find?_cancelWaiting_self hq
      have hn : q.completesOnCancel sync = false := by simp [TaskQueue.completesOnCancel, hcur]
      have hst : q.stops (.cancel sync) = true := by simp [TaskQueue.stops, hcan]
      cases ha : q.autoRemove with
      | true =>
        obtain rfl : gHashTableRemove (cancelWaiting w k q) k = w' := by simpa [hc, ha] using h
        have hR := hA.trans (acts_gHashTableRemove hA.sources hf)
        refine hone hn (hR.ofRunning hA.running) ?_
        have hsv : q.shape.serve k (.cancel sync) =
            .ok (none, cancelAndFreeCalls k q ++ freeCalls k q.drain) := by
          simp [TaskQueue.serve, hcan, hcur, ha]
        rw [serve_eq hS hq hsv, put_none hS hq, hst, logOf_cancelWaiting, if_pos rfl, if_pos rfl,
          List.append_assoc]
        rfl
      | false =>
        obtain rfl : cancelWaiting w k q = w' := by simpa [hc, ha] using h
        refine hone hn hA ?_
        have hsv : q.shape.serve k (.cancel sync) = .ok (some q.drain, cancelAndFreeCalls k q) := by
          simp [TaskQueue.serve, hcan, hcur, ha]
        rw [serve_eq hS hq hsv, put_some hS hq]
        rfl
    · -- the running task is told to stop, and goes on for now
      obtain rfl : (cancelWaiting w k q).emit [.cancelCb k t q.userData] = w' := by
        simpa [hc] using h
      refine hone (by simp [TaskQueue.completesOnCancel, hcur, hs])
        (acts_cancelRunning hS hq (ownedBy_singleton rfl)) ?_
      have hsv : q.shape.serve k (.cancel sync) =
          .ok (some q.drain, cancelAndFreeCalls k q ++ [.cancelCb k t q.userData]) := by
        simp [TaskQueue.serve, hcan, hcur, hs]
      rw [serve_eq hS hq hsv, put_some hS hq]
      rfl
    · -- the running task completes at once
      obtain rfl : w1 = w' := by simpa [hc] using h
      have hcomp : w.completesOnCancel sync k = true := by
        rw [hco]
        simp [TaskQueue.completesOnCancel, hcan, hcur, hs]
      by_cases hl : w.lastTask = true
      · have hEnd := ends_cancelCompleted hS hq hcur hl hw1
        have hsv : q.shape.serve k (.quitCancel sync) = .ok (none, cancelAndFreeCalls k q ++
            q.cancelCompleteCalls k t ++ freeCalls k q.drain) := by
          simp [TaskQueue.serve, hcur, hs]
        have hst : q.stops (.quitCancel sync) = true := by simp [TaskQueue.stops, hcan]
        refine ⟨hEnd.sources, fun k' => ?_, ?_, ?_⟩
        · have hv := hEnd.view (r := .quitCancel sync)
            (by rw [serve_eq hS hq hsv, hst, List.append_assoc]) k'
          rw [← hv]
          simp [effect, hl, hcomp, QueueView.serve?]
        · rw [hEnd.running, runningAfter, if_pos hcomp]
          simp only [World.lastTask, Bool.and_eq_true, beq_iff_eq] at hl
          exact hl.2.symm
        · rw [hEnd.quit]
          simp [quitAfter, hl, hcomp]
      · have hl : w.lastTask = false := by simpa using hl
        have hA := acts_cancelCompleted hS hq hcur hl hw1
        have hsv : q.shape.serve k (.cancel sync) = .ok ((q.drain.finish k).1,
            cancelAndFreeCalls k q ++ q.cancelCompleteCalls k t ++ (q.drain.finish k).2) := by
          simp [TaskQueue.serve, hcan, hcur, hs]
        have hst : q.stops (.cancel sync) = true := by simp [TaskQueue.stops, hcan]
        refine hA.simulates (r := .cancel sync) ?_ (fun k' => by simp [effect, hl]) ?_
          (by simp [quitAfter, hl])
        · rw [serve_eq hS hq hsv, hst, List.append_assoc]
        · rw [runningAfter, if_pos hcomp]

/-! ## Quitting -/

/-- What `dleyna_task_processor_set_quitting` does before it cancels the queues. -/
theorem quitting_begun {w1 w2 : World} (hS : SourcesOk w)
    (hw1 : w1 = { w with quitting := true }.emit [.setQuitting])
    (hw2 : w2 = if w1.runningTasks = 0 then idleAddOnQuitCb w1 else w1) :
    SourcesOk w2 ∧ (∀ k, w2.view k = w.view k) ∧
      w2.quitView = w.quitView.setQuitting w.runningTasks ∧
      w2.runningTasks = w.runningTasks ∧ w2.taskQueues = w.taskQueues ∧ w2.quitting = true := by
  have hS1 : SourcesOk w1 := by
    rw [hw1]
    exact hS.congr rfl rfl (fun k q' hk => ⟨q', hk, rfl⟩) fun k hl => by
      simpa [World.logOf, Event.key] using hl
  have hv1 : ∀ k, w1.view k = w.view k := fun k => by
    rw [hw1]
    exact view_congr rfl rfl (by simp [World.logOf, Event.key])
  have hq1 : w1.quitView = { w.quitView with
      quitting := true, log := w.quitView.log ++ [.setQuitting] } := by
    simp [hw1, World.quitView, Event.key]
  have hr : w1.runningTasks = w.runningTasks := by rw [hw1]; rfl
  have hT : w1.taskQueues = w.taskQueues := by rw [hw1]; rfl
  have hqt : w1.quitting = true := by rw [hw1]; rfl
  by_cases h0 : w.runningTasks = 0
  · rw [hw2, if_pos (hr.trans h0)]
    refine ⟨hS1.onQuitCb, fun k => (view_idleAddOnQuitCb w1 k).trans (hv1 k), ?_, hr, hT, hqt⟩
    rw [quitView_idleAddOnQuitCb, hq1, hr, h0]
    rfl
  · rw [hw2, if_neg (fun hc => h0 (hr.symm.trans hc))]
    refine ⟨hS1, hv1, ?_, hr, hT, hqt⟩
    rw [hq1, QuitView.setQuitting, if_neg h0]

theorem step_setQuitting {sync : TaskAtom → Bool} (hS : SourcesOk w)
    (h : step w (.setQuitting sync) = .ok w') : Simulates w (.setQuitting sync) w' := by
  simp only [step, dleynaTaskProcessorSetQuitting, prvCancelAllQueues] at h
  set w1 : World := { w with quitting := true }.emit [.setQuitting] with hw1
  set w2 : World := if w1.runningTasks = 0 then idleAddOnQuitCb w1 else w1 with hw2
  obtain ⟨hS2, hv2, hq2, hr2, hT2, hqt2⟩ := quitting_begun hS hw1 hw2
  cases hf : gHashTableForeachRemove (prvCancelCb sync) w2.taskQueues.keys w2 with
  | error fault => simp [hf] at h
  | ok w3 =>
    obtain rfl : gHashTableRemoveAll w3 = w' := by simpa [hf] using h
    rw [hT2] at hf
    have hC := cancelAll_view w.taskQueues.entries (HashTable.keys_nodup _) hS2 hqt2
      (fun e he => by
        rw [hv2]
        simp [World.view, HashTable.find?_eq_some.mpr he]) hf
    refine ⟨hC.sources.removeAll, fun k => ?_, ?_, ?_⟩
    · have hcv := hC.view k
      rw [hv2, hr2, isCancelled_congr (hv2 k)] at hcv
      rw [← hcv]
      rfl
    · rw [gHashTableRemoveAll_eq]
      exact hC.running.trans (by rw [hr2]; rfl)
    · rw [quitView_gHashTableRemoveAll, hC.quit, hr2, hq2]
      rfl

/-! ## All steps -/

/-- A step that does not fault does to every queue what `effect` asks of it. A queue that completes
a task must not have a dispatch pending. -/
theorem step_simulates {op : Op} (hS : SourcesOk w)
    (hi : ∀ k t q, op = .taskCompleted k t → w.taskQueues.find? k = some q → q.idleId = 0)
    (hg : Guard w op) (h : step w op = .ok w') : Simulates w op w' := by
  cases op with
  | addQueue key flags => exact step_addQueue hS hg h
  | addTask queueId task => exact step_addTask hS h
  | start queueId => exact step_start hS h
  | cancelQueue queueId sync => exact step_cancelQueue hS h
  | removeQueuesForSource source sync => exact step_removeQueuesForSource hS h
  | removeQueuesForSink sink sync => exact step_removeQueuesForSink hS h
  | setQuitting sync => exact step_setQuitting hS h
  | taskCompleted queueId task => exact step_taskCompleted hS (fun q => hi _ _ q rfl) h
  | setFinally queueId finallyCb => exact step_setFinally hS h
  | setUserData queueId userData => exact step_setUserData hS h
  | dispatch queueId => exact step_dispatch hS hg h
  | dispatchQuit => exact step_dispatchQuit hS h
  | rehash taskQueues => exact step_rehash hS hg h

end DleynaCore
