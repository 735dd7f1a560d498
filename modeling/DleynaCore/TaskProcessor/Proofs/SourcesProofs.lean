import DleynaCore.TaskProcessor.Proofs.OperationsProofs

/-!
# The sources of the main loop

Every registered queue knows its pending dispatch by the id of the source: `SourcesOk`. Under this
invariant each operation on one queue acts on what is seen from that queue, and on nothing else:
`Acts`.
-/

namespace DleynaCore

variable {w w' w'' : World} {k : TaskQueueKey} {q : TaskQueue}

/-! ## Pending dispatches -/

theorem pendingOf_congr (h : w'.sources = w.sources) (k : TaskQueueKey) :
    w'.pendingOf k = w.pendingOf k := by
  simp [World.pendingOf, h]

theorem pendingOf_append {id : Nat} {s : IdleSource} (hs : w'.sources = w.sources ++ [(id, s)]) (k : TaskQueueKey) :
    w'.pendingOf k = w.pendingOf k ++ if s = .processTask k then [id] else [] := by
  unfold World.pendingOf
  rw [hs, List.filterMap_append]
  split <;> simp [*]

theorem mem_pendingOf {id : Nat} :
    id ∈ w.pendingOf k ↔ (id, IdleSource.processTask k) ∈ w.sources := by
  simp only [World.pendingOf, List.mem_filterMap]
  constructor
  · rintro ⟨⟨i, s⟩, hs, h⟩
    split at h
    · next hk =>
      obtain rfl : i = id := by simpa using h
      exact hk ▸ hs
    · simp at h
  · exact fun h => ⟨_, h, by simp⟩

theorem pendingOf_gSourceRemove (w : World) (id : Nat) (k : TaskQueueKey) :
    (gSourceRemove w id).pendingOf k = (w.pendingOf k).filter fun i => i ≠ id := by
  unfold World.pendingOf gSourceRemove
  induction w.sources with
  | nil => rfl
  | cons s l ih =>
    rw [List.filter_cons]
    by_cases h1 : s.1 = id <;> by_cases h2 : s.2 = .processTask k <;>
      simp_all

/-- The ids of the pending dispatches, some source being taken off the main loop. -/
theorem pendingOf_detach (w : World) (s : IdleSource) (k : TaskQueueKey) :
    (detach w s).pendingOf k =
      if s = .processTask k then (w.pendingOf k).tail else w.pendingOf k := by
  unfold World.pendingOf detach
  induction w.sources with
  | nil => simp
  | cons x l ih =>
    rw [List.eraseP_cons]
    by_cases h1 : x.2 = s
    · by_cases h2 : s = .processTask k <;> simp [h1, h2]
    · by_cases h2 : x.2 = .processTask k <;> by_cases h3 : s = .processTask k <;>
        simp_all

/-! ## The invariant -/

/-- The ids of the pending sources are all different, a registered queue knows its pending dispatch,
and only queues that were added once are registered or have a dispatch pending. -/
structure SourcesOk (w : World) : Prop where
  nodup : (w.sources.map Prod.fst).Nodup
  bound : ∀ s ∈ w.sources, 0 < s.1 ∧ s.1 ≤ w.attached
  linked : ∀ k q, w.taskQueues.find? k = some q →
    w.pendingOf k = if q.idleId = 0 then [] else [q.idleId]
  known : ∀ k, (∃ q, w.taskQueues.find? k = some q) ∨ w.pendingOf k ≠ [] → w.logOf k ≠ []

theorem sourcesOk_new : SourcesOk World.new where
  nodup := by simp [World.new]
  bound := by simp [World.new]
  linked := by simp [World.new]
  known := by simp [World.new, World.pendingOf]

namespace SourcesOk

/-- Operations that neither attach nor remove a source, and change no source id. -/
theorem congr (h : SourcesOk w) (hs : w'.sources = w.sources) (ha : w'.attached = w.attached)
    (hq : ∀ k q', w'.taskQueues.find? k = some q' →
      ∃ q, w.taskQueues.find? k = some q ∧ q.idleId = q'.idleId)
    (hl : ∀ k, w.logOf k ≠ [] → w'.logOf k ≠ []) : SourcesOk w' where
  nodup := by rw [hs]; exact h.nodup
  bound := by rw [hs, ha]; exact h.bound
  linked := by
    intro k q' hk
    obtain ⟨q, hkq, hid⟩ := hq k q' hk
    rw [pendingOf_congr hs, h.linked k q hkq, hid]
  known := by
    intro k hk
    rw [pendingOf_congr hs] at hk
    refine hl k (h.known k (hk.imp_left ?_))
    rintro ⟨q', hk'⟩
    obtain ⟨q, hq, -⟩ := hq k q' hk'
    exact ⟨q, hq⟩

/-- Ids in use are not handed out again. -/
theorem fresh (h : SourcesOk w) : w.attached + 1 ∉ w.sources.map Prod.fst := by
  intro hm
  obtain ⟨s, hs, he⟩ := List.mem_map.mp hm
  have := (h.bound s hs).2
  omega

/-- A source that is attached has an id of its own. -/
theorem attach_nodup (h : SourcesOk w) (s : IdleSource) :
    ((w.sources ++ [(w.attached + 1, s)]).map Prod.fst).Nodup := by
  rw [List.map_append, List.nodup_append]
  refine ⟨h.nodup, by simp, fun a ha b hb => ?_⟩
  have hb : b = w.attached + 1 := by simpa using hb
  rintro rfl
  exact h.fresh (hb ▸ ha)

theorem attach_bound (h : SourcesOk w) (s : IdleSource) :
    ∀ s' ∈ w.sources ++ [(w.attached + 1, s)], 0 < s'.1 ∧ s'.1 ≤ w.attached + 1 := by
  intro s' hs'
  rcases List.mem_append.mp hs' with hs' | hs'
  · have := h.bound s' hs'
    omega
  · rw [List.mem_singleton.mp hs']
    exact ⟨Nat.succ_pos _, le_rfl⟩

/-- The source with the id of a registered queue belongs to that queue. -/
theorem owner (h : SourcesOk w) (hq : w.taskQueues.find? k = some q) (h0 : q.idleId ≠ 0)
    {k' : TaskQueueKey} (hk : k' ≠ k) : q.idleId ∉ w.pendingOf k' := by
  intro hm
  have hk1 : (q.idleId, IdleSource.processTask k) ∈ w.sources := by
    rw [← mem_pendingOf, h.linked k q hq, if_neg h0]
    simp
  have := List.inj_on_of_nodup_map h.nodup (mem_pendingOf.mp hm) hk1 rfl
  simp only [Prod.mk.injEq, IdleSource.processTask.injEq, true_and] at this
  exact hk this

theorem owner_quit (h : SourcesOk w) (hq : w.taskQueues.find? k = some q) (h0 : q.idleId ≠ 0) :
    (q.idleId, IdleSource.onQuitCb) ∉ w.sources := by
  intro hm
  have hk1 : (q.idleId, IdleSource.processTask k) ∈ w.sources := by
    rw [← mem_pendingOf, h.linked k q hq, if_neg h0]
    simp
  have := List.inj_on_of_nodup_map h.nodup hm hk1 rfl
  simp at this

end SourcesOk

/-! ## Views -/

theorem view_of_find? (h : SourcesOk w) (hq : w.taskQueues.find? k = some q) :
    w.view k = ⟨some q.shape, q.shape.idleId, w.logOf k⟩ := by
  have hl : (w.pendingOf k).length = q.shape.idleId := by
    rw [h.linked k q hq]
    unfold TaskQueue.shape
    split <;> rfl
  simp [World.view, hq, hl]

theorem view_of_find?_none (hq : w.taskQueues.find? k = none) :
    w.view k = ⟨none, (w.pendingOf k).length, w.logOf k⟩ := by
  simp [World.view, hq]

theorem view_congr (h1 : w'.taskQueues.find? k = w.taskQueues.find? k)
    (h2 : w'.pendingOf k = w.pendingOf k) (h3 : w'.logOf k = w.logOf k) : w'.view k = w.view k := by
  simp [World.view, h1, h2, h3]

/-- The operation that led from `w` to `w'` keeps the sources in order, changes the view of the
queue `k` to `v` and no other view, leaves `n` tasks running, and has no part in the shutdown. -/
structure Acts (w w' : World) (k : TaskQueueKey) (v : QueueView) (n : Nat) : Prop where
  sources : SourcesOk w'
  self : w'.view k = v
  others : ∀ k', k' ≠ k → w'.view k' = w.view k'
  running : w'.runningTasks = n
  quit : w'.quitView = w.quitView

theorem Acts.trans {v v' : QueueView} {n n' : Nat} (h : Acts w w' k v n)
    (h' : Acts w' w'' k v' n') : Acts w w'' k v' n' where
  sources := h'.sources
  self := h'.self
  others := fun k' hk => (h'.others k' hk).trans (h.others k' hk)
  running := h'.running
  quit := h'.quit.trans h.quit

theorem Acts.refl (h : SourcesOk w) (k : TaskQueueKey) :
    Acts w w k (w.view k) w.runningTasks :=
  ⟨h, rfl, fun _ _ => rfl, rfl, rfl⟩

/-- The same operation, described by another equal view. -/
theorem Acts.cast {v v' : QueueView} {n : Nat} (h : Acts w w' k v n) (hv : v = v') :
    Acts w w' k v' n := hv ▸ h

theorem Acts.ofRunning {v : QueueView} {n n' : Nat} (h : Acts w w' k v n) (hn : n = n') :
    Acts w w' k v n' := hn ▸ h

/-! ## The shutdown -/

theorem quitView_congr (h1 : w'.quitting = w.quitting)
    (h2 : w'.log.filter (fun e => e.key = none) = w.log.filter fun e => e.key = none)
    (h3 : w'.sources.filter (fun s => s.2 = .onQuitCb) = w.sources.filter fun s => s.2 = .onQuitCb) :
    w'.quitView = w.quitView := by
  simp [World.quitView, h1, h2, h3]

/-- Events about a queue are no events of the shutdown. -/
theorem filter_quit_owned {es : List Event} (h : OwnedBy k es) :
    es.filter (fun e => e.key = none) = [] :=
  List.filter_eq_nil_iff.mpr fun e he => by simp [h e he]

theorem quitView_emit {es : List Event} (w : World) (h : OwnedBy k es) :
    (w.emit es).quitView = w.quitView :=
  quitView_congr rfl (by simp [filter_quit_owned h]) rfl

/-! ## The primitives act on one queue -/

theorem acts_emit (h : SourcesOk w) (hq : w.taskQueues.find? k = some q) {es : List Event}
    (hes : OwnedBy k es) :
    Acts w (w.emit es) k ⟨some q.shape, q.shape.idleId, w.logOf k ++ es⟩ w.runningTasks where
  sources := h.congr rfl rfl (fun k' q' hk => ⟨q', hk, rfl⟩) fun k' hl => by simp [hl]
  self := by
    have hv := view_of_find? h hq
    simp only [World.view, QueueView.mk.injEq] at hv ⊢
    exact ⟨hv.1, hv.2.1, by rw [World.logOf_emit_owned w hes]; simp⟩
  others := fun k' hk => view_congr rfl rfl (by rw [World.logOf_emit_owned w hes]; simp [hk])
  running := rfl
  quit := quitView_emit w hes

theorem acts_setQueue (h : SourcesOk w) (hq : w.taskQueues.find? k = some q) (q' : TaskQueue)
    (hid : q'.idleId = q.idleId) :
    Acts w (w.setQueue k q') k ⟨some q'.shape, q'.shape.idleId, w.logOf k⟩ w.runningTasks := by
  have hS : SourcesOk (w.setQueue k q') := by
    refine h.congr rfl rfl (fun k' q'' hk => ?_) fun _ hl => hl
    rw [World.find?_setQueue] at hk
    split at hk
    · next hkk =>
      subst hkk
      obtain rfl : q' = q'' := by simpa [hq] using hk
      exact ⟨q, hq, hid.symm⟩
    · exact ⟨q'', hk, rfl⟩
  exact
    { sources := hS
      self := view_of_find? hS (World.find?_setQueue_self hq q')
      others := fun k' hk => view_congr (by simp [World.find?_setQueue, hk]) rfl rfl
      running := rfl
      quit := rfl }

/-- Scheduling a dispatch of a queue that has none pending. -/
theorem acts_idleAddProcessTask (h : SourcesOk w) (hq : w.taskQueues.find? k = some q)
    (h0 : q.idleId = 0) :
    Acts w (idleAddProcessTask w k) k ⟨some { q with idleId := 1 }, 1, w.logOf k⟩
      w.runningTasks := by
  have hp : ∀ k', (idleAddProcessTask w k).pendingOf k' =
      w.pendingOf k' ++ if IdleSource.processTask k = .processTask k' then [w.attached + 1]
        else [] := fun k' => pendingOf_append rfl k'
  have hf := find?_idleAddProcessTask w k
  have hS : SourcesOk (idleAddProcessTask w k) := by
    refine ⟨h.attach_nodup (.processTask k), h.attach_bound (.processTask k), fun k' q' hk => ?_,
      fun k' hk => ?_⟩
    · rw [hf] at hk
      rw [hp]
      by_cases hkk : k' = k
      · subst hkk
        obtain rfl : { q with idleId := w.attached + 1 } = q' := by simpa [hq] using hk
        simp [h.linked k' q hq, h0]
      · rw [if_neg hkk] at hk
        simp [h.linked k' q' hk, Ne.symm hkk]
    · rw [logOf_idleAddProcessTask]
      by_cases hkk : k' = k
      · exact hkk ▸ h.known k (Or.inl ⟨q, hq⟩)
      · refine h.known k' ?_
        rw [hf, hp] at hk
        simpa [hkk, Ne.symm hkk] using hk
  refine ⟨hS, ?_, fun k' hk => ?_, rfl, ?_⟩
  · rw [view_of_find? hS (q := { q with idleId := w.attached + 1 }) (by simp [hf, hq])]
    rfl
  · exact view_congr (by simp [hf, hk]) (by simp [hp, Ne.symm hk]) rfl
  · exact quitView_congr rfl rfl (by simp [idleAddProcessTask, gIdleAdd])

theorem acts_gHashTableRemove (h : SourcesOk w) (hq : w.taskQueues.find? k = some q) :
    Acts w (gHashTableRemove w k) k ⟨none, q.shape.idleId, w.logOf k ++ freeCalls k q⟩
      w.runningTasks := by
  have hl := logOf_gHashTableRemove hq
  have hf := find?_gHashTableRemove w k
  have hs : (gHashTableRemove w k).sources = w.sources := by simp [gHashTableRemove, hq, prvFreeCb]
  have hv := view_of_find? h hq
  refine ⟨?_, ?_, fun k' hk => ?_, ?_, ?_⟩
  · refine h.congr hs (by simp [gHashTableRemove, hq, prvFreeCb]) (fun k' q' hk => ?_)
      fun k' hk => by simp [hl, hk]
    rw [hf] at hk
    split at hk
    · simp at hk
    · exact ⟨q', hk, rfl⟩
  · rw [view_of_find?_none (by simp [hf]), pendingOf_congr hs, hl, if_pos rfl,
      show (w.pendingOf k).length = q.shape.idleId from congrArg QueueView.pending hv]
  · exact view_congr (by simp [hf, hk]) (pendingOf_congr hs k') (by simp [hl, hk])
  · simp [gHashTableRemove, hq, prvFreeCb]
  · refine quitView_congr ?_ ?_ (by rw [hs])
    · simp [gHashTableRemove, hq, prvFreeCb]
    · simp [gHashTableRemove, hq, prvFreeCb, filter_quit_owned (ownedBy_freeCalls k q)]

/-- The pending dispatch of a queue goes with its waiting tasks. -/
theorem pendingOf_cancelWaiting (h : SourcesOk w) (hq : w.taskQueues.find? k = some q)
    (k' : TaskQueueKey) :
    (cancelWaiting w k q).pendingOf k' = if k' = k then [] else w.pendingOf k' := by
  unfold cancelWaiting
  split
  · next h0 =>
    rw [pendingOf_gSourceRemove]
    show (w.pendingOf k').filter _ = _
    split
    · next hk =>
      subst hk
      simp [h.linked k' q hq, h0]
    · next hk =>
      refine List.filter_eq_self.mpr fun i hi => ?_
      simpa using fun he : i = q.idleId => h.owner hq h0 hk (he ▸ hi)
  · next h0 =>
    show w.pendingOf k' = _
    split
    · next hk =>
      subst hk
      simp [h.linked k' q hq, not_not.mp h0]
    · rfl

/-- The waiting tasks go, and the pending dispatch with them. -/
theorem acts_cancelWaiting (h : SourcesOk w) (hq : w.taskQueues.find? k = some q) :
    Acts w (cancelWaiting w k q) k ⟨some q.drain, 0, w.logOf k ++ cancelAndFreeCalls k q⟩
      w.runningTasks := by
  have hl := logOf_cancelWaiting w k q
  have hf := find?_cancelWaiting w k q
  have hp := pendingOf_cancelWaiting h hq
  have hsub : (cancelWaiting w k q).sources.Sublist w.sources := by
    unfold cancelWaiting
    split
    · exact List.filter_sublist
    · exact List.Sublist.refl _
  have ha : (cancelWaiting w k q).attached = w.attached := by
    unfold cancelWaiting
    split <;> rfl
  have hS : SourcesOk (cancelWaiting w k q) := by
    refine ⟨h.nodup.sublist (hsub.map _), fun s hs => ha ▸ h.bound s (hsub.subset hs),
      fun k' q' hk => ?_, fun k' hk => ?_⟩
    · rw [hf] at hk
      rw [hp]
      split at hk
      · next hkk =>
        obtain rfl : q.drain = q' := by simpa [hq] using hk
        rw [if_pos hkk]
        rfl
      · next hkk => rw [if_neg hkk, h.linked k' q' hk]
    · rw [hl]
      refine List.append_ne_nil_of_left_ne_nil (h.known k' ?_) _
      rw [hf, hp] at hk
      by_cases hkk : k' = k
      · exact Or.inl ⟨q, hkk ▸ hq⟩
      · simpa [hkk] using hk
  refine ⟨hS, ?_, fun k' hk => ?_, cancelWaiting_runningTasks w k q, ?_⟩
  · rw [view_of_find? hS (find?_cancelWaiting_self hq), hl, if_pos rfl]
    rfl
  · exact view_congr (by simp [hf, hk]) (by simp [hp, hk]) (by simp [hl, hk])
  · have hlog : (cancelWaiting w k q).log = w.log ++ cancelAndFreeCalls k q := by
      unfold cancelWaiting
      split <;> rfl
    refine quitView_congr (cancelWaiting_quitting w k q) ?_ ?_
    · rw [hlog, List.filter_append, filter_quit_owned (ownedBy_cancelAndFreeCalls k q),
        List.append_nil]
    · unfold cancelWaiting
      split
      · next h0 =>
        show (w.sources.filter _).filter _ = _
        rw [List.filter_filter]
        refine List.filter_congr fun s hs => ?_
        have : s.2 = .onQuitCb → s.1 ≠ q.idleId := fun h2 h1 =>
          h.owner_quit hq h0 (h1 ▸ h2 ▸ hs)
        by_cases h2 : s.2 = .onQuitCb <;> simp [h2]
        exact this h2
      · rfl

theorem acts_deleteCurrentTask (h : SourcesOk w) (hq : w.taskQueues.find? k = some q) :
    Acts w (deleteCurrentTask w k q) k
      ⟨some { q.shape with currentTask := none }, q.shape.idleId, w.logOf k ++ q.deleteCurrent k⟩
      (guintPred w.runningTasks) := by
  have hl := logOf_deleteCurrentTask w k q
  have hf := find?_deleteCurrentTask hq
  have hs : (deleteCurrentTask w k q).sources = w.sources := by
    unfold deleteCurrentTask
    split <;> rfl
  have hS : SourcesOk (deleteCurrentTask w k q) := by
    refine h.congr hs ?_ (fun k' q' hk => ?_) fun k' hk => by simp [hl, hk]
    · unfold deleteCurrentTask
      split <;> rfl
    · rw [hf] at hk
      split at hk
      · next hkk =>
        obtain rfl : { q with currentTask := none } = q' := by simpa using hk
        exact ⟨q, hkk ▸ hq, rfl⟩
      · exact ⟨q', hk, rfl⟩
  refine ⟨hS, ?_, fun k' hk => ?_, deleteCurrentTask_runningTasks w k q, ?_⟩
  · rw [view_of_find? hS (q := { q with currentTask := none }) (by simp [hf]), hl, if_pos rfl]
    rfl
  · exact view_congr (by simp [hf, hk]) (pendingOf_congr hs k') (by simp [hl, hk])
  · refine quitView_congr (deleteCurrentTask_quitting w k q) ?_ (by rw [hs])
    unfold deleteCurrentTask
    split
    · simp [Event.key]
    · rfl

end DleynaCore
