import DleynaCore.TaskProcessor.Proofs.CancelQueueProofs
import DleynaCore.TaskProcessor.Proofs.QuitTraversalProofs

/-!
# What a bulk removal achieves

A bulk removal visits every queue. The visit of a queue that it removes goes wrong in three ways: the
cancel removes the queue, which is then used again, because the queue is an `AUTO_REMOVE` one or
because its running task completes; or the queue is marked, and its waiting tasks are thrown away.
-/

namespace DleynaCore

variable {w w' w1 : World} {k k' : TaskQueueKey} {q q' : TaskQueue} {t : TaskAtom} {ops : List Op}
  {es : List Event} {r : Request} {v v' : QueueView} {sync : TaskAtom → Bool}
  {hit : TaskQueueKey → Bool} {b : Bool}

/-! ## Queues that are kept for a task -/

theorem Kept.deferRemove (h : Kept k q r q' es) (hd : q.deferRemove = true) :
    q'.deferRemove = true := by
  cases h with
  | removeMarked _ _ | removeRunning _ _ => rfl
  | startWaiting hd' _ _ | addTaskStart hd' _ _ | cancelCompleted _ _ _ hd' _ | complete hd' _ _
  | completeNext hd' _ => exact absurd (hd.symm.trans hd') (by simp)
  | _ => exact hd

/-- The queue is known, and waits for its running task if it is still registered. -/
structure QueueView.Deferred (v : QueueView) : Prop where
  known : v.log ≠ []
  deferred : ∀ q, v.queue = some q → q.deferRemove = true

theorem serve?_deferred {r : Option Request} (h : v.Deferred) (hf : ∀ r', r = some r' → r'.Fits k v)
    (hs : v.serve? k r = .ok v') : v'.Deferred := by
  cases served_of_serve? hs with
  | idle | absent _ _ => exact h
  | added _ => exact absurd (hf _ rfl) h.known
  | gone _ _ =>
    exact ⟨List.append_ne_nil_of_left_ne_nil h.known _, fun q hq => absurd hq (by simp [QueueView.put])⟩
  | kept hq hk =>
    refine ⟨List.append_ne_nil_of_left_ne_nil h.known _, fun q1 hq1 => ?_⟩
    obtain rfl := Option.some.inj hq1
    exact hk.deferRemove (h.deferred _ hq)

/-- The completion of its running task removes a queue that waits for it. -/
theorem completed_deferred (hI : Inv w) (hd : (w.view k).Deferred)
    (hg : Guard w (.taskCompleted k t)) (hs : step w (.taskCompleted k t) = .ok w') :
    w'.taskQueues.find? k = none := by
  have hv := (hI.simulates hg hs).view k
  have hr : effect w (.taskCompleted k t) k = some (.lastComplete t) ∨
      effect w (.taskCompleted k t) k = some (.complete t) := by
    simp only [effect, if_true]
    split
    · exact Or.inl rfl
    · exact Or.inr rfl
  have hnone : (w'.view k).queue = none := by
    generalize w'.view k = v' at hv
    rcases hr with hr | hr <;> rw [hr] at hv
    · cases served_of_serve? hv with
      | absent hq _ => exact hq
      | gone _ _ => rfl
      | kept hq hk => cases hk
    · cases served_of_serve? hv with
      | absent hq _ => exact hq
      | gone _ _ => rfl
      | kept hq hk =>
        cases hk with
        | complete hd' _ _ | completeNext hd' _ =>
          exact absurd ((hd.deferred _ hq).symm.trans hd') (by simp)
  simpa [World.view] using hnone

theorem deferred_path (h : processor.Run Any ops w) (hd : (w.view k).Deferred)
    (hp : processor.Path Any w w') : (w'.view k).Deferred :=
  hp.invariant (I := fun w => (w.view k).Deferred) h hd fun _ _ _ _ hrun hD hg _ hs =>
    serve?_deferred hD (fun _ he => fits_of_guard hg he) (((inv_run hrun).simulates hg hs).view k)

/-! ## One queue -/

/-- What a bulk removal does to a queue. -/
inductive RemovedTo (k : TaskQueueKey) (q : TaskQueue) (v v' : QueueView) : Prop where
  | gone (hc : q.currentTask = none) (hq : v'.queue = none)
      (hl : q.cancelled = true ∧ v'.log = v.log ++ freeCalls k q ∨
        v'.log = v.log ++ (cancelAndFreeCalls k q ++ freeCalls k q.drain))
  | kept {q' : TaskQueue} (hc : q.currentTask ≠ none) (hq : v'.queue = some q')
      (hcur : q'.currentTask = q.currentTask) (hd : q'.deferRemove = true)
      (hl : q.cancelled = true ∧ q'.tasks = q.tasks ∧ v'.log = v.log ∨
        q'.tasks = [] ∧ ∃ es, v'.log = v.log ++ (cancelAndFreeCalls k q ++ es))

theorem serve_removed (hq : v.queue = some q) (hok : QueueOk k q v.log)
    (hs : v.serve k (.remove sync) = .ok v') : RemovedTo k q v v' := by
  cases served_of_serve hs with
  | absent hn _ => simp [hq] at hn
  | @gone q0 _ _ hq0 hg =>
    obtain rfl : q = q0 := Option.some.inj (hq.symm.trans hq0)
    cases hg with
    | removeMarked _ hc hcan => exact .gone hc rfl (Or.inl ⟨hcan, rfl⟩)
    | drained hc _ => exact .gone hc rfl (Or.inr rfl)
    | completed _ _ hr => rcases hr with hr | ⟨hr, -⟩ <;> cases hr
  | @kept q0 q' _ _ hq0 hk =>
    obtain rfl : q = q0 := Option.some.inj (hq.symm.trans hq0)
    cases hk with
    | removeDeferred hd =>
      obtain ⟨hc, hcan⟩ := hok.deferred hd
      exact .kept hc rfl rfl hd (Or.inl ⟨hcan, rfl, by simp [QueueView.put]⟩)
    | removeMarked hc hcan =>
      exact .kept (by simp [hc]) rfl rfl rfl (Or.inl ⟨hcan, rfl, by simp [QueueView.put]⟩)
    | removeRunning hc _ => exact .kept (by simp [hc]) rfl rfl rfl (Or.inr ⟨rfl, _, rfl⟩)

/-- No cancel callback is called for a marked queue. -/
theorem serve_marked (hq : v.queue = some q) (hc : q.cancelled = true)
    (hs : v.serve k (.remove sync) = .ok v') :
    v'.log = v.log ∨ v'.log = v.log ++ freeCalls k q := by
  simp only [QueueView.serve, hq, TaskQueue.serve] at hs
  by_cases hd : q.deferRemove = true
  · rw [if_pos hd] at hs
    obtain rfl := Except.ok.inj hs
    exact Or.inl (by simp [QueueView.put])
  · rw [if_neg hd] at hs
    cases hcur : q.currentTask with
    | some t =>
      simp only [hcur, hc, if_true] at hs
      obtain rfl := Except.ok.inj hs
      exact Or.inl (by simp [QueueView.put])
    | none =>
      simp only [hcur, hc, if_true] at hs
      obtain rfl := Except.ok.inj hs
      exact Or.inr rfl

/-- A queue that is not marked with tasks waiting is removed. -/
theorem removalEffective (h : processor.Run Any ops w) {ops' : List Op}
    (h' : processor.Run Any ops' w') (hq : w.taskQueues.find? k = some q)
    (hrem : q.cancelled = true → q.tasks = [])
    (hr : RemovedTo k q.shape (w.view k) (w'.view k)) : RemovalEffective k q w' := by
  have hI := inv_run h
  have hunf : (w.logOf k).countP (Event.isFinally k) = 0 :=
    unfinished_run h k (by simp [World.view, hq])
  constructor
  · intro t ht
    have hmarked : q.cancelled ≠ true := fun hc => by simp [hrem hc] at ht
    cases hr with
    | gone _ _ hl =>
      rcases hl with ⟨hc, -⟩ | hl
      · exact absurd hc hmarked
      · exact cancelledOnce_of_drained hI hq ht h' hl
    | kept _ _ _ _ hl =>
      rcases hl with ⟨hc, -⟩ | ⟨-, es, hl⟩
      · exact absurd hc hmarked
      · exact cancelledOnce_of_drained hI hq ht h' hl
  · intro hc
    cases hr with
    | gone _ hn hl =>
      refine ⟨by simpa [World.view] using hn, ?_⟩
      rw [← countP_isFinally_logOf]
      rcases hl with ⟨-, hl⟩ | hl
      · have hl : w'.logOf k = w.logOf k ++ freeCalls k q := hl
        rw [hl, List.countP_append, hunf, countP_isFinally_freeCalls, Nat.zero_add]
      · have hl : w'.logOf k = w.logOf k ++ (cancelAndFreeCalls k q ++ freeCalls k q.drain) := hl
        rw [hl, List.countP_append, List.countP_append, hunf, countP_isFinally_cancelAndFreeCalls,
          countP_isFinally_freeCalls, Nat.zero_add, Nat.zero_add]
        rfl
    | kept hne _ _ _ _ => exact absurd hc hne
  · intro t ht
    cases hr with
    | gone hc _ _ => exact absurd (ht.symm.trans hc) (by simp)
    | @kept q1 _ hq1 hcur hd hl =>
      obtain ⟨q', hq', rfl⟩ := Option.map_eq_some_iff.mp hq1
      have htasks : q'.tasks = [] := by
        rcases hl with ⟨hc, hts, -⟩ | ⟨hts, -⟩
        · exact Eq.trans hts (hrem hc)
        · exact hts
      refine ⟨⟨q', hq', Eq.trans hcur ht, hd, htasks⟩, fun w1 w2 hp hf hs => ?_⟩
      have hdef : (w'.view k).Deferred := by
        refine ⟨(inv_run h').sources.known k (Or.inl ⟨q', hq'⟩), fun q2 hq2 => ?_⟩
        obtain rfl := Option.some.inj (hq1.symm.trans hq2)
        exact hd
      obtain ⟨ops1, hrun1⟩ := hp.run h'
      exact completed_deferred (inv_run hrun1) (deferred_path h' hdef hp) hf hs

/-- A marked queue is left with its waiting tasks, or frees them without having cancelled them. -/
theorem tasks_of_removalEffective (h : processor.Run Any ops w)
    (hq : w.taskQueues.find? k = some q) (hc : q.cancelled = true)
    (hs : (w.view k).serve k (.remove sync) = .ok (w'.view k)) (hE : RemovalEffective k q w') :
    q.tasks = [] := by
  refine List.eq_nil_iff_forall_not_mem.mpr fun t ht => ?_
  have hI := inv_run h
  have hvq : (w.view k).queue = some q.shape := by simp [World.view, hq]
  obtain ⟨u, hu⟩ := hE.waiting t ht
  have hm : Event.cancelCb k t u ∈ w'.logOf k := by
    have hm : Event.cancelCb k t u ∈ callsFor t w'.log := by simp [hu]
    exact List.mem_filter.mpr ⟨(List.mem_filter.mp hm).1, by simp [Event.key]⟩
  -- no cancel callback is called for a marked queue
  have hold : Event.cancelCb k t u ∈ w.logOf k := by
    rcases serve_marked hvq hc hs with hl | hl
    · have hl : w'.logOf k = w.logOf k := hl
      exact hl ▸ hm
    · have hm : Event.cancelCb k t u ∈ w.logOf k ++ freeCalls k q := hl ▸ hm
      exact (List.mem_append.mp hm).resolve_right cancelCb_notMem_freeCalls
  have hcalls : Event.cancelCb k t u ∈ callsFor t (w.logOf k) :=
    List.mem_filter.mpr ⟨hold, by simp [Event.cancels]⟩
  rw [callsFor_waiting hI hq ht] at hcalls
  simp at hcalls

/-! ## The traversal -/

theorem removable_marked (h : q.Removable sync) (hc : q.cancelled = true) : q.tasks = [] := by
  simpa [TaskQueue.Removable, hc] using h

theorem removable_shape : q.shape.Removable sync ↔ q.Removable sync := Iff.rfl

/-- A queue that can be removed answers a bulk removal. -/
theorem serve_remove_of_removable (k : TaskQueueKey) (h : q.Removable sync) :
    ∃ a, q.serve k (.remove sync) = .ok a := by
  unfold TaskQueue.Removable at h
  simp only [TaskQueue.serve]
  by_cases hd : q.deferRemove = true
  · rw [if_pos hd]
    exact ⟨_, rfl⟩
  · rw [if_neg hd]
    cases hc : q.cancelled <;> cases hcur : q.currentTask <;> simp_all

/-- A visit that does not fault leaves the other queues alone. -/
theorem unchanged_prvFreeQueueFor (hS : SourcesOk w)
    (h : prvFreeQueueFor hit sync w k = .ok (b, w')) (hk : k' ≠ k) : Unchanged k' w w' := by
  have hserve := (visited_prvFreeQueueFor hS h).2
  cases hq : w.taskQueues.find? k with
  | none => simp [prvFreeQueueFor, hq] at h
  | some q =>
    simp only [prvFreeQueueFor, hq] at h
    by_cases hh : (hit k && !q.deferRemove) = true
    · rw [if_pos hh] at h
      rw [Bool.and_eq_true, Bool.not_eq_true'] at hh
      set q1 : TaskQueue := { q with deferRemove := q.currentTask.isSome } with hq1
      -- a completion inside the cancel callback would have faulted
      have hco : q1.completesOnCancel sync = false := by
        obtain ⟨v, hv, -⟩ := hserve
        rw [if_pos hh.1] at hv
        obtain ⟨a, hsv⟩ := serve_of_view hq hv
        simp only [TaskQueue.completesOnCancel, hq1]
        cases hcan : q.cancelled with
        | true => rfl
        | false =>
          cases hcur : q.currentTask with
          | none => rfl
          | some t => exact (serve_remove_ok (q := q.shape) hh.2 hcan hsv).2 t hcur
      have hA := acts_setQueue hS hq q1 rfl
      have hf1 : (w.setQueue k q1).taskQueues.find? k = some q1 :=
        World.find?_setQueue_self hq q1
      cases hc : prvCancel sync (w.setQueue k q1) k with
      | error fault => simp [hc] at h
      | ok w2 =>
        have hu := (unchanged_setQueue w q1 hk).trans
          (unchanged_prvCancel hA.sources hf1 hco hc hk)
        simp only [hc] at h
        split at h
        · simp at h
        · obtain ⟨-, rfl⟩ := Prod.mk.inj (Except.ok.inj h)
          exact hu
    · rw [if_neg hh] at h
      obtain ⟨-, rfl⟩ := Prod.mk.inj (Except.ok.inj h)
      exact .refl k' w

theorem unchanged_removeQueues {ks : List TaskQueueKey} (hS : SourcesOk w)
    (h : gHashTableForeachRemove (prvFreeQueueFor hit sync) ks w = .ok w')
    (hk : hit k = false) : Unchanged k w w' := by
  induction ks generalizing w with
  | nil =>
    obtain rfl : w = w' := by simpa [gHashTableForeachRemove] using h
    exact .refl k w
  | cons k0 ks ih =>
    cases hf : prvFreeQueueFor hit sync w k0 with
    | error fault => simp [gHashTableForeachRemove, hf] at h
    | ok r =>
      obtain ⟨b, w1⟩ := r
      obtain ⟨w2, v, hw2, hA, -, hgo⟩ := foreachRemove_cons hS hf ks
      refine Unchanged.trans ?_ (ih hA.sources (hgo ▸ h))
      by_cases hkk : k = k0
      · -- the visit of a queue that is not to be removed
        subst hkk
        cases hq : w.taskQueues.find? k with
        | none => simp [prvFreeQueueFor, hq] at hf
        | some q =>
          simp only [prvFreeQueueFor, hq, hk, Bool.false_and, Bool.false_eq_true, if_false] at hf
          obtain ⟨rfl, rfl⟩ := Prod.mk.inj (Except.ok.inj hf)
          rcases hw2 with ⟨-, rfl⟩ | ⟨hb, -⟩
          · exact .refl k w2
          · simp at hb
      · have h1 := unchanged_prvFreeQueueFor hS hf hkk
        rcases hw2 with ⟨-, rfl⟩ | ⟨-, q, -, rfl⟩
        · exact h1
        · exact h1.trans (unchanged_erase w1 q hkk)

/-- A registered queue that a bulk removal serves can be removed, if it is removed as it should be. -/
theorem removable_of_effective (h : processor.Run Any ops w)
    (hq : w.taskQueues.find? k = some q)
    (hs : (w.view k).serve k (.remove sync) = .ok (w'.view k)) (hE : RemovalEffective k q w') :
    q.Removable sync := by
  unfold TaskQueue.Removable
  cases hc : q.cancelled with
  | true => exact tasks_of_removalEffective h hq hc hs hE
  | false =>
    have hd : q.deferRemove = false := by
      by_contra hd
      rw [Bool.not_eq_false] at hd
      have hcan : q.cancelled = true := (((inv_run h).queueOk hq).deferred hd).2
      simp [hc] at hcan
    obtain ⟨a, hsv⟩ := serve_of_view hq hs
    obtain ⟨hidle, hrun⟩ := serve_remove_ok (q := q.shape) hd hc hsv
    cases hcur : q.currentTask with
    | some t => exact hrun t hcur
    | none => exact hidle hcur

theorem removesEach_iff (op : Op) (h : processor.Run Any ops w) (hit : TaskQueueKey → Bool)
    (hg : Guard w op)
    (hop : step w op = gHashTableForeachRemove (prvFreeQueueFor hit sync) w.taskQueues.keys w) :
    RemovesEach hit w (step w op) ↔
      ∀ e ∈ w.taskQueues.entries, hit e.1 = true → e.2.Removable sync := by
  have hI := inv_run h
  have hserve : ∀ {w' k}, step w op = .ok w' → k ∈ w.taskQueues.keys → hit k = true →
      (w.view k).serve k (.remove sync) = .ok (w'.view k) := fun {w' k} hs hk hh => by
    have hv := (removeQueues_view (HashTable.keys_nodup _) hI.sources (hop ▸ hs)).2.2.2 k
    rwa [if_pos ⟨hk, hh⟩] at hv
  constructor
  · rintro ⟨w', hs, heach, -⟩ e he hh
    exact removable_of_effective h (HashTable.find?_eq_some.mpr he)
      (hserve hs (List.mem_map_of_mem he) hh) (heach e he hh)
  · intro hr
    obtain ⟨w', hw'⟩ := removeQueues_ok w.taskQueues.entries (HashTable.keys_nodup _) hI.sources
      (fun e he => by simp [World.view, HashTable.find?_eq_some.mpr he])
      fun e he hh => serve_remove_of_removable e.1 (removable_shape.mpr (hr e he hh))
    have hs : step w op = .ok w' := hop.trans hw'
    refine ⟨w', hs, fun e he hh => ?_, fun k hk => unchanged_removeQueues hI.sources hw' hk⟩
    have hq := HashTable.find?_eq_some.mpr he
    refine removalEffective h (h.snoc (a := op) hg trivial hs) hq (removable_marked (hr e he hh)) ?_
    exact serve_removed (by simp [World.view, hq]) (hI.queueOk hq)
      (hserve hs (List.mem_map_of_mem he) hh)

/-- Removing the queues of a source, and those of a sink, removes each once exactly if they all can
be removed. -/
theorem removeQueues_iff (h : processor.Run Any ops w) (sync : TaskAtom → Bool) :
    (∀ source, RemovesEach (fun k => source == k.source) w
        (step w (.removeQueuesForSource source sync)) ↔
      ∀ e ∈ w.taskQueues.entries, (source == e.1.source) = true → e.2.Removable sync) ∧
    ∀ sink, RemovesEach (fun k => sink == k.sink) w (step w (.removeQueuesForSink sink sync)) ↔
      ∀ e ∈ w.taskQueues.entries, (sink == e.1.sink) = true → e.2.Removable sync :=
  ⟨fun source => removesEach_iff (.removeQueuesForSource source sync) h _ trivial rfl,
    fun sink => removesEach_iff (.removeQueuesForSink sink sync) h _ trivial rfl⟩

/-- Two queues of one source, with a running and a waiting task. -/
def twoQueues : List Op :=
  [.addQueue ⟨1, "a", "b"⟩ flagAutoStart, .addQueue ⟨2, "a", "c"⟩ 0, .addTask ⟨1, "a", "b"⟩ 7,
    .dispatch ⟨1, "a", "b"⟩, .addTask ⟨2, "a", "c"⟩ 8]

theorem removeQueues_twoQueues :
    (∀ source, RemovesEach (fun k => source == k.source) (processor.final Any twoQueues)
        (step (processor.final Any twoQueues) (.removeQueuesForSource source fun _ => false)) ↔
      ∀ e ∈ (processor.final Any twoQueues).taskQueues.entries, (source == e.1.source) = true →
        e.2.Removable fun _ => false) ∧
    ∀ sink, RemovesEach (fun k => sink == k.sink) (processor.final Any twoQueues)
        (step (processor.final Any twoQueues) (.removeQueuesForSink sink fun _ => false)) ↔
      ∀ e ∈ (processor.final Any twoQueues).taskQueues.entries, (sink == e.1.sink) = true →
        e.2.Removable fun _ => false :=
  removeQueues_iff (System.run_final (by decide)) _

/-- The removal of an `AUTO_REMOVE` queue without tasks uses the queue after the cancel freed it. -/
theorem removedTwice_reachable :
    processor.Run Any [.addQueue ⟨1, "a", "b"⟩ flagAutoRemove]
        (processor.final Any [.addQueue ⟨1, "a", "b"⟩ flagAutoRemove]) ∧
      step (processor.final Any [.addQueue ⟨1, "a", "b"⟩ flagAutoRemove])
        (.removeQueuesForSource "a" fun _ => false) = .error .useAfterFree ∧
      ¬ RemovesEach (fun k => "a" == k.source)
        (processor.final Any [.addQueue ⟨1, "a", "b"⟩ flagAutoRemove])
        (step (processor.final Any [.addQueue ⟨1, "a", "b"⟩ flagAutoRemove])
          (.removeQueuesForSource "a" fun _ => false)) := by
  have hs : step (processor.final Any [.addQueue ⟨1, "a", "b"⟩ flagAutoRemove])
      (.removeQueuesForSource "a" fun _ => false) = .error .useAfterFree := by rfl
  refine ⟨System.run_final (by decide), hs, ?_⟩
  rintro ⟨w', hw', -⟩
  rw [hs] at hw'
  cases hw'

end DleynaCore
