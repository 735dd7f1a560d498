import DleynaCore.TaskProcessor.Proofs.CompletionProofs
import DleynaCore.TaskProcessor.Proofs.TaskEventsProofs

/-!
# The counter of running tasks

As long as the processor does not quit, `running_tasks` is the number of tasks in flight, as far as a
`guint` can tell.
-/

namespace DleynaCore

open JobQueue

variable {w w' : World} {k : TaskQueueKey} {q : TaskQueue} {ops : List Op} {t : TaskAtom}

/-- The tasks that a request completes. -/
def Request.finishes (q : TaskQueue) : Request → List TaskAtom
  | .complete t | .lastComplete t => [t]
  | .cancel sync => if q.completesOnCancel sync = true then q.currentTask.toList else []
  | .quitCancel sync => q.currentTask.toList.filter sync
  | _ => []

theorem flights_cancelCb (u : Gpointer) : Flights k [.cancelCb k t u] [] := by
  simp [Flights, processedTasks, completedTasks, jobEvents, jobEvent, List.filterMap_cons]

theorem Gone.finishes {r : Request} {es : List Event} (h : Gone k q r es) :
    completedTasks k es = r.finishes q := by
  have hcaf := flights_cancelAndFreeCalls (k := k) (q := q)
  cases h with
  | start _ _ _ | removeMarked _ _ _ | drop => exact flights_freeCalls.2
  | drained hc hreq =>
    rw [(hcaf.append flights_freeCalls).2]
    rcases hreq with ⟨sync, rfl⟩ | ⟨⟨sync, rfl | rfl⟩, -⟩ <;> simp [Request.finishes, hc]
  | @completed _ sync t hc hs hreq =>
    rw [((hcaf.append (flights_cancelCompleteCalls t)).append flights_freeCalls).2]
    rcases hreq with rfl | ⟨rfl, hcan⟩
    · simp [Request.finishes, hc, hs]
    · simp [Request.finishes, TaskQueue.completesOnCancel, hc, hs, hcan]
  | left hc hs =>
    rw [((hcaf.append (flights_cancelCb _)).append flights_freeCalls).2]
    simp [Request.finishes, hc, hs]
  | complete _ | lastComplete => exact ((flights_completed _).append flights_freeCalls).2

theorem Kept.finishes {q' : TaskQueue} {r : Request} {es : List Event} (h : Kept k q r q' es) :
    completedTasks k es = r.finishes q := by
  have hcaf := flights_cancelAndFreeCalls (k := k) (q := q)
  cases h with
  | start | startWaiting _ _ _ | removeDeferred _ | removeMarked _ _ | setFinally | setUserData => rfl
  | addTask _ | addTaskStart _ _ _ | dispatch _ =>
    simp [completedTasks, jobEvents, jobEvent, Request.finishes, List.filterMap_cons]
  | cancelMarked hcan => simp [Request.finishes, TaskQueue.completesOnCancel, hcan, completedTasks]
  | cancelIdle hc _ =>
    rw [hcaf.2]
    simp [Request.finishes, hc]
  | cancelRunning hc hs =>
    rw [(hcaf.append (flights_cancelCb _)).2]
    simp [Request.finishes, TaskQueue.completesOnCancel, hc, hs]
  | cancelCompleted hcan hc hs _ _ =>
    rw [(hcaf.append (flights_cancelCompleteCalls _)).2]
    simp [Request.finishes, TaskQueue.completesOnCancel, hc, hs, hcan]
  | removeRunning _ _ => exact (hcaf.append (flights_cancelCb _)).2
  | complete _ _ _ | completeNext _ _ => exact (flights_completed _).2

theorem serve_finishes {r : Request} {o : Option TaskQueue} {es : List Event}
    (hs : q.serve k r = .ok (o, es)) : completedTasks k es = r.finishes q := by
  cases answered_of_serve hs with
  | gone h => exact h.finishes
  | kept h => exact h.finishes

/-- The tasks of a queue that a step completes. -/
def finishedBy (w : World) (op : Op) (k : TaskQueueKey) : List TaskAtom :=
  match w.taskQueues.find? k, effect w op k with
  | some queue, some r => r.finishes queue
  | _, _ => []

theorem completedTasks_step {op : Op} {es : List Event} (hI : Inv w) (hg : Guard w op)
    (hs : step w op = .ok w') (hl : w'.log = w.log ++ es) (k : TaskQueueKey) :
    completedTasks k es = finishedBy w op k := by
  have hfil : completedTasks k (es.filter fun e => e.key = some k) = completedTasks k es := by
    simp [completedTasks, jobEvents_filter]
  rcases step_events hI hg hs hl k with ⟨hnone, h⟩ | ⟨q, r, o, hq, he, hsv⟩
  · have hnil : completedTasks k es = [] := by
      refine List.filterMap_eq_nil_iff.mpr fun f hf => ?_
      obtain ⟨e, hm, hj⟩ := List.mem_filterMap.mp hf
      obtain ⟨flags, rfl⟩ := h e hm (task_of_jobEvent hj).2
      simp [jobEvent] at hj
    rw [hnil]
    rcases hnone with hq | he
    · simp [finishedBy, hq]
    · cases w.taskQueues.find? k <;> simp [finishedBy, he]
  · rw [← hfil, serve_finishes hsv]
    simp only [finishedBy, hq, he]
    cases r <;> rfl

theorem finishedBy_nil {op : Op} (h : ∀ r, effect w op k = some r → ∀ q, r.finishes q = []) :
    finishedBy w op k = [] := by
  unfold finishedBy
  split
  · next he => exact h _ he _
  · rfl

/-! ## The number of tasks in flight -/

/-- What a step other than a dispatch does to the tasks in flight. -/
theorem inFlight_step {op : Op} (hI : Inv w) (hg : Guard w op) (hs : step w op = .ok w')
    (hop : op ≠ .dispatch k) :
    InFlight w'.log k t ↔ InFlight w.log k t ∧ t ∉ finishedBy w op k := by
  obtain ⟨es, hl⟩ := extends_step hs
  rw [inFlight_append hI hg hs hl.symm hop, ← completedTasks_step hI hg hs hl.symm k,
    mem_completedTasks_iff]

theorem length_inFlight_same (hI : Inv w) (hI' : Inv w')
    (h : ∀ k t, InFlight w'.log k t ↔ InFlight w.log k t) :
    (inFlightTasks w'.log).length = (inFlightTasks w.log).length := by
  refine ((List.perm_ext_iff_of_nodup hI'.inFlightTasks_nodup
    hI.inFlightTasks_nodup).mpr fun x => ?_).length_eq
  exact mem_inFlightTasks.trans ((h x.1 x.2).trans mem_inFlightTasks.symm)

/-- One task more. -/
theorem length_inFlight_cons (hI : Inv w) (hI' : Inv w') {k : TaskQueueKey} {t : TaskAtom}
    (hnew : ¬ InFlight w.log k t)
    (h : ∀ k' t', InFlight w'.log k' t' ↔ InFlight w.log k' t' ∨ k' = k ∧ t' = t) :
    (inFlightTasks w'.log).length = (inFlightTasks w.log).length + 1 := by
  have hnd : ((k, t) :: inFlightTasks w.log).Nodup :=
    List.nodup_cons.mpr ⟨fun hm => hnew (mem_inFlightTasks.mp hm), hI.inFlightTasks_nodup⟩
  refine ((List.perm_ext_iff_of_nodup hI'.inFlightTasks_nodup hnd).mpr fun x => ?_).length_eq
  obtain ⟨k', t'⟩ := x
  rw [mem_inFlightTasks, h, List.mem_cons, mem_inFlightTasks, Prod.mk.injEq, or_comm]

theorem guintSucc_mod (n : Nat) : guintSucc (n % guintSize) = (n + 1) % guintSize := by
  unfold guintSucc guintSize
  omega

theorem guintPred_mod (n : Nat) : guintPred ((n + 1) % guintSize) = n % guintSize := by
  unfold guintPred guintSize
  omega

theorem guintPred_guintSucc {n : Nat} (h : n < guintSize) : guintPred (guintSucc n) = n := by
  rw [guintSucc, guintPred_mod, Nat.mod_eq_of_lt h]

theorem guintSucc_lt (n : Nat) : guintSucc n < guintSize := Nat.mod_lt _ (by decide)

theorem guintPred_lt (n : Nat) : guintPred n < guintSize := Nat.mod_lt _ (by decide)

theorem quitRunning_lt {sync : TaskAtom → Bool} {n : Nat} (h : n < guintSize)
    (es : List (TaskQueueKey × TaskQueue)) : quitRunning sync n es < guintSize := by
  induction es generalizing n with
  | nil => exact h
  | cons e es ih =>
    unfold quitRunning
    split
    · split
      · exact guintPred_lt n
      · exact ih (guintPred_lt n)
    · exact ih h

/-- The counter is a `guint`. -/
theorem runningTasks_lt {P : World → Op → Prop} (h : processor.Run P ops w) :
    w.runningTasks < guintSize := by
  refine h.invariant (I := fun w => w.runningTasks < guintSize) (by decide) ?_
  intro _ w op w' hrun hlt hg _ hs
  rw [((inv_run hrun).simulates hg hs).running]
  cases op with
  | dispatch queueId => exact guintSucc_lt _
  | taskCompleted queueId task => exact guintPred_lt _
  | cancelQueue queueId sync =>
    simp only [runningAfter]
    split
    · exact guintPred_lt _
    · exact hlt
  | setQuitting sync => exact quitRunning_lt hlt _
  | _ => exact hlt

/-- The counter agrees with the tasks in flight. -/
def Counts (w : World) : Prop := w.runningTasks = (inFlightTasks w.log).length % guintSize

/-- A step that completes no task and starts none. -/
theorem counts_same {op : Op} (hI : Inv w) (hC : Counts w) (hg : Guard w op)
    (hs : step w op = .ok w') (hop : ∀ k, op ≠ .dispatch k) (hf : ∀ k, finishedBy w op k = [])
    (hr : runningAfter w op = w.runningTasks) : Counts w' := by
  unfold Counts
  rw [(hI.simulates hg hs).running, hr, hC,
    length_inFlight_same hI (hI.step hg hs) fun k t => by
      rw [inFlight_step hI hg hs (hop k), hf k]
      simp]

/-- A step that completes one task. -/
theorem counts_finished {op : Op} {k : TaskQueueKey} {t : TaskAtom} (hI : Inv w) (hC : Counts w)
    (hg : Guard w op) (hs : step w op = .ok w') (hop : ∀ k, op ≠ .dispatch k)
    (ht : InFlight w.log k t) (hf : ∀ k' t', t' ∈ finishedBy w op k' ↔ k' = k ∧ t' = t)
    (hr : runningAfter w op = guintPred w.runningTasks) : Counts w' := by
  have hI' := hI.step hg hs
  have hlen : (inFlightTasks w.log).length = (inFlightTasks w'.log).length + 1 := by
    refine length_inFlight_cons hI' hI (k := k) (t := t) (fun h => ?_) fun k' t' => ?_
    · exact ((inFlight_step hI hg hs (hop k)).mp h).2 ((hf k t).mpr ⟨rfl, rfl⟩)
    · rw [inFlight_step hI hg hs (hop k'), hf]
      constructor
      · intro h
        by_cases hkt : k' = k ∧ t' = t
        · exact Or.inr hkt
        · exact Or.inl ⟨h, hkt⟩
      · rintro (h | ⟨rfl, rfl⟩)
        · exact h.1
        · exact ht
  unfold Counts
  rw [(hI.simulates hg hs).running, hr, hC, hlen, guintPred_mod]

theorem counts_step {op : Op} (hI : Inv w) (hqt : w.quitting = false) (hC : Counts w)
    (hg : Guard w op) (hop : NeverQuits w op) (hs : step w op = .ok w') : Counts w' := by
  have hl : w.lastTask = false := by simp [World.lastTask, hqt]
  cases op with
  | dispatch queueId =>
    have hI' := hI.step hg hs
    obtain ⟨q, t, -, hlog, -⟩ := dispatch_step hs
    obtain ⟨hnew, hiff⟩ := inFlight_dispatched hI hI' hlog
    unfold Counts
    rw [(hI.simulates hg hs).running, length_inFlight_cons hI hI' hnew hiff, runningAfter, hC,
      guintSucc_mod]
  | taskCompleted queueId task =>
    refine counts_finished hI hC hg hs (by simp) hg (fun k' t' => ?_) rfl
    have hq : ∃ q, w.taskQueues.find? queueId = some q := by
      cases hq : w.taskQueues.find? queueId with
      | none => simp [step, dleynaTaskQueueTaskCompleted, hq] at hs
      | some q => exact ⟨q, rfl⟩
    obtain ⟨q, hq⟩ := hq
    by_cases hk : k' = queueId
    · subst hk
      simp [finishedBy, effect, hl, hq, Request.finishes]
    · cases hq' : w.taskQueues.find? k' <;> simp [finishedBy, effect, hl, hq', hk]
  | cancelQueue queueId sync =>
    have heff : ∀ k', effect w (.cancelQueue queueId sync) k' =
        if k' = queueId then some (.cancel sync) else none := fun k' => by simp [effect, hl]
    cases hco : w.completesOnCancel sync queueId with
    | false =>
      refine counts_same hI hC hg hs (by simp) (fun k' => ?_) (by simp [runningAfter, hco])
      cases hq : w.taskQueues.find? k' with
      | none => simp [finishedBy, hq]
      | some q =>
        by_cases hk : k' = queueId
        · subst hk
          rw [completesOnCancel_of_find? sync hq] at hco
          simp [finishedBy, heff, hq, Request.finishes, hco]
        · simp [finishedBy, heff, hq, hk]
    | true =>
      obtain ⟨q, hq, hcompletes⟩ := find?_of_completesOnCancel hco
      obtain ⟨-, t, hc, -⟩ := completesOnCancel_iff.mp hcompletes
      refine counts_finished hI hC hg hs (by simp) (hI.inFlight hq hc) (fun k' t' => ?_)
        (by simp [runningAfter, hco])
      by_cases hk : k' = queueId
      · subst hk
        simp [finishedBy, heff, hq, Request.finishes, hcompletes, hc]
      · cases hq' : w.taskQueues.find? k' <;> simp [finishedBy, heff, hq', hk]
  | setQuitting sync => exact hop.elim
  | dispatchQuit | rehash taskQueues =>
    exact counts_same hI hC hg hs (by simp)
      (fun k' => finishedBy_nil fun r he => by simp [effect] at he) rfl
  | addQueue key flags | addTask queueId task | start queueId | setFinally queueId finallyCb
  | setUserData queueId userData | removeQueuesForSource source sync
  | removeQueuesForSink sink sync =>
    refine counts_same hI hC hg hs (by simp) (fun k' => finishedBy_nil fun r he q => ?_) rfl
    cases asked_of_effect he
    rfl

theorem counts_new : Counts World.new := by
  simp [Counts, World.new, inFlightTasks, processedPairs]

/-- In every run without quitting, the counter agrees with the tasks in flight. -/
theorem counts_run (h : processor.Run NeverQuits ops w) : w.quitting = false ∧ Counts w := by
  refine h.invariant (I := fun w => w.quitting = false ∧ Counts w) ⟨rfl, counts_new⟩ ?_
  rintro _ w op w' hrun ⟨hqt, hC⟩ hg hop hs
  have hI := inv_run hrun
  refine ⟨?_, counts_step hI hqt hC hg hop hs⟩
  rw [quitting_step hI hg hs fun sync he => by subst he; exact hop]
  exact hqt

end DleynaCore
