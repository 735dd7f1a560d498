import DleynaCore.TaskProcessor.Properties
import DleynaCore.TaskProcessor.Proofs.QueuesProofs

/-!
# Pending dispatches and the queues they are for

`prv_free_cb` does not remove the idle source of the queue that it frees, so a dispatch outlives its
queue unless the queue was cancelled on the way out; and `prv_cancel_only` does nothing for a queue
that is already marked. Under the condition that no step hits this gap, every pending dispatch finds
its queue.
-/

namespace DleynaCore

variable {w w' : World} {k : TaskQueueKey} {q : TaskQueue} {ops : List Op}

/-- The request does not remove the queue with its dispatch pending. -/
def Request.KeepsDispatch (v : QueueView) : Request → Prop
  | .drop => ∀ q, v.queue = some q → q.idleId = 0
  | .remove _ | .quitCancel _ => ∀ q, v.queue = some q → q.cancelled = true → q.idleId = 0
  | _ => True

theorem keepsDispatch_of_step {op : Op} {r : Request} (hc : KeepsDispatches w op)
    (he : effect w op k = some r) : r.KeepsDispatch (w.view k) := by
  cases asked_of_effect he with
  | removeForSource _ | removeForSink _ =>
    intro q hq hcan
    obtain ⟨q0, hm, -, rfl⟩ := entry_of_view hq
    exact (shape_idleId_eq_zero q0).mpr (hc _ hm rfl hcan)
  | reached _ _ hcan =>
    intro q hq hcan'
    obtain ⟨q0, -, h0, rfl⟩ := entry_of_view hq
    rw [isCancelled_of_find? h0] at hcan
    exact absurd hcan' (by simp [hcan])
  | passed sync hr =>
    intro q hq
    obtain ⟨q0, hm, h0, rfl⟩ := entry_of_view hq
    by_contra hne
    have hi : q0.idleId ≠ 0 := fun hz => hne ((shape_idleId_eq_zero q0).mpr hz)
    obtain ⟨hcan, hreach⟩ := hc _ hm hi
    exact hr ⟨hreach, by rw [isCancelled_of_find? h0]; exact hcan⟩
  | cancelLast _ hl =>
    intro q hq _
    obtain ⟨q0, hm, -, rfl⟩ := entry_of_view hq
    exact (shape_idleId_eq_zero q0).mpr (hc hl _ hm)
  | cancelOther _ _ hl | completeOther _ _ hl =>
    intro q hq
    obtain ⟨q0, hm, -, rfl⟩ := entry_of_view hq
    exact (shape_idleId_eq_zero q0).mpr (hc hl _ hm)
  | addQueue _ | addTask _ | start | cancel _ _ | complete _ _ | completeLast _ _ | setFinally _
  | setUserData _ | dispatch => trivial

/-- A queue that is not in the table has no dispatch pending. -/
def QueueView.Settled (v : QueueView) : Prop := v.queue = none → v.pending = 0

/-- A registered queue that goes takes its pending dispatch with it. -/
theorem gone_settled {v : QueueView} {r : Request} {es : List Event} (hok : QueueOk k q v.log)
    (hp : v.pending = q.idleId) (hv : v.queue = some q) (hf : r.Fits k v) (hr : r.KeepsDispatch v)
    (hg : Gone k q r es) : q.stops r = true ∨ v.pending = 0 := by
  rw [hp]
  cases hg with
  | start hd ht ha => exact Or.inr (by_contra fun hi => (hok.idle hi).2 ht)
  | removeMarked hd hc hcan => exact Or.inr (hr q hv hcan)
  | drop => exact Or.inr (hr q hv)
  | drained hc hreq =>
    rcases hreq with ⟨sync, rfl⟩ | ⟨⟨sync, rfl | rfl⟩, hcan⟩
    · cases hcan : q.cancelled with
      | false => exact Or.inl (by simp [TaskQueue.stops, hcan])
      | true => exact Or.inr (hr q hv hcan)
    · exact Or.inl (by simp [TaskQueue.stops, hcan])
    · exact Or.inl (by simp [TaskQueue.stops, hcan])
  | completed hc _ _ => exact Or.inr (hok.idle_of_running hc)
  | left hc _ => exact Or.inr (hok.idle_of_running hc)
  | complete _ => exact Or.inr (hok.idle_of_running (hok.current_of_inFlight hf))
  | lastComplete => exact Or.inr (hok.idle_of_running (hok.current_of_inFlight hf))

theorem serve_settled {v v' : QueueView} {r : Option Request} (hv : v.Ok k) (hset : v.Settled)
    (hf : ∀ r', r = some r' → r'.Fits k v) (hr : ∀ r', r = some r' → r'.KeepsDispatch v)
    (hs : v.serve? k r = .ok v') : v'.Settled := by
  intro hn
  rcases gone_of_serve hs hn with rfl | ⟨q, r, es, hq, rfl, hg, rfl⟩
  · exact hset hn
  · obtain ⟨hp, hok⟩ := hv.of_some hq
    rcases gone_settled hok hp hq (hf r rfl) (hr r rfl) hg with hst | hp0
    · simp [QueueView.put, hst]
    · simp [QueueView.put, hp0]

/-- One step that meets the condition. -/
theorem settled_step {op : Op} (hI : Inv w) (hset : ∀ k, (w.view k).Settled) (hg : Guard w op)
    (hc : KeepsDispatches w op) (hs : step w op = .ok w') (k : TaskQueueKey) :
    (w'.view k).Settled :=
  serve_settled (hI.queues k) (hset k) (fun _ he => fits_of_guard hg he)
    (fun _ he => keepsDispatch_of_step hc he) ((hI.simulates hg hs).view k)

theorem settled_run (h : processor.Run KeepsDispatches ops w) (k : TaskQueueKey) :
    (w.view k).Settled := by
  have hall : ∀ k, (w.view k).Settled := by
    refine h.invariant (I := fun w => ∀ k, (w.view k).Settled) (fun k _ => rfl) ?_
    intro _ _ _ _ hrun hset hg hc hs
    exact settled_step (inv_run hrun) hset hg hc hs
  exact hall k

/-- In every run whose steps meet the condition, every pending dispatch finds its queue ready, and
dispatching it does not fault. -/
theorem noStaleDispatch_run (h : processor.Run KeepsDispatches ops w) : NoStaleDispatch w := by
  have hI := inv_run h
  have hready : ∀ id k, (id, IdleSource.processTask k) ∈ w.sources →
      ∃ q, w.taskQueues.find? k = some q ∧ q.idleId = id ∧ q.tasks ≠ [] ∧ q.currentTask = none := by
    intro id k hm
    have hp := mem_pendingOf.mpr hm
    cases hq : w.taskQueues.find? k with
    | none =>
      have h0 := settled_run h k (by simp [World.view, hq])
      rw [show (w.view k).pending = (w.pendingOf k).length from rfl, List.length_eq_zero_iff] at h0
      simp [h0] at hp
    | some q =>
      obtain ⟨hi, hpend⟩ := pending_unique hI.sources hq (List.mem_map.mpr ⟨_, hm, rfl⟩)
      have hok := (hI.queueOk hq).idle (fun hz => hi ((shape_idleId_eq_zero q).mp hz))
      rw [hpend] at hp
      exact ⟨q, rfl, (List.mem_singleton.mp hp).symm, hok.2, hok.1⟩
  refine ⟨hready, fun k hk => ?_⟩
  obtain ⟨⟨id, s⟩, hm, rfl⟩ := List.mem_map.mp hk
  obtain ⟨q, hq, -, ht, -⟩ := hready id k hm
  have hfd : (detach w (.processTask k)).taskQueues = w.taskQueues := rfl
  obtain ⟨t, ts, hts⟩ := List.exists_cons_of_ne_nil ht
  simp only [dispatchProcessTask, prvProcessTask, hfd, hq, hts]
  exact ⟨_, rfl⟩

/-- Two queues are scheduled, and one of them is removed. -/
theorem noStaleDispatch_removed :
    NoStaleDispatch (processor.final KeepsDispatches
      [.addQueue ⟨1, "a", "b"⟩ 1, .addTask ⟨1, "a", "b"⟩ 7, .addQueue ⟨2, "c", "b"⟩ 1,
        .addTask ⟨2, "c", "b"⟩ 8, .removeQueuesForSource "a" fun _ => false]) :=
  noStaleDispatch_run (System.run_final (by decide))

/-- A queue is cancelled, gets a task, which schedules it again, and is removed: the removal takes it
for cancelled and leaves its dispatch behind. -/
def cancelAddRemove : List Op :=
  [.addQueue ⟨1, "a", "b"⟩ flagAutoStart, .cancelQueue ⟨1, "a", "b"⟩ fun _ => false,
    .addTask ⟨1, "a", "b"⟩ 7, .removeQueuesForSource "a" fun _ => false]

theorem staleDispatch_reachable :
    processor.Run Any cancelAddRemove (processor.final Any cancelAddRemove) ∧
      ¬ NoStaleDispatch (processor.final Any cancelAddRemove) ∧
      (dispatchProcessTask (processor.final Any cancelAddRemove) ⟨1, "a", "b"⟩).toOption.isNone := by
  refine ⟨System.run_final (by decide), fun h => ?_, by decide⟩
  obtain ⟨w', hw'⟩ := h.runs ⟨1, "a", "b"⟩ (by decide)
  have hn : (dispatchProcessTask (processor.final Any cancelAddRemove)
      ⟨1, "a", "b"⟩).toOption.isNone = true := by decide
  simp [hw', Except.toOption] at hn

end DleynaCore
