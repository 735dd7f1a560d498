import DleynaCore.TaskProcessor.Properties
import DleynaCore.TaskProcessor.Proofs.QueuesProofs

/-!
# Tasks in flight

A queue is removed with a task in flight by `dleyna_task_queue_start`, when it is `AUTO_REMOVE` and
no other task waits, and by `dleyna_task_processor_set_quitting`, when the traversal does not bring
the task to an end. Under the condition that no step does this, every task in flight is the running
task of a registered queue, and `running_tasks` counts these queues.
-/

namespace DleynaCore

open JobQueue

variable {w w' : World} {k : TaskQueueKey} {q : TaskQueue} {ops : List Op}

/-! ## Arithmetic of the counter -/

theorem guintSucc_eq {n : Nat} (h : n + 1 < guintSize) : guintSucc n = n + 1 :=
  Nat.mod_eq_of_lt h

theorem guintPred_eq {n : Nat} (h0 : 0 < n) (h : n ≤ guintSize) : guintPred n = n - 1 := by
  unfold guintPred
  rw [show n + (guintSize - 1) = (n - 1) + guintSize by unfold guintSize at *; omega,
    Nat.add_mod_right]
  exact Nat.mod_eq_of_lt (by omega)

theorem guintPred_eq_zero {n : Nat} (h : n < guintSize) : guintPred n = 0 ↔ n = 1 := by
  constructor
  · intro hn
    rcases Nat.eq_zero_or_pos n with rfl | h0
    · exact absurd hn (by decide)
    · rw [guintPred_eq h0 h.le] at hn
      omega
  · rintro rfl
    rfl

/-! ## Requests -/

/-- The queue has a running task. -/
def QueueView.busy (v : QueueView) : Bool := v.queue.any TaskQueue.busy

theorem view_busy (w : World) (k : TaskQueueKey) :
    (w.view k).busy = (w.taskQueues.find? k).any TaskQueue.busy := by
  simp only [QueueView.busy, World.view]
  cases w.taskQueues.find? k <;> rfl

theorem busy_of_completesOnCancel {sync : TaskAtom → Bool} (h : q.completesOnCancel sync = true) :
    q.busy = true := by
  obtain ⟨-, t, ht, -⟩ := completesOnCancel_iff.mp h
  simp [TaskQueue.busy, ht]

/-- The tasks processed and not completed, of a queue that is not in the table. -/
def QueueView.Balanced (k : TaskQueueKey) (v : QueueView) : Prop :=
  v.queue = none → processedTasks k v.log = completedTasks k v.log

/-- The request does not remove the queue with a task running. -/
def Request.KeepsFlight (v : QueueView) : Request → Prop
  | .start quitting => ∀ q, v.queue = some q →
    quitting = true ∨ q.deferRemove = true ∨ q.tasks ≠ [] ∨ q.autoRemove = false ∨ q.busy = false
  | .quitCancel sync => ∀ q t, v.queue = some q → q.currentTask = some t → sync t = true
  | .drop => ∀ q, v.queue = some q → q.busy = false
  | _ => True

@[simp] theorem processedTasks_freeCalls : processedTasks k (freeCalls k q) = [] := by
  simp [processedTasks, jobEvents_freeCalls]

@[simp] theorem completedTasks_freeCalls : completedTasks k (freeCalls k q) = [] := by
  simp [completedTasks, jobEvents_freeCalls]

@[simp] theorem processedTasks_cancelAndFreeCalls :
    processedTasks k (cancelAndFreeCalls k q) = [] := by
  simp [processedTasks, jobEvents_cancelAndFreeCalls, List.filterMap_flatMap]

@[simp] theorem completedTasks_cancelAndFreeCalls :
    completedTasks k (cancelAndFreeCalls k q) = [] := by
  simp [completedTasks, jobEvents_cancelAndFreeCalls, List.filterMap_flatMap]

/-- The tasks that a sequence of calls begins and finishes. -/
def Flights (k : TaskQueueKey) (es : List Event) (finished : List TaskAtom) : Prop :=
  processedTasks k es = [] ∧ completedTasks k es = finished

theorem Flights.append {es es' : List Event} {l l' : List TaskAtom} (h : Flights k es l)
    (h' : Flights k es' l') : Flights k (es ++ es') (l ++ l') :=
  ⟨by simp [h.1, h'.1], by simp [h.2, h'.2]⟩

theorem flights_freeCalls : Flights k (freeCalls k q) [] := ⟨by simp, by simp⟩

theorem flights_cancelAndFreeCalls : Flights k (cancelAndFreeCalls k q) [] := ⟨by simp, by simp⟩

theorem flights_cancelCompleteCalls (t : TaskAtom) : Flights k (q.cancelCompleteCalls k t) [t] := by
  simp [Flights, processedTasks, completedTasks, jobEvents_cancelCompleteCalls, List.filterMap_cons]

theorem flights_completed (t : TaskAtom) : Flights k ([.completed k t] ++ q.deleteCurrent k) [t] := by
  unfold TaskQueue.deleteCurrent
  cases q.currentTask <;>
    simp [Flights, processedTasks, completedTasks, jobEvents, jobEvent, List.filterMap_cons]

/-- A registered queue goes with its running task finished, or without one. -/
theorem gone_flights {v : QueueView} {r : Request} {es : List Event}
    (hok : QueueOk k q v.log) (hv : v.queue = some q) (hf : r.Fits k v) (hr : r.KeepsFlight v)
    (hg : Gone k q r es) : Flights k es q.currentTask.toList := by
  have hbusy : q.busy = false → q.currentTask = none := by
    simp [TaskQueue.busy]
  cases hg with
  | start hd ht ha =>
    have hc : q.currentTask = none := by
      rcases hr q hv with h | h | h | h | h
      · exact absurd h (by simp)
      · exact absurd h (by simp [hd])
      · exact absurd ht h
      · exact absurd ha (by simp [h])
      · exact hbusy h
    rw [hc]
    exact flights_freeCalls
  | removeMarked hd hc hcan =>
    rw [hc]
    exact flights_freeCalls
  | drop =>
    rw [hbusy (hr q hv)]
    exact flights_freeCalls
  | drained hc _ =>
    rw [hc]
    exact flights_cancelAndFreeCalls.append flights_freeCalls
  | @completed _ _ t hc _ _ =>
    rw [hc]
    exact (flights_cancelAndFreeCalls.append (flights_cancelCompleteCalls t)).append
      flights_freeCalls
  | left hc hsync => exact absurd (hr q _ hv hc) (by simp [hsync])
  | @complete t _ =>
    rw [hok.current_of_inFlight hf]
    exact (flights_completed t).append flights_freeCalls
  | @lastComplete t =>
    rw [hok.current_of_inFlight hf]
    exact (flights_completed t).append flights_freeCalls

theorem serve_balanced {v v' : QueueView} {r : Option Request} (hv : v.Ok k) (hb : v.Balanced k)
    (hf : ∀ r', r = some r' → r'.Fits k v) (hr : ∀ r', r = some r' → r'.KeepsFlight v)
    (hs : v.serve? k r = .ok v') : v'.Balanced k := by
  intro hn
  rcases gone_of_serve hs hn with rfl | ⟨q, r, es, hq, rfl, hg, rfl⟩
  · exact hb hn
  · obtain ⟨-, hok⟩ := hv.of_some hq
    obtain ⟨h1, h2⟩ := gone_flights hok hq (hf r rfl) (hr r rfl) hg
    have hbeg : processedTasks k v.log = completedTasks k v.log ++ q.currentTask.toList :=
      hok.history.begun_eq
    simp [QueueView.put, h1, h2, hbeg]

/-! ## Counting -/

/-- The request starts a task of the queue. -/
def Request.starts : Request → Bool
  | .dispatch => true
  | _ => false

/-- The request ends the running task of the queue. -/
def Request.ends (q : TaskQueue) : Request → Bool
  | .complete _ => true
  | .cancel sync => q.completesOnCancel sync
  | _ => false

/-- The request removes the queue whatever its state. -/
def Request.removes : Request → Bool
  | .lastComplete _ | .quitCancel _ | .drop => true
  | _ => false

/-- A registered queue that goes loses its running task. -/
theorem gone_busy {v : QueueView} {r : Request} {es : List Event} (hok : QueueOk k q v.log)
    (hv : v.queue = some q) (hf : r.Fits k v) (hr : r.KeepsFlight v) (hrem : r.removes = false)
    (hg : Gone k q r es) : (r.ends q).toNat = q.busy.toNat + r.starts.toNat := by
  have hfl := gone_flights hok hv hf hr hg
  cases hg with
  | start _ _ _ =>
    have hc : q.currentTask = none := by simpa using hfl.2.symm
    simp [Request.ends, Request.starts, TaskQueue.busy, hc]
  | removeMarked _ hc _ => simp [Request.ends, Request.starts, TaskQueue.busy, hc]
  | drained hc hreq =>
    rcases hreq with ⟨sync, rfl⟩ | ⟨⟨sync, rfl | rfl⟩, -⟩
    · simp [Request.removes] at hrem
    · simp [Request.ends, Request.starts, TaskQueue.busy, TaskQueue.completesOnCancel, hc]
    · simp [Request.ends, Request.starts, TaskQueue.busy, hc]
  | completed hc hs hreq =>
    rcases hreq with rfl | ⟨rfl, hcan⟩
    · simp [Request.removes] at hrem
    · simp [Request.ends, Request.starts, TaskQueue.busy, TaskQueue.completesOnCancel, hc, hs, hcan]
  | complete _ =>
    simp [Request.ends, Request.starts, TaskQueue.busy, hok.current_of_inFlight hf]
  | drop | left _ _ | lastComplete => simp [Request.removes] at hrem

/-- How a request changes whether a task runs in a queue that stays. -/
theorem kept_busy {v : QueueView} {q' : TaskQueue} {r : Request} {es : List Event}
    (hok : QueueOk k q v.log) (hp : v.pending = q.idleId) (hf : r.Fits k v)
    (hk : Kept k q r q' es) :
    q'.busy.toNat + (r.ends q).toNat = q.busy.toNat + r.starts.toNat := by
  cases hk with
  | start | startWaiting _ _ _ | addTask _ | addTaskStart _ _ _ | removeDeferred _ | setFinally
  | setUserData => rfl
  | cancelMarked hcan => simp [Request.ends, Request.starts, TaskQueue.completesOnCancel, hcan]
  | cancelIdle hc _ =>
    simp [Request.ends, Request.starts, TaskQueue.busy, TaskQueue.drain,
      TaskQueue.completesOnCancel, hc]
  | cancelRunning hc hs =>
    simp [Request.ends, Request.starts, TaskQueue.busy, TaskQueue.drain,
      TaskQueue.completesOnCancel, hc, hs]
  | cancelCompleted hcan hc hs _ _ =>
    simp [Request.ends, Request.starts, TaskQueue.busy, TaskQueue.completesOnCancel, hc, hs, hcan]
  | removeMarked hc _ => simp [Request.ends, Request.starts, TaskQueue.busy, hc]
  | removeRunning hc _ =>
    simp [Request.ends, Request.starts, TaskQueue.busy, TaskQueue.drain, hc]
  | complete _ _ _ | completeNext _ _ =>
    simp [Request.ends, Request.starts, TaskQueue.busy, hok.current_of_inFlight hf]
  | dispatch _ =>
    have hi : q.idleId ≠ 0 := hp ▸ hf
    simp [Request.ends, Request.starts, TaskQueue.busy, (hok.idle hi).1]

/-- How a request changes whether a task runs in a queue, registered or not. -/
theorem serve_busy {v v' : QueueView} {r : Request} (hv : v.Ok k) (hf : r.Fits k v)
    (hr : r.KeepsFlight v) (hrem : r.removes = false) (hs : v.serve k r = .ok v') :
    v'.busy.toNat + (v.queue.any (r.ends ·)).toNat = v.busy.toNat + r.starts.toNat := by
  cases served_of_serve hs with
  | absent hq hreq => rcases hreq with rfl | ⟨sync, rfl | rfl⟩ <;> simp [hq, Request.starts]
  | added hq =>
    simp [QueueView.busy, QueueView.put, hq, Request.starts]
    rfl
  | gone hq hg =>
    have := gone_busy (hv.of_some hq).2 hq hf hr hrem hg
    simpa [QueueView.busy, QueueView.put, hq] using this
  | kept hq hk =>
    obtain ⟨hp, hok⟩ := hv.of_some hq
    simpa [QueueView.busy, QueueView.put, hq] using kept_busy hok hp hf hk

/-- A queue that is removed whatever its state is gone. -/
theorem serve_removes {v v' : QueueView} {r : Request} (hrem : r.removes = true)
    (hs : v.serve k r = .ok v') : v'.queue = none := by
  cases served_of_serve hs with
  | absent hq _ => exact hq
  | added _ => simp [Request.removes] at hrem
  | gone _ _ => rfl
  | kept _ hk => cases hk <;> simp [Request.removes] at hrem

/-- A queue only enters the table when it is added. -/
theorem serve?_queue_none {v v' : QueueView} {r : Option Request} (hq : v.queue = none)
    (hr : ∀ flags, r ≠ some (.addQueue flags)) (hs : v.serve? k r = .ok v') : v'.queue = none := by
  cases served_of_serve? hs with
  | idle | absent _ _ => exact hq
  | added _ => exact absurd rfl (hr _)
  | gone _ _ => rfl
  | kept hq' _ => simp [hq] at hq'

/-! ## The invariant -/

/-- The queues in the table account for all tasks in flight, and the counter counts them; the size
of the table leaves room for it. -/
structure FlightInv (w : World) : Prop where
  size : w.taskQueues.size < guintSize
  balanced : ∀ k, (w.view k).Balanced k
  running : w.runningTasks = w.taskQueues.count TaskQueue.busy

theorem FlightInv.running_lt (h : FlightInv w) : w.runningTasks < guintSize := by
  rw [h.running]
  exact Nat.lt_of_le_of_lt (HashTable.count_le_size _ _) h.size

/-- While the last task of a quitting processor runs, no other queue has a running task. -/
theorem FlightInv.lone_busy (h : FlightInv w) (hl : w.lastTask = true)
    (hb : (w.view k).busy = true) {k' : TaskQueueKey} (hk : k' ≠ k) :
    (w.view k').busy = false := by
  have h1 : w.taskQueues.count TaskQueue.busy = 1 := by
    simp only [World.lastTask, Bool.and_eq_true, beq_iff_eq] at hl
    rw [← h.running]
    exact (guintPred_eq_zero h.running_lt).mp hl.2
  rw [view_busy] at hb ⊢
  obtain ⟨q, hq, hqb⟩ := (Option.any_eq_true _ _).mp hb
  have he := HashTable.count_erase hq TaskQueue.busy
  rw [h1, hqb, Bool.toNat_true] at he
  have hz := HashTable.count_eq_zero.mp (Nat.succ.inj he) k'
  rw [HashTable.find?_erase_of_ne _ hk] at hz
  cases hq' : w.taskQueues.find? k' with
  | none => rfl
  | some q' => exact hz q' hq'

/-- The traversal of a quitting processor that completes every running task leaves none. -/
theorem quitRunning_eq_zero {sync : TaskAtom → Bool} {es : List (TaskQueueKey × TaskQueue)}
    (hnd : (es.map Prod.fst).Nodup) {n : Nat} (hn : n = es.countP fun e => e.2.busy)
    (hlt : n < guintSize)
    (h : ∀ e ∈ es, e.2.busy = true →
      e.2.completesOnCancel sync = true ∧ e.1 ∈ reachedKeys sync n es) :
    quitRunning sync n es = 0 := by
  induction es generalizing n with
  | nil => simpa [quitRunning] using hn
  | cons e es ih =>
    obtain ⟨k, q⟩ := e
    obtain ⟨hk, hnd⟩ := List.nodup_cons.mp hnd
    have hne : ∀ e ∈ es, e.1 ≠ k := fun e he hc => hk (List.mem_map.mpr ⟨e, he, hc⟩)
    rw [List.countP_cons] at hn
    unfold quitRunning
    by_cases hco : q.completesOnCancel sync = true
    · rw [if_pos (busy_of_completesOnCancel hco)] at hn
      have hpred : guintPred n = es.countP fun e => e.2.busy := by
        rw [guintPred_eq (by omega) hlt.le]
        omega
      rw [if_pos hco]
      by_cases hab : q.abandons n = true
      · rw [if_pos hab, hpred, List.countP_eq_zero]
        intro e he hbe
        have hr := (h e (List.mem_cons_of_mem _ he) hbe).2
        simp only [reachedKeys, if_pos hco, if_pos hab, List.mem_singleton] at hr
        exact hne e he hr
      · rw [if_neg hab]
        refine ih hnd hpred (by omega) fun e he hbe => ?_
        obtain ⟨h1, h2⟩ := h e (List.mem_cons_of_mem _ he) hbe
        simp only [reachedKeys, if_pos hco, if_neg hab, List.mem_cons] at h2
        exact ⟨h1, h2.resolve_left (hne e he)⟩
    · have hb : q.busy = false := by
        by_contra hb
        exact hco (h (k, q) List.mem_cons_self (by simpa using hb)).1
      rw [if_neg hco]
      rw [if_neg (by simp [hb]), Nat.add_zero] at hn
      refine ih hnd hn hlt fun e he hbe => ?_
      obtain ⟨h1, h2⟩ := h e (List.mem_cons_of_mem _ he) hbe
      simp only [reachedKeys, if_neg hco, List.mem_cons] at h2
      exact ⟨h1, h2.resolve_left (hne e he)⟩

/-- The condition on a step is what each of its requests needs. -/
theorem keepsFlight_of_step {op : Op} {r : Request} (hI : Inv w) (hF : FlightInv w)
    (hg : Guard w op) (hc : KeepsFlights w op) (he : effect w op k = some r) :
    r.KeepsFlight (w.view k) := by
  have hlone : ∀ {k0}, w.lastTask = true → (w.view k0).busy = true → k ≠ k0 →
      ∀ q, (w.view k).queue = some q → q.busy = false := by
    intro k0 hl hb hk q hq
    have := hF.lone_busy hl hb hk
    simpa [QueueView.busy, hq] using this
  cases asked_of_effect he with
  | start =>
    intro q hq
    obtain ⟨q0, hm, -, rfl⟩ := entry_of_view hq
    exact hc _ hm rfl
  | reached sync _ _ =>
    intro q t hq ht
    obtain ⟨q0, hm, -, rfl⟩ := entry_of_view hq
    have ht : q0.currentTask = some t := ht
    have hco := (hc _ hm (by simp [TaskQueue.busy, ht])).1
    obtain ⟨-, t', ht', hsync⟩ := completesOnCancel_iff.mp hco
    obtain rfl : t = t' := Option.some.inj (ht.symm.trans ht')
    exact hsync
  | passed sync hr =>
    intro q hq
    obtain ⟨q0, hm, h0, rfl⟩ := entry_of_view hq
    by_contra hb
    have hb : q0.busy = true := (Bool.not_eq_false _).mp hb
    obtain ⟨hco, hreach⟩ := hc _ hm hb
    refine hr ⟨hreach, ?_⟩
    rw [isCancelled_of_find? h0]
    exact (completesOnCancel_iff.mp hco).1
  | @completeOther queueId task hk hl =>
    intro q hq
    cases h0 : w.taskQueues.find? queueId with
    | some q0 =>
      refine hlone hl ?_ hk q hq
      rw [view_busy, h0]
      simp [TaskQueue.busy, hI.current_of_inFlight h0 hg]
    | none =>
      -- the task in flight is that of a registered queue
      have hbal := hF.balanced queueId (by simp [World.view, h0])
      have hfl := inFlight_logOf.mpr hg
      exact absurd (hbal ▸ hfl.1) hfl.2
  | cancelLast sync hl =>
    intro q t hq ht
    obtain ⟨q0, -, h0, rfl⟩ := entry_of_view hq
    rw [Bool.and_eq_true, completesOnCancel_of_find? sync h0] at hl
    obtain ⟨-, t', ht', hsync⟩ := completesOnCancel_iff.mp hl.2
    obtain rfl : t = t' := Option.some.inj (ht.symm.trans ht')
    exact hsync
  | @cancelOther queueId sync hk hl =>
    rw [Bool.and_eq_true] at hl
    obtain ⟨q0, h0, hco⟩ := find?_of_completesOnCancel hl.2
    refine hlone hl.1 ?_ hk
    rw [view_busy, h0]
    exact busy_of_completesOnCancel hco
  | addQueue _ | addTask _ | cancel _ _ | removeForSource _ | removeForSink _ | complete _ _
  | completeLast _ _ | setFinally _ | setUserData _ | dispatch => trivial

/-- Only `dleyna_task_processor_add_queue` asks for a queue to be added. -/
theorem effect_ne_addQueue {op : Op} (hop : ∀ key flags, op ≠ .addQueue key flags) (flags : UInt32) :
    effect w op k ≠ some (.addQueue flags) := by
  intro he
  cases asked_of_effect he
  exact hop k flags rfl

theorem size_step {op : Op} (hI : Inv w) (hlt : w.taskQueues.size < guintSize) (hg : Guard w op)
    (hs : step w op = .ok w') : w'.taskQueues.size < guintSize := by
  by_cases hop : ∃ key flags, op = .addQueue key flags
  · obtain ⟨key, flags, rfl⟩ := hop
    obtain rfl : dleynaTaskProcessorAddQueue w key flags = w' := by simpa [step] using hs
    have hsize : (dleynaTaskProcessorAddQueue w key flags).taskQueues.size =
        w.taskQueues.size + 1 := by
      unfold dleynaTaskProcessorAddQueue
      split
      · simp [HashTable.size, HashTable.insertNew]
      · next h => simp [hg.1] at h
    rw [hsize]
    exact hg.2.2
  · refine Nat.lt_of_le_of_lt (HashTable.size_le_of_find? fun k hk => ?_) hlt
    have hq := serve?_queue_none (v := w.view k) (by simp [World.view, hk])
      (fun flags => effect_ne_addQueue (fun key flags hc => hop ⟨key, flags, hc⟩) flags)
      ((hI.simulates hg hs).view k)
    simpa [World.view] using hq

/-- The steps that start no task and end none. -/
theorem running_step_same {op : Op} (hI : Inv w) (hF : FlightInv w) (hg : Guard w op)
    (hc : KeepsFlights w op) (hs : step w op = .ok w')
    (he : ∀ k r, effect w op k = some r →
      r.starts = false ∧ r.removes = false ∧ ∀ q, r.ends q = false)
    (hr : runningAfter w op = w.runningTasks) :
    w'.runningTasks = w'.taskQueues.count TaskQueue.busy := by
  have hS := hI.simulates hg hs
  rw [hS.running, hr, hF.running]
  refine (HashTable.count_eq_of_find? fun k => ?_).symm
  rw [← view_busy, ← view_busy]
  have hv := hS.view k
  cases hk : effect w op k with
  | none =>
    rw [hk] at hv
    rw [← Except.ok.inj hv]
  | some r =>
    rw [hk] at hv
    obtain ⟨h1, h2, h3⟩ := he k r hk
    have hb := serve_busy (hI.queues k) (fits_of_guard hg hk) (keepsFlight_of_step hI hF hg hc hk)
      h2 hv
    have hn : (w.view k).queue.any (r.ends ·) = false := by
      cases (w.view k).queue <;> simp [h3]
    rw [hn, h1] at hb
    cases h4 : (w'.view k).busy <;> cases h5 : (w.view k).busy <;> simp_all

/-- The steps that concern the running task of one queue. -/
theorem running_step_one {op : Op} {r : Request} (hI : Inv w) (hF : FlightInv w) (hg : Guard w op)
    (hc : KeepsFlights w op) (hs : step w op = .ok w')
    (he : ∀ k', effect w op k' = if k' = k then some r else none) (hrem : r.removes = false) :
    w'.taskQueues.count TaskQueue.busy + ((w.view k).queue.any (r.ends ·)).toNat =
      w.taskQueues.count TaskQueue.busy + r.starts.toNat := by
  have hS := hI.simulates hg hs
  have hk : effect w op k = some r := by rw [he, if_pos rfl]
  have hv := hS.view k
  rw [hk] at hv
  have hb := serve_busy (hI.queues k) (fits_of_guard hg hk) (keepsFlight_of_step hI hF hg hc hk)
    hrem hv
  have hsame : ∀ k', k' ≠ k →
      (w'.taskQueues.find? k').any TaskQueue.busy = (w.taskQueues.find? k').any TaskQueue.busy := by
    intro k' hk'
    have hv' := hS.view k'
    rw [he, if_neg hk'] at hv'
    rw [← view_busy, ← view_busy, ← Except.ok.inj hv']
  have hcount := HashTable.count_eq_of_find?_ne k hsame
  rw [← view_busy, ← view_busy] at hcount
  omega

/-- The steps that remove every queue. -/
theorem running_step_all {op : Op} (hI : Inv w) (hg : Guard w op) (hs : step w op = .ok w')
    (he : ∀ k, ∃ r, effect w op k = some r ∧ r.removes = true) (hr : runningAfter w op = 0) :
    w'.runningTasks = w'.taskQueues.count TaskQueue.busy := by
  have hS := hI.simulates hg hs
  rw [hS.running, hr, eq_comm, HashTable.count_eq_zero]
  intro k q hq
  obtain ⟨r, hk, hrem⟩ := he k
  have hv := hS.view k
  rw [hk] at hv
  have := serve_removes hrem hv
  simp [World.view, hq] at this

theorem running_step {op : Op} (hI : Inv w) (hF : FlightInv w) (hg : Guard w op)
    (hc : KeepsFlights w op) (hs : step w op = .ok w') (hsize : w'.taskQueues.size < guintSize) :
    w'.runningTasks = w'.taskQueues.count TaskQueue.busy := by
  have hlast : w.lastTask = true → guintPred w.runningTasks = 0 := fun hl => by
    simp only [World.lastTask, Bool.and_eq_true, beq_iff_eq] at hl
    exact hl.2
  cases op with
  | addQueue key flags | addTask queueId task | start queueId | setFinally queueId finallyCb
  | setUserData queueId userData | removeQueuesForSource source sync
  | removeQueuesForSink sink sync =>
    refine running_step_same hI hF hg hc hs (fun k r he => ?_) rfl
    cases asked_of_effect he
    exact ⟨rfl, rfl, fun _ => rfl⟩
  | dispatchQuit | rehash taskQueues =>
    exact running_step_same hI hF hg hc hs (fun k r he => by simp [effect] at he) rfl
  | dispatch queueId =>
    have hone := running_step_one (r := .dispatch) hI hF hg hc hs (fun _ => rfl) rfl
    have hends : (w.view queueId).queue.any (Request.dispatch.ends ·) = false := by
      cases (w.view queueId).queue <;> rfl
    rw [hends, Bool.toNat_false, Nat.add_zero] at hone
    have hle := HashTable.count_le_size w'.taskQueues TaskQueue.busy
    have hst : Request.dispatch.starts.toNat = 1 := rfl
    rw [(hI.simulates hg hs).running, runningAfter, hF.running, guintSucc_eq (by omega)]
    omega
  | taskCompleted queueId task =>
    by_cases hl : w.lastTask = true
    · refine running_step_all hI hg hs (fun k => ?_) (hlast hl)
      simp only [effect, hl, if_true]
      refine ⟨_, rfl, ?_⟩
      split <;> rfl
    · have hone := running_step_one (r := .complete task) (k := queueId) hI hF hg hc hs
        (fun k' => by simp [effect, hl]) rfl
      have hq : ∃ q, (w.view queueId).queue = some q := by
        rw [← Option.isSome_iff_exists]
        by_contra hn
        have hn : w.taskQueues.find? queueId = none := by simpa [World.view] using hn
        have hbal := hF.balanced queueId (by simp [World.view, hn])
        have hfl := inFlight_logOf.mpr hg
        exact hfl.2 (hbal ▸ hfl.1)
      obtain ⟨q, hq⟩ := hq
      have hst : (Request.complete task).starts.toNat = 0 := rfl
      have hen : ((w.view queueId).queue.any ((Request.complete task).ends ·)).toNat = 1 := by
        rw [hq]; rfl
      rw [(hI.simulates hg hs).running, runningAfter, guintPred_eq (by rw [hF.running]; omega)
        hF.running_lt.le, hF.running]
      omega
  | cancelQueue queueId sync =>
    by_cases hl : (w.lastTask && w.completesOnCancel sync queueId) = true
    · rw [Bool.and_eq_true] at hl
      refine running_step_all hI hg hs (fun k => ?_) ?_
      · simp only [effect, hl.1, hl.2, Bool.and_self, if_true]
        refine ⟨_, rfl, ?_⟩
        split <;> rfl
      · rw [runningAfter, if_pos hl.2]
        exact hlast hl.1
    · have hone := running_step_one (r := .cancel sync) (k := queueId) hI hF hg hc hs
        (fun k' => by simp only [effect, if_neg hl]) rfl
      have hst : (Request.cancel sync).starts.toNat = 0 := rfl
      have hen : (w.view queueId).queue.any ((Request.cancel sync).ends ·) =
          w.completesOnCancel sync queueId := by
        unfold World.completesOnCancel
        cases hq : w.taskQueues.find? queueId with
        | none => simp [World.view, hq]
        | some q => simp [World.view, hq, Request.ends, completesOnCancel_shape]
      rw [hst, hen, Nat.add_zero] at hone
      rw [(hI.simulates hg hs).running, runningAfter]
      by_cases hco : w.completesOnCancel sync queueId = true
      · rw [hco, Bool.toNat_true] at hone
        rw [if_pos hco, guintPred_eq (by rw [hF.running]; omega) hF.running_lt.le, hF.running]
        omega
      · rw [if_neg hco, hF.running]
        simp only [Bool.not_eq_true] at hco
        rw [hco, Bool.toNat_false] at hone
        omega
  | setQuitting sync =>
    refine running_step_all hI hg hs (fun k => ?_) ?_
    · simp only [effect]
      refine ⟨_, rfl, ?_⟩
      split <;> rfl
    · exact quitRunning_eq_zero w.taskQueues.keys_nodup hF.running hF.running_lt hc

/-- One step that meets the condition. -/
theorem flightInv_step {op : Op} (hI : Inv w) (hF : FlightInv w) (hg : Guard w op)
    (hc : KeepsFlights w op) (hs : step w op = .ok w') : FlightInv w' where
  size := size_step hI hF.size hg hs
  balanced := fun k =>
    serve_balanced (hI.queues k) (hF.balanced k) (fun _ he => fits_of_guard hg he)
      (fun _ he => keepsFlight_of_step hI hF hg hc he) ((hI.simulates hg hs).view k)
  running := running_step hI hF hg hc hs (size_step hI hF.size hg hs)

theorem flightInv_run (h : processor.Run KeepsFlights ops w) : FlightInv w := by
  refine h.invariant (I := FlightInv) ⟨by decide, fun _ _ => rfl, rfl⟩ ?_
  intro _ _ _ _ hrun hF hg hc hs
  exact flightInv_step (inv_run hrun) hF hg hc hs

/-- In every run whose steps meet the condition, every task in flight is the running task of a
registered queue, its completion does not fault, and the counter is exact. -/
theorem tracksFlights_run (h : processor.Run KeepsFlights ops w) : TracksFlights w := by
  have hI := inv_run h
  have hF := flightInv_run h
  have hreg : ∀ k t, InFlight w.log k t →
      ∃ q, w.taskQueues.find? k = some q ∧ q.currentTask = some t := by
    intro k t ht
    cases hq : w.taskQueues.find? k with
    | some q => exact ⟨q, rfl, hI.current_of_inFlight hq ht⟩
    | none =>
      have hbal := hF.balanced k (by simp [World.view, hq])
      have hfl := inFlight_logOf.mpr ht
      exact absurd (hbal ▸ hfl.1) hfl.2
  refine ⟨hreg, fun k t ht => ?_, hF.running⟩
  obtain ⟨q, hq, -⟩ := hreg k t ht
  simp only [step, dleynaTaskQueueTaskCompleted, World.emit_taskQueues, hq]
  exact ⟨_, rfl⟩

/-- Two tasks run; one of them is cancelled and completes later. -/
theorem tracksFlights_cancelled :
    TracksFlights (processor.final KeepsFlights
      [.addQueue ⟨1, "a", "b"⟩ 3, .addTask ⟨1, "a", "b"⟩ 7, .addQueue ⟨2, "c", "b"⟩ 1,
        .addTask ⟨2, "c", "b"⟩ 8, .dispatch ⟨1, "a", "b"⟩, .dispatch ⟨2, "c", "b"⟩,
        .cancelQueue ⟨1, "a", "b"⟩ fun _ => false, .addTask ⟨1, "a", "b"⟩ 9,
        .start ⟨1, "a", "b"⟩]) :=
  tracksFlights_run (System.run_final (by decide))

/-- An `AUTO_REMOVE` queue is started while its only task runs. -/
def startWhileRunning : List Op :=
  [.addQueue ⟨1, "a", "b"⟩ (flagAutoStart ||| flagAutoRemove), .addTask ⟨1, "a", "b"⟩ 7,
    .dispatch ⟨1, "a", "b"⟩, .start ⟨1, "a", "b"⟩]

theorem lostFlight_reachable :
    processor.Run Any startWhileRunning (processor.final Any startWhileRunning) ∧
      ¬ TracksFlights (processor.final Any startWhileRunning) ∧
      InFlight (processor.final Any startWhileRunning).log ⟨1, "a", "b"⟩ 7 ∧
      (processor.final Any startWhileRunning).taskQueues.find? ⟨1, "a", "b"⟩ = none ∧
      (processor.final Any startWhileRunning).runningTasks = 1 := by
  refine ⟨System.run_final (by decide), fun h => ?_, by decide, by decide, by decide⟩
  obtain ⟨q, hq, -⟩ := h.registered ⟨1, "a", "b"⟩ 7 (by decide)
  have hn : (processor.final Any startWhileRunning).taskQueues.find? ⟨1, "a", "b"⟩ = none := by
    decide
  simp [hn] at hq

end DleynaCore
