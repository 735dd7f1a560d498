import DleynaCore.TaskProcessor.Lifetime
import DleynaCore.TaskProcessor.Proofs.FinallyProofs

/-!
# Queues live once

What the client set for a queue stays in its record until it is set again, and the calls for a queue
take it from there. A queue that goes is last heard of when its finally callback is called.
-/

namespace DleynaCore

variable {w w' : World} {k : TaskQueueKey} {q q' : TaskQueue} {t : TaskAtom} {ops : List Op}
  {es es' : List Event} {r : Request} {v v' : QueueView} {flags : Option UInt32} {u : Gpointer}
  {f : Option Gpointer} {op : Op}

/-! ## What the client set -/

theorem addedFlags_snoc (k : TaskQueueKey) (ops : List Op) (op : Op) :
    addedFlags k (ops ++ [op]) = (op.addsQueue k).or (addedFlags k ops) := by
  unfold addedFlags
  rw [List.filterMap_append, List.getLast?_append]
  cases h : op.addsQueue k <;> simp [h]

theorem lastUserData_snoc (k : TaskQueueKey) (ops : List Op) (op : Op) :
    lastUserData k (ops ++ [op]) = (op.setsUserData k).getD (lastUserData k ops) := by
  unfold lastUserData
  rw [List.filterMap_append, List.getLast?_append]
  cases h : op.setsUserData k <;> simp [h]

theorem lastFinally_snoc (k : TaskQueueKey) (ops : List Op) (op : Op) :
    lastFinally k (ops ++ [op]) = (op.setsFinally k).getD (lastFinally k ops) := by
  unfold lastFinally
  rw [List.filterMap_append, List.getLast?_append]
  cases h : op.setsFinally k <;> simp [h]

namespace Request

/-- The flags of the queue that is added. -/
def addsQueue : Request → Option UInt32
  | .addQueue flags => some flags
  | _ => none

/-- The user data that is set. -/
def setsUserData : Request → Option Gpointer
  | .setUserData userData => some userData
  | _ => none

/-- The finally callback that is set. -/
def setsFinally : Request → Option (Option Gpointer)
  | .setFinally finallyCb => some finallyCb
  | _ => none

end Request

/-- What a step sets for a queue is what it asks the queue to set. -/
theorem sets_eq (w : World) (op : Op) (k : TaskQueueKey) :
    op.addsQueue k = (effect w op k).bind Request.addsQueue ∧
      op.setsUserData k = (effect w op k).bind Request.setsUserData ∧
      op.setsFinally k = (effect w op k).bind Request.setsFinally := by
  cases he : effect w op k with
  | some r =>
    cases asked_of_effect he with
    | addQueue _ | setFinally _ | setUserData _ =>
      simp [Op.addsQueue, Op.setsUserData, Op.setsFinally, Request.addsQueue, Request.setsUserData,
        Request.setsFinally]
    | _ => exact ⟨rfl, rfl, rfl⟩
  | none =>
    cases op with
    | addQueue key flags | setFinally key finallyCb | setUserData key userData =>
      have hk : key ≠ k := by
        rintro rfl
        simp [effect] at he
      simp [Op.addsQueue, Op.setsUserData, Op.setsFinally, hk]
    | _ => exact ⟨rfl, rfl, rfl⟩

/-! ## What the calls are told -/

/-- The callbacks among the events get the user data `u`. -/
def Passes (u : Gpointer) (es : List Event) : Prop :=
  ∀ e ∈ es, ∀ k u', e.passes = some (k, u') → u' = u

theorem Passes.append (h : Passes u es) (h' : Passes u es') : Passes u (es ++ es') :=
  fun e he => (List.mem_append.mp he).elim (h e) (h' e)

theorem passes_nil : Passes u [] := fun _ he => absurd he List.not_mem_nil

theorem passes_freeCalls : Passes q.userData (freeCalls k q) := by
  intro e he k' u' hp
  rcases List.mem_append.mp he with he | he
  · obtain ⟨t, -, rfl⟩ := List.mem_map.mp he
    exact (Prod.mk.inj (Option.some.inj hp)).2.symm
  · cases hcb : q.taskQueueFinallyCb with
    | none => simp [hcb] at he
    | some cb =>
      simp only [hcb, List.mem_singleton] at he
      subst he
      exact (Prod.mk.inj (Option.some.inj hp)).2.symm

theorem passes_cancelAndFreeCalls : Passes q.userData (cancelAndFreeCalls k q) := by
  intro e he k' u' hp
  obtain ⟨t, -, he⟩ := List.mem_flatMap.mp he
  simp only [List.mem_cons, List.not_mem_nil, or_false] at he
  rcases he with rfl | rfl <;> exact (Prod.mk.inj (Option.some.inj hp)).2.symm

theorem passes_cancelCb (t : TaskAtom) : Passes u [.cancelCb k t u] := by
  intro e he k' u' hp
  obtain rfl := List.mem_singleton.mp he
  exact (Prod.mk.inj (Option.some.inj hp)).2.symm

theorem passes_cancelCompleteCalls (t : TaskAtom) : Passes q.userData (q.cancelCompleteCalls k t) := by
  intro e he k' u' hp
  simp only [TaskQueue.cancelCompleteCalls, List.mem_cons, List.not_mem_nil, or_false] at he
  rcases he with rfl | rfl | rfl
  · exact (Prod.mk.inj (Option.some.inj hp)).2.symm
  · cases hp
  · exact (Prod.mk.inj (Option.some.inj hp)).2.symm

theorem passes_completed (t : TaskAtom) :
    Passes q.userData ([.completed k t] ++ q.deleteCurrent k) := by
  intro e he k' u' hp
  rcases List.mem_append.mp he with he | he
  · obtain rfl := List.mem_singleton.mp he
    cases hp
  · unfold TaskQueue.deleteCurrent at he
    cases hc : q.currentTask with
    | none => simp [hc] at he
    | some c =>
      simp only [hc, List.mem_singleton] at he
      subst he
      exact (Prod.mk.inj (Option.some.inj hp)).2.symm

/-- Where a queue goes, it is last freed, with the user data and the finally callback that it had. -/
theorem Gone.ends (h : Gone k q r es) : ∃ es0 q1, es = es0 ++ freeCalls k q1 ∧
    q1.userData = q.userData ∧ q1.taskQueueFinallyCb = q.taskQueueFinallyCb ∧
    es0.countP (Event.isFinally k) = 0 ∧ Passes q.userData es0 := by
  cases h with
  | start _ _ _ | removeMarked _ _ _ | drop => exact ⟨[], q, rfl, rfl, rfl, rfl, passes_nil⟩
  | drained _ _ =>
    exact ⟨_, q.drain, rfl, rfl, rfl, countP_isFinally_cancelAndFreeCalls,
      passes_cancelAndFreeCalls⟩
  | completed _ _ _ =>
    refine ⟨_, q.drain, rfl, rfl, rfl, ?_,
      passes_cancelAndFreeCalls.append (passes_cancelCompleteCalls _)⟩
    rw [List.countP_append, countP_isFinally_cancelAndFreeCalls,
      countP_isFinally_cancelCompleteCalls]
  | left _ _ =>
    refine ⟨_, q.drain, rfl, rfl, rfl, ?_, passes_cancelAndFreeCalls.append (passes_cancelCb _)⟩
    rw [List.countP_append, countP_isFinally_cancelAndFreeCalls]
    rfl
  | complete _ | lastComplete =>
    exact ⟨_, q, rfl, rfl, rfl, countP_isFinally_completed, passes_completed _⟩

theorem Gone.passes (h : Gone k q r es) : Passes q.userData es := by
  obtain ⟨es0, q1, rfl, hu, -, -, hp⟩ := h.ends
  have h1 : Passes q1.userData (freeCalls k q1) := passes_freeCalls
  rw [hu] at h1
  exact hp.append h1

theorem Kept.passes (h : Kept k q r q' es) : Passes q.userData es := by
  cases h with
  | start | startWaiting _ _ _ | cancelMarked _ | removeDeferred _ | removeMarked _ _ | setFinally
  | setUserData => exact passes_nil
  | addTask _ | addTaskStart _ _ _ =>
    intro e he k' u' hp
    obtain rfl := List.mem_singleton.mp he
    cases hp
  | dispatch _ =>
    intro e he k' u' hp
    obtain rfl := List.mem_singleton.mp he
    exact (Prod.mk.inj (Option.some.inj hp)).2.symm
  | cancelIdle _ _ => exact passes_cancelAndFreeCalls
  | cancelRunning _ _ | removeRunning _ _ => exact passes_cancelAndFreeCalls.append (passes_cancelCb _)
  | cancelCompleted _ _ _ _ _ =>
    exact passes_cancelAndFreeCalls.append (passes_cancelCompleteCalls _)
  | complete _ _ _ | completeNext _ _ => exact passes_completed _

/-- The finally callback that is called is that of the queue. -/
theorem finallyCb_of_freeCalls {cb : Gpointer} {c : Bool} (h : .finallyCb k cb c u ∈ freeCalls k q) :
    q.taskQueueFinallyCb = some cb := by
  rcases List.mem_append.mp h with h | h
  · obtain ⟨t, -, ht⟩ := List.mem_map.mp h
    cases ht
  · cases hcb : q.taskQueueFinallyCb with
    | none => simp [hcb] at h
    | some cb' =>
      simp only [hcb, List.mem_singleton, Event.finallyCb.injEq] at h
      rw [h.2.1]

theorem serve_finallyCb {o : Option TaskQueue} {cb : Gpointer} {c : Bool}
    (hs : q.serve k r = .ok (o, es)) (he : .finallyCb k cb c u ∈ es) :
    q.taskQueueFinallyCb = some cb := by
  cases answered_of_serve hs with
  | gone h =>
    obtain ⟨es0, q1, rfl, -, hcb, h0, -⟩ := h.ends
    rw [← hcb]
    exact finallyCb_of_freeCalls ((List.mem_append.mp he).resolve_left (notMem_of_countP h0))
  | kept h => exact absurd he (notMem_of_countP h.unfinished)

theorem serve_passes {o : Option TaskQueue} (hs : q.serve k r = .ok (o, es)) :
    Passes q.userData es := by
  cases answered_of_serve hs with
  | gone h => exact h.passes
  | kept h => exact h.passes

/-! ## The life of a queue -/

/-- The life of a queue as it is seen, given what the client set for it. -/
structure QueueView.Lives (k : TaskQueueKey) (flags : Option UInt32) (u : Gpointer)
    (f : Option Gpointer) (v : QueueView) : Prop where
  unknown : flags = none → v.log = [] ∧ v.queue = none ∧ u = 0 ∧ f = none
  record : ∀ q, v.queue = some q →
    flags = some q.flags ∧ q.userData = u ∧ q.taskQueueFinallyCb = f
  added : ∀ fl, flags = some fl →
    ∃ es, v.log = .addQueue k fl :: es ∧ ∀ e ∈ es, e.isAddQueue = false
  registered : ∀ q, v.queue = some q → ∀ e ∈ v.log, e.isFinally k = false
  finished : flags ≠ none → v.queue = none → ∀ cb, f = some cb →
    ∃ es cancelled, v.log = es ++ [.finallyCb k cb cancelled u] ∧ ∀ e ∈ es, e.isFinally k = false
  silent : f = none → ∀ e ∈ v.log, e.isFinally k = false

theorem isAddQueue_of_quiet (h : Quiet es) : ∀ e ∈ es, e.isAddQueue = false := by
  intro e he
  have hq := h e he
  cases e <;> first | rfl | cases hq

theorem isFinally_of_countP (h : es.countP (Event.isFinally k) = 0) :
    ∀ e ∈ es, e.isFinally k = false :=
  fun e he => by simpa using List.countP_eq_zero.mp h e he

/-- What is appended to the history of a queue that was added. -/
theorem QueueView.Lives.added_append (h : v.Lives k flags u f) {fl : UInt32} (hfl : flags = some fl)
    (hes : ∀ e ∈ es, e.isAddQueue = false) :
    ∃ es', v.log ++ es = .addQueue k fl :: es' ∧ ∀ e ∈ es', e.isAddQueue = false := by
  obtain ⟨es0, hlog, h0⟩ := h.added fl hfl
  refine ⟨es0 ++ es, by rw [hlog, List.cons_append], fun e he => ?_⟩
  exact (List.mem_append.mp he).elim (h0 e) (hes e)

theorem forall_append {p : Event → Prop} {l l' : List Event} (h : ∀ e ∈ l, p e) (h' : ∀ e ∈ l', p e) :
    ∀ e ∈ l ++ l', p e := fun e he => (List.mem_append.mp he).elim (h e) (h' e)

theorem Kept.isAddQueue (h : Kept k q r q' es) : ∀ e ∈ es, e.isAddQueue = false := by
  rcases h.events with ⟨t, -, rfl⟩ | ⟨-, t, rfl⟩ | hq
  · simp [Event.isAddQueue]
  · simp [Event.isAddQueue]
  · exact isAddQueue_of_quiet hq

/-- What a queue that stays remembers after the request. -/
theorem Kept.record (h : Kept k q r q' es) : r.addsQueue = none ∧ q'.flags = q.flags ∧
    q'.userData = r.setsUserData.getD q.userData ∧
    q'.taskQueueFinallyCb = r.setsFinally.getD q.taskQueueFinallyCb := by
  cases h <;> exact ⟨rfl, rfl, rfl, rfl⟩

theorem Gone.sets (h : Gone k q r es) :
    r.addsQueue = none ∧ r.setsUserData = none ∧ r.setsFinally = none := by
  cases h with
  | drained _ hr =>
    rcases hr with ⟨sync, rfl⟩ | ⟨⟨sync, rfl | rfl⟩, -⟩ <;> exact ⟨rfl, rfl, rfl⟩
  | completed _ _ hr => rcases hr with rfl | ⟨rfl, -⟩ <;> exact ⟨rfl, rfl, rfl⟩
  | _ => exact ⟨rfl, rfl, rfl⟩

/-- The new queue begins its life. -/
theorem lives_added (h : v.Lives k flags u f) (hlog : v.log = []) (fl : UInt32) :
    (v.put false (some (.new fl)) [.addQueue k fl]).Lives k (some fl) u f := by
  have hnone : flags = none := by
    cases hfl : flags with
    | none => rfl
    | some fl' =>
      obtain ⟨es, hes, -⟩ := h.added fl' hfl
      rw [hlog] at hes
      cases hes
  obtain ⟨-, -, rfl, rfl⟩ := h.unknown hnone
  have hput : (v.put false (some (.new fl)) [.addQueue k fl]).log = [.addQueue k fl] := by
    show v.log ++ _ = _
    rw [hlog, List.nil_append]
  have hfin : ∀ e ∈ [Event.addQueue k fl], e.isFinally k = false := by
    simp [Event.isFinally]
  refine ⟨fun hfl => ?_, ?_, ?_, ?_, ?_, ?_⟩
  · cases hfl
  · intro q hq
    obtain rfl := Option.some.inj hq
    exact ⟨rfl, rfl, rfl⟩
  · intro fl' hfl
    obtain rfl := Option.some.inj hfl
    exact ⟨[], hput, by simp⟩
  · intro q _
    rw [hput]
    exact hfin
  · intro _ hq
    cases hq
  · intro _
    rw [hput]
    exact hfin

/-- A queue that goes ends its life. -/
theorem lives_gone (h : v.Lives k flags u f) (hq : v.queue = some q) (hg : Gone k q r es)
    {b : Bool} : (v.put b none es).Lives k flags u f := by
  obtain ⟨hfl, hu, hf⟩ := h.record q hq
  obtain ⟨es0, q1, rfl, hu1, hf1, h0, -⟩ := hg.ends
  have hpre : ∀ e ∈ v.log ++ es0, e.isFinally k = false :=
    forall_append (h.registered q hq) (isFinally_of_countP h0)
  have hmap : ∀ e ∈ q1.tasks.map fun task => Event.deleteCb k task q1.userData,
      e.isFinally k = false := by
    intro e he
    obtain ⟨t, -, rfl⟩ := List.mem_map.mp he
    rfl
  have hlog : (v.put b none (es0 ++ freeCalls k q1)).log = v.log ++ es0 ++ freeCalls k q1 :=
    (List.append_assoc v.log es0 (freeCalls k q1)).symm
  refine ⟨fun hn => ?_, fun q' hq' => ?_, ?_, fun q' hq' => ?_, ?_, ?_⟩
  · rw [hn] at hfl
    cases hfl
  · cases hq'
  · intro fl hfl'
    exact h.added_append hfl' (isAddQueue_of_quiet hg.quiet)
  · cases hq'
  · intro _ _ cb hcb
    refine ⟨v.log ++ es0 ++ q1.tasks.map fun task => Event.deleteCb k task q1.userData, q1.cancelled,
      ?_, forall_append hpre hmap⟩
    rw [hlog, freeCalls, hf1, hf, hcb, ← List.append_assoc, hu1, hu]
  · intro hnone
    rw [hlog, freeCalls, hf1, hf, hnone, List.append_nil]
    exact forall_append hpre hmap

/-- A queue that stays goes on living. -/
theorem lives_kept (h : v.Lives k flags u f) (hq : v.queue = some q) (hk : Kept k q r q' es)
    {b : Bool} : (v.put b (some q') es).Lives k flags (r.setsUserData.getD u)
      (r.setsFinally.getD f) := by
  obtain ⟨hfl, hu, hf⟩ := h.record q hq
  obtain ⟨-, h1, h2, h3⟩ := hk.record
  have hfin : ∀ e ∈ v.log ++ es, e.isFinally k = false :=
    forall_append (h.registered q hq) (isFinally_of_countP hk.unfinished)
  refine ⟨fun hn => ?_, ?_, ?_, fun _ _ => hfin, fun _ hn => ?_, fun _ => hfin⟩
  · rw [hn] at hfl
    cases hfl
  · intro q'' hq''
    obtain rfl := Option.some.inj hq''
    rw [h1, h2, h3, hu, hf]
    exact ⟨hfl, rfl, rfl⟩
  · intro fl hfl'
    exact h.added_append hfl' hk.isAddQueue
  · cases hn

/-- A request is a moment in the life of the queue. -/
theorem serve_lives {r : Option Request} (h : v.Lives k flags u f)
    (hf : ∀ r', r = some r' → r'.Fits k v) (hs : v.serve? k r = .ok v') :
    v'.Lives k ((r.bind Request.addsQueue).or flags) ((r.bind Request.setsUserData).getD u)
      ((r.bind Request.setsFinally).getD f) := by
  cases served_of_serve? hs with
  | idle => exact h
  | absent hq hreq => rcases hreq with rfl | ⟨sync, rfl | rfl⟩ <;> exact h
  | @added fl hq => exact lives_added h (hf _ rfl) fl
  | @gone q r es hq hg =>
    obtain ⟨h1, h2, h3⟩ := hg.sets
    simpa only [Option.bind_some, h1, h2, h3, Option.none_or, Option.getD_none]
      using lives_gone h hq hg
  | @kept q q' r es hq hk =>
    simpa only [Option.bind_some, hk.record.1, Option.none_or] using lives_kept h hq hk

theorem lives_step (hI : Inv w) (hg : Guard w op) (hs : step w op = .ok w')
    (h : (w.view k).Lives k (addedFlags k ops) (lastUserData k ops) (lastFinally k ops)) :
    (w'.view k).Lives k (addedFlags k (ops ++ [op])) (lastUserData k (ops ++ [op]))
      (lastFinally k (ops ++ [op])) := by
  obtain ⟨h1, h2, h3⟩ := sets_eq w op k
  rw [addedFlags_snoc, lastUserData_snoc, lastFinally_snoc, h1, h2, h3]
  exact serve_lives h (fun _ he => fits_of_guard hg he) ((hI.simulates hg hs).view k)

theorem lives_run {P : World → Op → Prop} (h : processor.Run P ops w) (k : TaskQueueKey) :
    (w.view k).Lives k (addedFlags k ops) (lastUserData k ops) (lastFinally k ops) := by
  induction h with
  | nil =>
    refine ⟨fun _ => ⟨rfl, rfl, rfl, rfl⟩, fun q hq => ?_, fun fl hfl => ?_, fun q hq => ?_,
      fun hn => absurd rfl hn, fun _ e he => absurd he List.not_mem_nil⟩
    · cases hq
    · cases hfl
    · cases hq
  | snoc h hg _ hs ih => exact lives_step (inv_run h) hg hs ih

/-! ## Runs -/

theorem key_of_passes {e : Event} (h : e.passes = some (k, u)) :
    e.key = some k ∧ e.isAddQueue = false := by
  cases e with
  | processCb k' t u' | cancelCb k' t u' | deleteCb k' t u' | finallyCb k' cb c u' =>
    obtain ⟨rfl, -⟩ := Prod.mk.inj (Option.some.inj h)
    exact ⟨rfl, rfl⟩
  | _ => cases h

/-- What the calls are told, from the request that makes them. -/
theorem told_of_events
    (hR : ∀ k q, w.taskQueues.find? k = some q →
      q.userData = lastUserData k ops ∧ q.taskQueueFinallyCb = lastFinally k ops)
    (h : ∀ k, (∀ e ∈ es, e.key = some k → ∃ flags, e = .addQueue k flags) ∨
      ∃ q r o, w.taskQueues.find? k = some q ∧
        q.shape.serve k r = .ok (o, es.filter fun e => e.key = some k)) : Told ops es where
  userData := by
    intro e he k u hp
    obtain ⟨hkey, hadd⟩ := key_of_passes hp
    rcases h k with h | ⟨q, r, o, hq, hs⟩
    · obtain ⟨fl, rfl⟩ := h e he hkey
      cases hadd
    · have hu := serve_passes hs e (List.mem_filter.mpr ⟨he, by simpa using hkey⟩) k u hp
      exact hu.trans (hR k q hq).1
  finallyCb := by
    intro k cb c u he
    rcases h k with h | ⟨q, r, o, hq, hs⟩
    · obtain ⟨fl, hfl⟩ := h _ he rfl
      cases hfl
    · have hcb := serve_finallyCb hs (List.mem_filter.mpr ⟨he, by simp [Event.key]⟩)
      exact (hR k q hq).2.symm.trans hcb

/-- The calls of `dleyna_task_processor_free`, queue by queue. -/
theorem free_events (w : World) : ∃ es, (dleynaTaskProcessorFree w).log = w.log ++ es ∧
    ∀ k, es.filter (fun e => e.key = some k) = dropCalls w.taskQueues k := by
  refine ⟨w.taskQueues.entries.flatMap fun e => freeCalls e.1 e.2, ?_, fun k => ?_⟩
  · rw [dleynaTaskProcessorFree, gHashTableRemoveAll_eq]
  · exact filter_freeCalls w.taskQueues k

theorem livesOnce_of_view
    (h : (w.view k).Lives k (addedFlags k ops) (lastUserData k ops) (lastFinally k ops)) :
    LivesOnce ops w k where
  unknown := fun hn => by
    obtain ⟨hlog, hq, -⟩ := h.unknown hn
    exact ⟨hlog, by simpa [World.view] using hq⟩
  added := h.added
  registered := fun q hq => h.registered q.shape (by simp [World.view, hq])
  finished := fun hne hq => h.finished hne (by simp [World.view, hq])
  silent := h.silent

theorem find?_free (w : World) (k : TaskQueueKey) :
    (dleynaTaskProcessorFree w).taskQueues.find? k = none := by
  rw [dleynaTaskProcessorFree, gHashTableRemoveAll_taskQueues]
  rfl

/-- The queues that are left when the processor is freed end with it. -/
theorem livesOnce_free {P : World → Op → Prop} (h : processor.Run P ops w) (k : TaskQueueKey) :
    LivesOnce ops (dleynaTaskProcessorFree w) k := by
  refine livesOnce_of_view (serve_lives (lives_run h k) (fun r hr => ?_) (free_view (inv_run h) k))
  obtain rfl := Option.some.inj hr
  trivial

/-- A queue that lives once is last heard of when its finally callback is called. -/
theorem finallyCalled_of_livesOnce (h : ∀ k, LivesOnce ops w k) : FinallyCalled ops w := by
  intro k cb hadd hq hcb
  obtain ⟨es, cancelled, hlog, -⟩ := (h k).finished hadd hq cb hcb
  have hm : .finallyCb k cb cancelled (lastUserData k ops) ∈ w.logOf k := by
    rw [hlog]
    exact List.mem_append_right es (List.mem_singleton.mpr rfl)
  exact ⟨cancelled, (List.mem_filter.mp hm).1⟩

/-- In every run the queues and their callbacks are told what the client set last. -/
theorem remembers_run {P : World → Op → Prop} (h : processor.Run P ops w) : Remembers ops w := by
  have hI := inv_run h
  have hR : ∀ k q, w.taskQueues.find? k = some q → addedFlags k ops = some q.flags ∧
      q.userData = lastUserData k ops ∧ q.taskQueueFinallyCb = lastFinally k ops := by
    intro k q hq
    exact (lives_run h k).record q.shape (by simp [World.view, hq])
  refine ⟨hR, fun k u hu => ?_, fun op w' hg hs => ?_, ?_,
    finallyCalled_of_livesOnce fun k => livesOnce_of_view (lives_run h k),
    finallyCalled_of_livesOnce (livesOnce_free h)⟩
  · unfold dleynaTaskQueueGetUserData at hu
    cases hq : w.taskQueues.find? k with
    | none => simp [hq] at hu
    | some q =>
      rw [hq] at hu
      exact Except.ok.inj hu ▸ (hR k q hq).2.1
  · obtain ⟨es, hl⟩ := extends_step hs
    rw [← hl, List.drop_left]
    refine told_of_events (fun k q hq => (hR k q hq).2) fun k => ?_
    rcases step_events hI hg hs hl.symm k with ⟨-, hadd⟩ | ⟨q, r, o, hq, -, hsv⟩
    · exact Or.inl hadd
    · exact Or.inr ⟨q, r, o, hq, hsv⟩
  · obtain ⟨es, hl, hes⟩ := free_events w
    rw [hl, List.drop_left]
    refine told_of_events (fun k q hq => (hR k q hq).2) fun k => ?_
    cases hq : w.taskQueues.find? k with
    | none =>
      left
      intro e he hk
      have hm : e ∈ es.filter fun e => e.key = some k := List.mem_filter.mpr ⟨he, by simpa using hk⟩
      rw [hes, dropCalls_none hq] at hm
      cases hm
    | some q =>
      right
      refine ⟨q, .drop, none, rfl, ?_⟩
      rw [hes, dropCalls_some hq, TaskQueue.serve, freeCalls_shape]

/-- In every run each queue lives once, also if the processor is then freed, which leaves none. -/
theorem livesOnce_run {P : World → Op → Prop} (h : processor.Run P ops w) (k : TaskQueueKey) :
    LivesOnce ops w k ∧ LivesOnce ops (dleynaTaskProcessorFree w) k ∧
      (dleynaTaskProcessorFree w).taskQueues.find? k = none :=
  ⟨livesOnce_of_view (lives_run h k), livesOnce_free h k, find?_free w k⟩

/-- A queue whose user data and finally callback are changed while its tasks are processed. -/
def changedMind : List Op :=
  [.addQueue ⟨1, "a", "b"⟩ 3, .setUserData ⟨1, "a", "b"⟩ 100, .setFinally ⟨1, "a", "b"⟩ (some 50),
    .addTask ⟨1, "a", "b"⟩ 7, .dispatch ⟨1, "a", "b"⟩, .setUserData ⟨1, "a", "b"⟩ 101,
    .addTask ⟨1, "a", "b"⟩ 8, .setFinally ⟨1, "a", "b"⟩ (some 51), .taskCompleted ⟨1, "a", "b"⟩ 7]

theorem remembers_changedMind : Remembers changedMind (processor.final Any changedMind) :=
  remembers_run (System.run_final (P := Any) (by decide))

theorem livesOnce_changedMind :
    LivesOnce changedMind (processor.final Any changedMind) ⟨1, "a", "b"⟩ ∧
      LivesOnce changedMind (dleynaTaskProcessorFree (processor.final Any changedMind))
        ⟨1, "a", "b"⟩ ∧
      (dleynaTaskProcessorFree (processor.final Any changedMind)).taskQueues.find? ⟨1, "a", "b"⟩ =
        none :=
  livesOnce_run (System.run_final (P := Any) (by decide)) ⟨1, "a", "b"⟩

end DleynaCore
