import DleynaCore.TaskProcessor.QueueView

/-!
# How a queue answers a request

`TaskQueue.serve` and `QueueView.serve` read backwards: the ways in which a registered queue can
leave the table, the ways in which it can stay, and what a request does to a queue that is not
registered; and `effect` read backwards: the steps that ask for a request. What is known about requests
is proved by going through these.
-/

namespace DleynaCore

variable {k : TaskQueueKey} {q : TaskQueue} {r : Request} {o : Option TaskQueue} {es : List Event}

/-- The ways in which a registered queue can leave the table, with the calls that are made. -/
inductive Gone (k : TaskQueueKey) (q : TaskQueue) : Request → List Event → Prop where
  | start (hd : q.deferRemove = false) (ht : q.tasks = []) (ha : q.autoRemove = true) :
    Gone k q (.start false) (freeCalls k q)
  | removeMarked {sync : TaskAtom → Bool} (hd : q.deferRemove = false) (hc : q.currentTask = none)
      (hcan : q.cancelled = true) : Gone k q (.remove sync) (freeCalls k q)
  | drop : Gone k q .drop (freeCalls k q)
  /-- The queue was drained, no task running. -/
  | drained {r : Request} (hc : q.currentTask = none)
      (hr : (∃ sync, r = .quitCancel sync) ∨
        (∃ sync, r = .cancel sync ∨ r = .remove sync) ∧ q.cancelled = false) :
    Gone k q r (cancelAndFreeCalls k q ++ freeCalls k q.drain)
  /-- The queue was drained, and the running task completed inside its cancel callback. -/
  | completed {r : Request} {sync : TaskAtom → Bool} {t : TaskAtom} (hc : q.currentTask = some t)
      (hs : sync t = true) (hr : r = .quitCancel sync ∨ r = .cancel sync ∧ q.cancelled = false) :
    Gone k q r (cancelAndFreeCalls k q ++ q.cancelCompleteCalls k t ++ freeCalls k q.drain)
  /-- The queue was drained, and its running task is left behind. -/
  | left {sync : TaskAtom → Bool} {t : TaskAtom} (hc : q.currentTask = some t)
      (hs : sync t = false) : Gone k q (.quitCancel sync)
    (cancelAndFreeCalls k q ++ [.cancelCb k t q.userData] ++ freeCalls k q.drain)
  | complete {t : TaskAtom} (hr : q.deferRemove = true ∨ q.tasks = []) : Gone k q (.complete t)
    ([.completed k t] ++ q.deleteCurrent k ++ freeCalls k q)
  | lastComplete {t : TaskAtom} : Gone k q (.lastComplete t)
    ([.completed k t] ++ q.deleteCurrent k ++ freeCalls k q)

/-- The ways in which a registered queue can stay in the table, with what becomes of its record and
the calls that are made. -/
inductive Kept (k : TaskQueueKey) (q : TaskQueue) : Request → TaskQueue → List Event → Prop where
  /-- There is nothing to start, or no need to. -/
  | start {quitting : Bool} : Kept k q (.start quitting) q []
  | startWaiting (hd : q.deferRemove = false) (ht : q.tasks ≠ []) (hc : q.currentTask = none) :
    Kept k q (.start false) { q with idleId := 1 } []
  | addTask {t : TaskAtom} (hw : q.deferRemove = false → q.autoStart = true →
      q.currentTask ≠ none ∨ q.idleId ≠ 0) :
    Kept k q (.addTask t) { q with tasks := q.tasks ++ [t] } [.addTask k t]
  | addTaskStart {t : TaskAtom} (hd : q.deferRemove = false) (ha : q.autoStart = true)
      (hc : q.currentTask = none) :
    Kept k q (.addTask t) { q with tasks := q.tasks ++ [t], idleId := 1 } [.addTask k t]
  | cancelMarked {sync : TaskAtom → Bool} (hcan : q.cancelled = true) : Kept k q (.cancel sync) q []
  | cancelIdle {sync : TaskAtom → Bool} (hc : q.currentTask = none) (ha : q.autoRemove = false) :
    Kept k q (.cancel sync) q.drain (cancelAndFreeCalls k q)
  | cancelRunning {sync : TaskAtom → Bool} {t : TaskAtom} (hc : q.currentTask = some t)
      (hs : sync t = false) : Kept k q (.cancel sync) q.drain
    (cancelAndFreeCalls k q ++ [.cancelCb k t q.userData])
  /-- The running task completes inside its cancel callback. -/
  | cancelCompleted {sync : TaskAtom → Bool} {t : TaskAtom} (hcan : q.cancelled = false)
      (hc : q.currentTask = some t) (hs : sync t = true) (hd : q.deferRemove = false)
      (ha : q.autoRemove = false) : Kept k q (.cancel sync) { q.drain with currentTask := none }
    (cancelAndFreeCalls k q ++ q.cancelCompleteCalls k t)
  | removeDeferred {sync : TaskAtom → Bool} (hd : q.deferRemove = true) : Kept k q (.remove sync) q []
  | removeMarked {sync : TaskAtom → Bool} {t : TaskAtom} (hc : q.currentTask = some t)
      (hcan : q.cancelled = true) : Kept k q (.remove sync) { q with deferRemove := true } []
  | removeRunning {sync : TaskAtom → Bool} {t : TaskAtom} (hc : q.currentTask = some t)
      (hs : sync t = false) : Kept k q (.remove sync) { q.drain with deferRemove := true }
    (cancelAndFreeCalls k q ++ [.cancelCb k t q.userData])
  | complete {t : TaskAtom} (hd : q.deferRemove = false) (ht : q.tasks = [])
      (ha : q.autoRemove = false) : Kept k q (.complete t) { q with currentTask := none }
    ([.completed k t] ++ q.deleteCurrent k)
  | completeNext {t : TaskAtom} (hd : q.deferRemove = false) (ht : q.tasks ≠ []) :
    Kept k q (.complete t) { q with currentTask := none, idleId := 1 }
      ([.completed k t] ++ q.deleteCurrent k)
  | dispatch {t : TaskAtom} {ts : List TaskAtom} (ht : q.tasks = t :: ts) : Kept k q .dispatch
    { q with cancelled := false, idleId := 0, currentTask := some t, tasks := ts }
    [.processCb k t q.userData]
  | setFinally {cb : Option Gpointer} :
    Kept k q (.setFinally cb) { q with taskQueueFinallyCb := cb } []
  | setUserData {u : Gpointer} : Kept k q (.setUserData u) { q with userData := u } []

/-- A registered queue leaves the table or stays. -/
inductive Answered (k : TaskQueueKey) (q : TaskQueue) (r : Request) :
    Option TaskQueue → List Event → Prop where
  | gone {es : List Event} (h : Gone k q r es) : Answered k q r none es
  | kept {q' : TaskQueue} {es : List Event} (h : Kept k q r q' es) : Answered k q r (some q') es

/-- What becomes of a queue whose running task has just been deleted. -/
theorem finish_cases (k : TaskQueueKey) (q : TaskQueue) :
    q.finish k = (none, freeCalls k q) ∧ (q.deferRemove = true ∨ q.tasks = []) ∨
      q.finish k = (some { q with currentTask := none, idleId := 1 }, []) ∧
        q.deferRemove = false ∧ q.tasks ≠ [] ∨
      q.finish k = (some { q with currentTask := none }, []) ∧
        q.deferRemove = false ∧ q.tasks = [] ∧ q.autoRemove = false := by
  unfold TaskQueue.finish
  cases hd : q.deferRemove with
  | true => exact Or.inl ⟨rfl, Or.inl rfl⟩
  | false =>
    rw [if_neg (by simp)]
    by_cases ht : 0 < q.tasks.length
    · rw [if_pos ht]
      exact Or.inr (Or.inl ⟨rfl, rfl, List.length_pos_iff.mp ht⟩)
    · have ht' : q.tasks = [] := by simpa using ht
      rw [if_neg ht]
      cases ha : q.autoRemove with
      | true => exact Or.inl ⟨rfl, Or.inr ht'⟩
      | false => exact Or.inr (Or.inr ⟨rfl, rfl, ht', rfl⟩)

section Serve

variable {sync : TaskAtom → Bool} {t : TaskAtom}

theorem answered_start {quitting : Bool} (hs : q.serve k (.start quitting) = .ok (o, es)) :
    Answered k q (.start quitting) o es := by
  simp only [TaskQueue.serve, Except.ok.injEq] at hs
  cases quitting with
  | true =>
    obtain ⟨rfl, rfl⟩ := Prod.mk.inj hs
    exact .kept .start
  | false =>
    rw [if_neg (by simp)] at hs
    by_cases hd : q.deferRemove = true
    · rw [if_pos hd] at hs
      obtain ⟨rfl, rfl⟩ := Prod.mk.inj hs
      exact .kept .start
    rw [if_neg hd] at hs
    rw [Bool.not_eq_true] at hd
    by_cases ht : 0 < q.tasks.length
    · rw [if_pos ht] at hs
      by_cases hi : (q.currentTask.isNone && q.idleId == 0) = true
      · rw [if_pos hi] at hs
        obtain ⟨rfl, rfl⟩ := Prod.mk.inj hs
        rw [Bool.and_eq_true, Option.isNone_iff_eq_none] at hi
        exact .kept (.startWaiting hd (List.length_pos_iff.mp ht) hi.1)
      · rw [if_neg hi] at hs
        obtain ⟨rfl, rfl⟩ := Prod.mk.inj hs
        exact .kept .start
    · rw [if_neg ht] at hs
      by_cases ha : q.autoRemove = true
      · rw [if_pos ha] at hs
        obtain ⟨rfl, rfl⟩ := Prod.mk.inj hs
        exact .gone (.start hd (by simpa using ht) ha)
      · rw [if_neg ha] at hs
        obtain ⟨rfl, rfl⟩ := Prod.mk.inj hs
        exact .kept .start

theorem answered_addTask (hs : q.serve k (.addTask t) = .ok (o, es)) :
    Answered k q (.addTask t) o es := by
  obtain ⟨rfl, rfl⟩ := Prod.mk.inj (Except.ok.inj hs)
  by_cases hd : q.deferRemove = true
  · rw [if_pos hd]
    exact .kept (.addTask fun h => by simp [hd] at h)
  rw [if_neg hd]
  by_cases hst : (q.autoStart && (q.currentTask.isNone && q.idleId == 0)) = true
  · rw [if_pos hst]
    rw [Bool.and_eq_true, Bool.and_eq_true, Option.isNone_iff_eq_none] at hst
    exact .kept (.addTaskStart (by simpa using hd) hst.1 hst.2.1)
  · rw [if_neg hst]
    refine .kept (.addTask fun _ ha => ?_)
    by_contra hn
    rw [not_or, not_not, not_not] at hn
    exact hst (by simp [ha, hn.1, hn.2])

theorem answered_cancel (hs : q.serve k (.cancel sync) = .ok (o, es)) :
    Answered k q (.cancel sync) o es := by
  simp only [TaskQueue.serve, Except.ok.injEq] at hs
  by_cases hcan : q.cancelled = true
  · rw [if_pos hcan] at hs
    obtain ⟨rfl, rfl⟩ := Prod.mk.inj hs
    exact .kept (.cancelMarked hcan)
  rw [if_neg hcan] at hs
  rw [Bool.not_eq_true] at hcan
  cases hc : q.currentTask with
  | none =>
    simp only [hc] at hs
    by_cases ha : q.autoRemove = true
    · rw [if_pos ha] at hs
      obtain ⟨rfl, rfl⟩ := Prod.mk.inj hs
      exact .gone (.drained hc (Or.inr ⟨⟨sync, Or.inl rfl⟩, hcan⟩))
    · rw [if_neg ha] at hs
      obtain ⟨rfl, rfl⟩ := Prod.mk.inj hs
      exact .kept (.cancelIdle hc (by simpa using ha))
  | some t =>
    simp only [hc] at hs
    by_cases hsync : sync t = true
    · rw [if_pos hsync] at hs
      obtain ⟨rfl, rfl⟩ := Prod.mk.inj hs
      rcases finish_cases k q.drain with ⟨hf, -⟩ | ⟨-, -, ht⟩ | ⟨hf, hd, -, ha⟩
      · rw [hf]
        exact .gone (.completed hc hsync (Or.inr ⟨rfl, hcan⟩))
      · exact absurd rfl ht
      · rw [hf, List.append_nil]
        exact .kept (.cancelCompleted hcan hc hsync hd ha)
    · rw [if_neg hsync] at hs
      obtain ⟨rfl, rfl⟩ := Prod.mk.inj hs
      exact .kept (.cancelRunning hc (by simpa using hsync))

theorem answered_remove (hs : q.serve k (.remove sync) = .ok (o, es)) :
    Answered k q (.remove sync) o es := by
  simp only [TaskQueue.serve] at hs
  by_cases hd : q.deferRemove = true
  · rw [if_pos hd] at hs
    obtain ⟨rfl, rfl⟩ := Prod.mk.inj (Except.ok.inj hs)
    exact .kept (.removeDeferred hd)
  rw [if_neg hd] at hs
  rw [Bool.not_eq_true] at hd
  cases hc : q.currentTask with
  | none =>
    simp only [hc] at hs
    by_cases hcan : q.cancelled = true
    · rw [if_pos hcan] at hs
      obtain ⟨rfl, rfl⟩ := Prod.mk.inj (Except.ok.inj hs)
      exact .gone (.removeMarked hd hc hcan)
    · rw [if_neg hcan] at hs
      by_cases ha : q.autoRemove = true
      · simp [ha] at hs
      · rw [if_neg ha] at hs
        obtain ⟨rfl, rfl⟩ := Prod.mk.inj (Except.ok.inj hs)
        exact .gone (.drained hc (Or.inr ⟨⟨sync, Or.inr rfl⟩, by simpa using hcan⟩))
  | some t =>
    simp only [hc] at hs
    by_cases hcan : q.cancelled = true
    · rw [if_pos hcan] at hs
      obtain ⟨rfl, rfl⟩ := Prod.mk.inj (Except.ok.inj hs)
      rw [← hc]
      exact .kept (.removeMarked hc hcan)
    · rw [if_neg hcan] at hs
      by_cases hsync : sync t = true
      · simp [hsync] at hs
      · rw [if_neg hsync] at hs
        obtain ⟨rfl, rfl⟩ := Prod.mk.inj (Except.ok.inj hs)
        exact .kept (.removeRunning hc (by simpa using hsync))

theorem answered_complete (hs : q.serve k (.complete t) = .ok (o, es)) :
    Answered k q (.complete t) o es := by
  obtain ⟨rfl, rfl⟩ := Prod.mk.inj (Except.ok.inj hs)
  rcases finish_cases k q with ⟨hf, hr⟩ | ⟨hf, hd, ht⟩ | ⟨hf, hd, ht, ha⟩
  · rw [hf]
    exact .gone (.complete hr)
  · rw [hf, List.append_nil]
    exact .kept (.completeNext hd ht)
  · rw [hf, List.append_nil]
    exact .kept (.complete hd ht ha)

theorem answered_quitCancel (hs : q.serve k (.quitCancel sync) = .ok (o, es)) :
    Answered k q (.quitCancel sync) o es := by
  obtain ⟨rfl, rfl⟩ := Prod.mk.inj (Except.ok.inj hs)
  cases hc : q.currentTask with
  | none => exact .gone (.drained hc (Or.inl ⟨sync, rfl⟩))
  | some t =>
    by_cases hsync : sync t = true
    · simp only [if_pos hsync]
      exact .gone (.completed hc hsync (Or.inl rfl))
    · simp only [if_neg hsync]
      exact .gone (.left hc (by simpa using hsync))

theorem answered_of_serve (hs : q.serve k r = .ok (o, es)) : Answered k q r o es := by
  cases r with
  | addQueue flags => simp [TaskQueue.serve] at hs
  | addTask t => exact answered_addTask hs
  | start quitting => exact answered_start hs
  | cancel sync => exact answered_cancel hs
  | remove sync => exact answered_remove hs
  | complete t => exact answered_complete hs
  | dispatch =>
    simp only [TaskQueue.serve] at hs
    cases ht : q.tasks with
    | nil => simp [ht] at hs
    | cons t ts =>
      simp only [ht] at hs
      obtain ⟨rfl, rfl⟩ := Prod.mk.inj (Except.ok.inj hs)
      exact .kept (.dispatch ht)
  | setFinally cb =>
    obtain ⟨rfl, rfl⟩ := Prod.mk.inj (Except.ok.inj hs)
    exact .kept .setFinally
  | setUserData u =>
    obtain ⟨rfl, rfl⟩ := Prod.mk.inj (Except.ok.inj hs)
    exact .kept .setUserData
  | lastComplete t =>
    obtain ⟨rfl, rfl⟩ := Prod.mk.inj (Except.ok.inj hs)
    exact .gone .lastComplete
  | quitCancel sync => exact answered_quitCancel hs
  | drop =>
    obtain ⟨rfl, rfl⟩ := Prod.mk.inj (Except.ok.inj hs)
    exact .gone .drop

end Serve

/-- What an optional request does to what is seen from a queue. -/
inductive Served (k : TaskQueueKey) (v : QueueView) : Option Request → QueueView → Prop where
  | idle : Served k v none v
  /-- A traversal of the table does not find the queue. -/
  | absent {r : Request} (hq : v.queue = none)
      (hr : r = .drop ∨ ∃ sync, r = .remove sync ∨ r = .quitCancel sync) : Served k v (some r) v
  | added {flags : UInt32} (hq : v.queue = none) : Served k v (some (.addQueue flags))
    (v.put false (some (.new flags)) [.addQueue k flags])
  | gone {q : TaskQueue} {r : Request} {es : List Event} (hq : v.queue = some q)
      (h : Gone k q r es) : Served k v (some r) (v.put (q.stops r) none es)
  | kept {q q' : TaskQueue} {r : Request} {es : List Event} (hq : v.queue = some q)
      (h : Kept k q r q' es) : Served k v (some r) (v.put (q.stops r) (some q') es)

theorem served_of_serve {v v' : QueueView} (hs : v.serve k r = .ok v') : Served k v (some r) v' := by
  unfold QueueView.serve at hs
  cases hq : v.queue with
  | some q =>
    simp only [hq] at hs
    cases hsv : q.serve k r with
    | error fault => simp [hsv] at hs
    | ok a =>
      obtain ⟨o, es⟩ := a
      rw [hsv] at hs
      obtain rfl := Except.ok.inj hs
      cases answered_of_serve hsv with
      | gone h => exact .gone hq h
      | kept h => exact .kept hq h
  | none =>
    simp only [hq] at hs
    split at hs
    · obtain rfl := Except.ok.inj hs
      exact .added hq
    · exact Except.ok.inj hs ▸ .absent hq (Or.inr ⟨_, Or.inl rfl⟩)
    · exact Except.ok.inj hs ▸ .absent hq (Or.inr ⟨_, Or.inr rfl⟩)
    · exact Except.ok.inj hs ▸ .absent hq (Or.inl rfl)
    · simp at hs

theorem served_of_serve? {v v' : QueueView} {r : Option Request} (hs : v.serve? k r = .ok v') :
    Served k v r v' := by
  cases r with
  | none =>
    obtain rfl : v = v' := Except.ok.inj hs
    exact .idle
  | some r => exact served_of_serve hs

/-- A queue that is not in the table after a request was not there before, or has just gone. -/
theorem gone_of_serve {v v' : QueueView} {r : Option Request} (hs : v.serve? k r = .ok v')
    (hn : v'.queue = none) : v' = v ∨ ∃ q r' es,
      v.queue = some q ∧ r = some r' ∧ Gone k q r' es ∧ v' = v.put (q.stops r') none es := by
  cases served_of_serve? hs with
  | idle => exact Or.inl rfl
  | absent _ _ => exact Or.inl rfl
  | added _ => simp [QueueView.put] at hn
  | gone hq h => exact Or.inr ⟨_, _, _, hq, rfl, h, rfl⟩
  | kept _ _ => simp [QueueView.put] at hn

/-! ## Events -/

/-- An event other than the start of something: a queue or a task that is added or processed. -/
def Event.quiet : Event → Bool
  | .addQueue _ _ | .addTask _ _ | .processCb _ _ _ => false
  | _ => true

/-- None of the events starts anything. -/
def Quiet (es : List Event) : Prop := ∀ e ∈ es, e.quiet = true

theorem Quiet.append {es es' : List Event} (h : Quiet es) (h' : Quiet es') : Quiet (es ++ es') :=
  fun e he => (List.mem_append.mp he).elim (h e) (h' e)

theorem quiet_nil : Quiet [] := fun _ he => absurd he List.not_mem_nil

theorem quiet_freeCalls : Quiet (freeCalls k q) := by
  intro e he
  rcases List.mem_append.mp he with he | he
  · obtain ⟨t, -, rfl⟩ := List.mem_map.mp he
    rfl
  · cases hcb : q.taskQueueFinallyCb with
    | none => simp [hcb] at he
    | some cb =>
      simp only [hcb, List.mem_singleton] at he
      rw [he]
      rfl

theorem quiet_cancelAndFreeCalls : Quiet (cancelAndFreeCalls k q) := by
  intro e he
  obtain ⟨t, -, he⟩ := List.mem_flatMap.mp he
  simp only [List.mem_cons, List.not_mem_nil, or_false] at he
  rcases he with rfl | rfl <;> rfl

theorem quiet_cancelCb (t : TaskAtom) (u : Gpointer) : Quiet [.cancelCb k t u] := by
  simp [Quiet, Event.quiet]

theorem quiet_cancelCompleteCalls (t : TaskAtom) : Quiet (q.cancelCompleteCalls k t) := by
  simp [Quiet, TaskQueue.cancelCompleteCalls, Event.quiet]

theorem quiet_completed (t : TaskAtom) : Quiet ([.completed k t] ++ q.deleteCurrent k) := by
  unfold TaskQueue.deleteCurrent
  cases q.currentTask <;> simp [Quiet, Event.quiet]

/-- A queue that goes starts nothing. -/
theorem Gone.quiet (h : Gone k q r es) : Quiet es := by
  cases h with
  | start _ _ _ | removeMarked _ _ _ | drop => exact quiet_freeCalls
  | drained _ _ => exact quiet_cancelAndFreeCalls.append quiet_freeCalls
  | completed _ _ _ =>
    exact (quiet_cancelAndFreeCalls.append (quiet_cancelCompleteCalls _)).append quiet_freeCalls
  | left _ _ => exact (quiet_cancelAndFreeCalls.append (quiet_cancelCb _ _)).append quiet_freeCalls
  | complete _ | lastComplete => exact (quiet_completed _).append quiet_freeCalls

/-- Tasks are added and processed by the requests to do so, and by no others. -/
theorem Kept.events {q' : TaskQueue} (h : Kept k q r q' es) :
    (∃ t, r = .addTask t ∧ es = [.addTask k t]) ∨
      (r = .dispatch ∧ ∃ t, es = [.processCb k t q.userData]) ∨ Quiet es := by
  cases h with
  | addTask _ | addTaskStart _ _ _ => exact Or.inl ⟨_, rfl, rfl⟩
  | dispatch _ => exact Or.inr (Or.inl ⟨rfl, _, rfl⟩)
  | start | startWaiting _ _ _ | cancelMarked _ | removeDeferred _ | removeMarked _ _ | setFinally
  | setUserData => exact Or.inr (Or.inr quiet_nil)
  | cancelIdle _ _ => exact Or.inr (Or.inr quiet_cancelAndFreeCalls)
  | cancelRunning _ _ | removeRunning _ _ =>
    exact Or.inr (Or.inr (quiet_cancelAndFreeCalls.append (quiet_cancelCb _ _)))
  | cancelCompleted _ _ _ _ _ =>
    exact Or.inr (Or.inr (quiet_cancelAndFreeCalls.append (quiet_cancelCompleteCalls _)))
  | complete _ _ _ | completeNext _ _ => exact Or.inr (Or.inr (quiet_completed _))

/-- What a request adds to the history of a queue. -/
theorem serve_log {v v' : QueueView} {r : Option Request} (hs : v.serve? k r = .ok v') :
    ∃ es, v'.log = v.log ++ es ∧ ((∃ t, r = some (.addTask t) ∧ es = [.addTask k t]) ∨
      (r = some .dispatch ∧ ∃ t u, es = [.processCb k t u]) ∨
      (∃ flags, r = some (.addQueue flags) ∧ es = [.addQueue k flags]) ∨ Quiet es) := by
  cases served_of_serve? hs with
  | idle | absent _ _ => exact ⟨[], by simp, Or.inr (Or.inr (Or.inr quiet_nil))⟩
  | added _ => exact ⟨_, rfl, Or.inr (Or.inr (Or.inl ⟨_, rfl, rfl⟩))⟩
  | gone _ h => exact ⟨_, rfl, Or.inr (Or.inr (Or.inr h.quiet))⟩
  | kept _ h =>
    refine ⟨_, rfl, ?_⟩
    rcases h.events with ⟨t, rfl, he⟩ | ⟨rfl, t, he⟩ | he
    · exact Or.inl ⟨t, rfl, he⟩
    · exact Or.inr (Or.inl ⟨rfl, t, _, he⟩)
    · exact Or.inr (Or.inr (Or.inr he))

/-! ## What a step asks -/

/-- The ways in which a step can ask something of the queue `k`. -/
inductive Asked (w : World) (k : TaskQueueKey) : Op → Request → Prop where
  | addQueue (flags : UInt32) : Asked w k (.addQueue k flags) (.addQueue flags)
  | addTask (task : TaskAtom) : Asked w k (.addTask k task) (.addTask task)
  | start : Asked w k (.start k) (.start w.quitting)
  | cancel (sync : TaskAtom → Bool) (hl : (w.lastTask && w.completesOnCancel sync k) = false) :
    Asked w k (.cancelQueue k sync) (.cancel sync)
  | cancelLast (sync : TaskAtom → Bool) (hl : (w.lastTask && w.completesOnCancel sync k) = true) :
    Asked w k (.cancelQueue k sync) (.quitCancel sync)
  /-- Cancelling another queue completes the last running task. -/
  | cancelOther {queueId : TaskQueueKey} (sync : TaskAtom → Bool) (hk : k ≠ queueId)
      (hl : (w.lastTask && w.completesOnCancel sync queueId) = true) :
    Asked w k (.cancelQueue queueId sync) .drop
  | removeForSource (sync : TaskAtom → Bool) :
    Asked w k (.removeQueuesForSource k.source sync) (.remove sync)
  | removeForSink (sync : TaskAtom → Bool) :
    Asked w k (.removeQueuesForSink k.sink sync) (.remove sync)
  | reached (sync : TaskAtom → Bool) (hr : w.Reached sync k) (hcan : w.isCancelled k = false) :
    Asked w k (.setQuitting sync) (.quitCancel sync)
  | passed (sync : TaskAtom → Bool) (hr : ¬ (w.Reached sync k ∧ w.isCancelled k = false)) :
    Asked w k (.setQuitting sync) .drop
  | complete (task : TaskAtom) (hl : w.lastTask = false) :
    Asked w k (.taskCompleted k task) (.complete task)
  | completeLast (task : TaskAtom) (hl : w.lastTask = true) :
    Asked w k (.taskCompleted k task) (.lastComplete task)
  /-- The last running task is that of another queue. -/
  | completeOther {queueId : TaskQueueKey} (task : TaskAtom) (hk : k ≠ queueId)
      (hl : w.lastTask = true) : Asked w k (.taskCompleted queueId task) .drop
  | setFinally (finallyCb : Option Gpointer) :
    Asked w k (.setFinally k finallyCb) (.setFinally finallyCb)
  | setUserData (userData : Gpointer) : Asked w k (.setUserData k userData) (.setUserData userData)
  | dispatch : Asked w k (.dispatch k) .dispatch

/-- A step that asks something of a queue does it in one of these ways. -/
theorem asked_of_effect {w : World} {op : Op} (h : effect w op k = some r) : Asked w k op r := by
  cases op with
  | cancelQueue queueId sync =>
    simp only [effect] at h
    split at h
    · next hl =>
      obtain rfl := Option.some.inj h
      split
      · next hk =>
        subst hk
        exact .cancelLast sync hl
      · next hk => exact .cancelOther sync hk hl
    · next hl =>
      simp only [Option.ite_none_right_eq_some, Option.some.injEq] at h
      obtain ⟨rfl, rfl⟩ := h
      exact .cancel sync (Bool.not_eq_true _ ▸ hl)
  | setQuitting sync =>
    simp only [effect, Option.some.injEq] at h
    subst h
    split
    · next hr => exact .reached sync hr.1 hr.2
    · next hr => exact .passed sync hr
  | taskCompleted queueId task =>
    simp only [effect] at h
    split at h
    · next hl =>
      obtain rfl := Option.some.inj h
      split
      · next hk =>
        subst hk
        exact .completeLast task hl
      · next hk => exact .completeOther task hk hl
    · next hl =>
      simp only [Option.ite_none_right_eq_some, Option.some.injEq] at h
      obtain ⟨rfl, rfl⟩ := h
      exact .complete task (Bool.not_eq_true _ ▸ hl)
  | addQueue key flags | addTask queueId task | start queueId | setFinally queueId finallyCb
  | setUserData queueId userData | dispatch queueId | removeQueuesForSource source sync
  | removeQueuesForSink sink sync =>
    simp only [effect, Option.ite_none_right_eq_some, Option.some.injEq] at h
    obtain ⟨rfl, rfl⟩ := h
    constructor
  | dispatchQuit | rehash taskQueues => cases h

end DleynaCore
