import DleynaCore.TaskProcessor.Proofs.CompletionProofs
import DleynaCore.TaskProcessor.Proofs.LogProofs

/-!
# The quit callback

Neither of the two functions that schedule `on_quit_cb` remembers that it did. What makes the callback
run once, on an empty table, is that scheduling it empties the table, so that only the environment can
bring about another reason to schedule it, or put a queue into the table before it runs.
-/

namespace DleynaCore

variable {w w' : World} {k : TaskQueueKey} {ops : List Op}

/-! ## The traversal -/

/-- The traversal cannot complete the last task when more tasks run than there are queues. -/
theorem quitCompletes_of_lt {sync : TaskAtom → Bool} {es : List (TaskQueueKey × TaskQueue)} {n : Nat}
    (h : es.length < n) (hn : n ≤ guintSize) : quitCompletes sync n es = false := by
  induction es generalizing n with
  | nil => rfl
  | cons e es ih =>
    obtain ⟨k, q⟩ := e
    rw [List.length_cons] at h
    have hpred : guintPred n = n - 1 := guintPred_eq (by omega) hn
    unfold quitCompletes
    split
    · split
      · rw [hpred, beq_eq_false_iff_ne]
        omega
      · exact ih (by omega) (by omega)
    · exact ih (by omega) hn

/-- When no task runs, the traversal does not complete the last one. -/
theorem quitCompletes_zero {sync : TaskAtom → Bool} {es : List (TaskQueueKey × TaskQueue)}
    (h : es.length < guintSize) : quitCompletes sync 0 es = false := by
  induction es with
  | nil => rfl
  | cons e es ih =>
    obtain ⟨k, q⟩ := e
    rw [List.length_cons] at h
    -- the counter wraps to a number that the remaining queues cannot bring down
    have hpred : guintPred 0 = guintSize - 1 := by decide
    unfold quitCompletes
    split
    · split
      · rw [hpred]
        decide
      · rw [hpred]
        exact quitCompletes_of_lt (by omega) (by omega)
    · exact ih (by omega)

/-- Without a completion the traversal does not complete the last task. -/
theorem quitCompletes_none {sync : TaskAtom → Bool} {es : List (TaskQueueKey × TaskQueue)} {n : Nat}
    (h : ∀ e ∈ es, e.2.completesOnCancel sync = false) : quitCompletes sync n es = false := by
  induction es with
  | nil => rfl
  | cons e es ih =>
    obtain ⟨k, q⟩ := e
    have hq : q.completesOnCancel sync = false := h (k, q) (by simp)
    unfold quitCompletes
    rw [if_neg (by simp [hq])]
    exact ih fun e he => h e (List.mem_cons_of_mem _ he)

/-! ## What a step does to the shutdown -/

/-- What a step does to the shutdown. -/
inductive QuitStep (w w' : World) : Prop where
  /-- Nothing, or it sets the flag. -/
  | plain {es : List Event} (hes : es = [] ∨ es = [.setQuitting])
      (hl : w'.quitView.log = w.quitView.log ++ es) (hp : w'.quitView.pending = w.quitView.pending)
  /-- It schedules `on_quit_cb`, and no queue is left. -/
  | schedule {es : List Event} (hes : es = [] ∨ es = [.setQuitting])
      (hl : w'.quitView.log = w.quitView.log ++ es ++ [.scheduleQuit true 0])
      (hp : w'.quitView.pending = w.quitView.pending + 1) (hq : ∀ k, (w'.view k).queue = none)
  /-- It runs `on_quit_cb`. -/
  | run (hl : w'.quitView.log = w.quitView.log ++ [.quitCb w.taskQueues.size])
      (hp : w'.quitView.pending + 1 = w.quitView.pending)

theorem quitView_pending_pos (h : IdleSource.onQuitCb ∈ w.sources.map Prod.snd) :
    0 < w.quitView.pending := by
  obtain ⟨⟨id, s⟩, hm, rfl⟩ := List.mem_map.mp h
  exact List.length_pos_of_mem (List.mem_filter.mpr ⟨hm, by simp⟩)

theorem mem_onQuitCb (h : 0 < w.quitView.pending) : IdleSource.onQuitCb ∈ w.sources.map Prod.snd := by
  obtain ⟨⟨id, s⟩, hm⟩ := List.exists_mem_of_length_pos h
  obtain ⟨hm, hs⟩ := List.mem_filter.mp hm
  exact List.mem_map.mpr ⟨_, hm, by simpa using hs⟩

theorem guard_setQuitting (w : World) (sync : TaskAtom → Bool) : Guard w (.setQuitting sync) :=
  trivial

/-- Quitting removes every queue. -/
theorem queues_setQuitting {sync : TaskAtom → Bool} (hI : Inv w)
    (hs : step w (.setQuitting sync) = .ok w') (k : TaskQueueKey) : (w'.view k).queue = none := by
  have hv := (hI.simulates (guard_setQuitting w sync) hs).view k
  simp only [effect, QueueView.serve?] at hv
  refine serve_removes ?_ hv
  split <;> rfl

/-- The last completion of a quitting processor removes every queue. -/
theorem queues_lastTask {op : Op} (hI : Inv w) (hg : Guard w op) (hs : step w op = .ok w')
    (hop : ∀ k, ∃ r, effect w op k = some r ∧ r.removes = true) (k : TaskQueueKey) :
    (w'.view k).queue = none := by
  have hv := (hI.simulates hg hs).view k
  obtain ⟨r, he, hr⟩ := hop k
  rw [he] at hv
  exact serve_removes hr hv

/-- A step that may complete the last task of a quitting processor. -/
theorem quitStep_last {op : Op} {b : Bool} (hI : Inv w) (hg : Guard w op)
    (hs : step w op = .ok w') (hl : b = true → w.lastTask = true)
    (hop : b = true → ∀ k, ∃ r, effect w op k = some r ∧ r.removes = true)
    (hq : w'.quitView = if b then w.quitView.schedule 0 else w.quitView) : QuitStep w w' := by
  cases b with
  | true =>
    have hqt : w.quitting = true := by
      have hl := hl rfl
      simp only [World.lastTask, Bool.and_eq_true] at hl
      exact hl.1
    rw [if_pos rfl] at hq
    refine .schedule (Or.inl rfl) ?_ ?_ (queues_lastTask hI hg hs (hop rfl))
    · rw [hq]
      simp [QuitView.schedule, World.quitView, hqt]
    · rw [hq]
      rfl
  | false =>
    rw [if_neg (by simp)] at hq
    exact .plain (Or.inl rfl) (by rw [hq]; simp) (by rw [hq])

theorem quitStep (hI : Inv w) (hlt : w.taskQueues.size < guintSize) {op : Op} (hg : Guard w op)
    (hs : step w op = .ok w') : QuitStep w w' := by
  have hq := (hI.simulates hg hs).quit
  cases op with
  | taskCompleted queueId task =>
    refine quitStep_last hI hg hs id (fun hl k => ?_) hq
    simp only [effect, hl, if_true]
    split
    · exact ⟨_, rfl, rfl⟩
    · exact ⟨_, rfl, rfl⟩
  | cancelQueue queueId sync =>
    refine quitStep_last hI hg hs (fun hl => (Bool.and_eq_true_iff.mp hl).1) (fun hl k => ?_) hq
    simp only [effect, hl, if_true]
    split
    · exact ⟨_, rfl, rfl⟩
    · exact ⟨_, rfl, rfl⟩
  | setQuitting sync =>
    have hempty := queues_setQuitting hI hs
    simp only [quitAfter, QuitView.setQuitting] at hq
    by_cases hr : w.runningTasks = 0
    · have hcomp : quitCompletes sync w.runningTasks w.taskQueues.entries = false := by
        rw [hr]
        exact quitCompletes_zero hlt
      rw [if_pos hr, hcomp, if_neg (by simp)] at hq
      refine .schedule (Or.inr rfl) ?_ ?_ hempty
      · rw [hq]
        rfl
      · rw [hq]
        rfl
    · rw [if_neg hr] at hq
      cases hcomp : quitCompletes sync w.runningTasks w.taskQueues.entries with
      | true =>
        rw [hcomp, if_pos rfl] at hq
        refine .schedule (Or.inr rfl) ?_ ?_ hempty
        · rw [hq]
          rfl
        · rw [hq]
          rfl
      | false =>
        rw [hcomp, if_neg (by simp)] at hq
        exact .plain (Or.inr rfl) (by rw [hq]) (by rw [hq])
  | dispatchQuit =>
    have hpos := quitView_pending_pos hg
    refine .run (by rw [hq]; rfl) ?_
    rw [hq]
    show w.quitView.pending - 1 + 1 = w.quitView.pending
    omega
  | addQueue key flags | addTask queueId task | start queueId | setFinally queueId finallyCb
  | setUserData queueId userData | dispatch queueId | removeQueuesForSource source sync
  | removeQueuesForSink sink sync | rehash taskQueues =>
    exact .plain (Or.inl rfl) (by rw [hq]; simp [quitAfter]) (by rw [hq]; rfl)

/-- Under the condition, a step that schedules `on_quit_cb` is the first to do so. -/
theorem scheduled_step {op : Op} (hI : Inv w) (hg : Guard w op) (hs : step w op = .ok w')
    (hc : SchedulesOnce w op) (hsch : w.scheduled = true) :
    ∃ es, w'.quitView.log = w.quitView.log ++ es ∧ ∀ e ∈ es, e.isSchedule = false := by
  have hq := congrArg QuitView.log (hI.simulates hg hs).quit
  cases op with
  | taskCompleted queueId task =>
    have hl := hc hsch
    rw [quitAfter, hl, if_neg (by simp)] at hq
    exact ⟨[], by simpa using hq, by simp⟩
  | cancelQueue queueId sync =>
    have hl := hc hsch
    rw [quitAfter, hl, if_neg (by simp)] at hq
    exact ⟨[], by simpa using hq, by simp⟩
  | setQuitting sync =>
    obtain ⟨hr, hn⟩ := hc hsch
    simp only [quitAfter, QuitView.setQuitting] at hq
    rw [if_neg hr, quitCompletes_none hn, if_neg (by simp)] at hq
    exact ⟨_, hq, by simp [Event.isSchedule]⟩
  | dispatchQuit => exact ⟨_, hq, by simp [Event.isSchedule]⟩
  | _ => exact ⟨[], by simpa [quitAfter] using hq, by simp⟩

/-! ## The invariant -/

/-- Every scheduled `on_quit_cb` is pending or has run, at most one was scheduled, and while it is
pending the table is empty. -/
structure QuitInv (w : World) : Prop where
  size : w.taskQueues.size < guintSize
  balanced : w.quitView.log.countP Event.isSchedule =
    w.quitView.pending + w.quitView.log.countP Event.isQuitCb
  once : w.quitView.log.countP Event.isSchedule ≤ 1
  empty : 0 < w.quitView.pending → ∀ k, (w.view k).queue = none
  idle : ∀ quitting runningTasks, .scheduleQuit quitting runningTasks ∈ w.quitView.log →
    quitting = true ∧ runningTasks = 0
  ran : ∀ queues, .quitCb queues ∈ w.quitView.log → queues = 0

theorem quitInv_new : QuitInv World.new where
  size := by decide
  balanced := rfl
  once := by decide
  empty := fun h => absurd h (by decide)
  idle := by simp [World.quitView, World.new]
  ran := by simp [World.quitView, World.new]

theorem countP_quitView (w : World) {p : Event → Bool} (hp : ∀ e, p e = true → e.key = none) :
    w.quitView.log.countP p = w.log.countP p := by
  simp only [World.quitView, List.countP_filter]
  refine List.countP_congr fun e _ => ?_
  simpa using hp e

theorem key_isSchedule (e : Event) (h : e.isSchedule = true) : e.key = none := by
  cases e <;> simp_all [Event.isSchedule, Event.key]

theorem key_isQuitCb (e : Event) (h : e.isQuitCb = true) : e.key = none := by
  cases e <;> simp_all [Event.isQuitCb, Event.key]

theorem scheduled_iff : w.scheduled = true ↔ 0 < w.quitView.log.countP Event.isSchedule := by
  rw [countP_quitView w key_isSchedule, List.countP_pos_iff, World.scheduled, List.any_eq_true]

/-- An empty table stays empty unless a queue is added. -/
theorem queues_stay_none {op : Op} (hI : Inv w) (hg : Guard w op) (hs : step w op = .ok w')
    (hop : ∀ key flags, op ≠ .addQueue key flags) (hn : ∀ k, (w.view k).queue = none)
    (k : TaskQueueKey) : (w'.view k).queue = none :=
  serve?_queue_none (hn k) (effect_ne_addQueue hop) ((hI.simulates hg hs).view k)

theorem size_of_queues_none (h : ∀ k, (w.view k).queue = none) : w.taskQueues.size = 0 := by
  have hks : w.taskQueues.keys = [] := by
    refine List.eq_nil_iff_forall_not_mem.mpr fun k => ?_
    rw [← HashTable.find?_eq_none]
    simpa [World.view] using h k
  simpa [HashTable.keys, HashTable.size] using hks

theorem quitInv_step {op : Op} (hI : Inv w) (hQ : QuitInv w) (hg : Guard w op)
    (hc : SchedulesOnce w op) (hs : step w op = .ok w') : QuitInv w' := by
  have hsize := size_step hI hQ.size hg hs
  cases quitStep hI hQ.size hg hs with
  | @plain es hes hl hp =>
    have h0 : es.countP Event.isSchedule = 0 ∧ es.countP Event.isQuitCb = 0 := by
      rcases hes with rfl | rfl <;> exact ⟨rfl, rfl⟩
    have hmem : ∀ e ∈ es, e = .setQuitting := by
      rcases hes with rfl | rfl <;> simp
    refine ⟨hsize, ?_, ?_, ?_, ?_, ?_⟩
    · rw [hl, hp, List.countP_append, List.countP_append, h0.1, h0.2]
      exact hQ.balanced
    · rw [hl, List.countP_append, h0.1]
      exact hQ.once
    · rw [hp]
      intro hpos
      refine queues_stay_none hI hg hs ?_ (hQ.empty hpos)
      rintro key flags rfl
      exact hc (mem_onQuitCb hpos)
    · intro qt n hm
      rw [hl, List.mem_append] at hm
      rcases hm with hm | hm
      · exact hQ.idle qt n hm
      · simpa using hmem _ hm
    · intro n hm
      rw [hl, List.mem_append] at hm
      rcases hm with hm | hm
      · exact hQ.ran n hm
      · simpa using hmem _ hm
  | @schedule es hes hl hp hq =>
    have h0 : es.countP Event.isSchedule = 0 ∧ es.countP Event.isQuitCb = 0 := by
      rcases hes with rfl | rfl <;> exact ⟨rfl, rfl⟩
    have hmem : ∀ e ∈ es, e = .setQuitting := by
      rcases hes with rfl | rfl <;> simp
    have hnew : w'.quitView.log.countP Event.isSchedule =
        w.quitView.log.countP Event.isSchedule + 1 := by
      rw [hl, List.countP_append, List.countP_append, h0.1]
      rfl
    have hfirst : w.quitView.log.countP Event.isSchedule = 0 := by
      by_contra hne
      obtain ⟨es', hl', hes'⟩ := scheduled_step hI hg hs hc
        (scheduled_iff.mpr (Nat.pos_of_ne_zero hne))
      have hnone : es'.countP Event.isSchedule = 0 :=
        List.countP_eq_zero.mpr fun e he => by simp [hes' e he]
      rw [hl', List.countP_append, hnone] at hnew
      omega
    refine ⟨hsize, ?_, ?_, fun _ => hq, ?_, ?_⟩
    · rw [hnew, hp, hl, List.countP_append, List.countP_append, h0.2, hQ.balanced]
      simp [Event.isQuitCb]
      omega
    · omega
    · intro qt n hm
      rw [hl, List.mem_append, List.mem_append] at hm
      rcases hm with (hm | hm) | hm
      · exact hQ.idle qt n hm
      · simpa using hmem _ hm
      · simpa using hm
    · intro n hm
      rw [hl, List.mem_append, List.mem_append] at hm
      rcases hm with (hm | hm) | hm
      · exact hQ.ran n hm
      · simpa using hmem _ hm
      · simp at hm
  | run hl hp =>
    have hempty := hQ.empty (by omega)
    refine ⟨hsize, ?_, ?_, ?_, ?_, ?_⟩
    · have := hQ.balanced
      rw [hl, List.countP_append, List.countP_append]
      simp only [List.countP_singleton, Event.isSchedule, Event.isQuitCb]
      simp
      omega
    · rw [hl, List.countP_append]
      exact hQ.once
    · intro hpos
      have := hQ.balanced
      have := hQ.once
      omega
    · intro qt n hm
      rw [hl, List.mem_append] at hm
      rcases hm with hm | hm
      · exact hQ.idle qt n hm
      · simp at hm
    · intro n hm
      rw [hl, List.mem_append] at hm
      rcases hm with hm | hm
      · exact hQ.ran n hm
      · have hn : n = w.taskQueues.size := by simpa using hm
        rw [hn]
        exact size_of_queues_none hempty

theorem quitInv_run (h : processor.Run SchedulesOnce ops w) : QuitInv w := by
  refine h.invariant quitInv_new ?_
  intro _ _ _ _ hrun hQ hg hc hs
  exact quitInv_step (inv_run hrun) hQ hg hc hs

/-! ## A processor that quits once -/

/-- What the flag tells: while it is clear `on_quit_cb` was not scheduled, and once it is set no queue
is left. -/
structure Closed (w : World) : Prop where
  scheduled : w.quitting = false → w.scheduled = false
  queues : w.quitting = true → ∀ k, (w.view k).queue = none

theorem quitting_setQuitting {sync : TaskAtom → Bool} (hI : Inv w)
    (hs : step w (.setQuitting sync) = .ok w') : w'.quitting = true := by
  have hq := congrArg QuitView.quitting (hI.simulates (guard_setQuitting w sync) hs).quit
  exact Eq.trans hq (quitting_quitAfter w sync)

/-- A processor that is not quitting schedules nothing. -/
theorem scheduled_stay {op : Op} (hI : Inv w) (hg : Guard w op) (hs : step w op = .ok w')
    (hop : ∀ sync, op ≠ .setQuitting sync) (hqt : w.quitting = false) (hsch : w.scheduled = false) :
    w'.scheduled = false := by
  have hlast : w.lastTask = false := by simp [World.lastTask, hqt]
  have hlog : ∃ es, w'.quitView.log = w.quitView.log ++ es ∧ es.countP Event.isSchedule = 0 := by
    have hq := congrArg QuitView.log (hI.simulates hg hs).quit
    cases op with
    | setQuitting sync => exact absurd rfl (hop sync)
    | dispatchQuit => exact ⟨_, hq, rfl⟩
    | _ => exact ⟨[], by simpa [quitAfter, hlast] using hq, rfl⟩
  obtain ⟨es, hl, hes⟩ := hlog
  rw [← Bool.not_eq_true, scheduled_iff] at hsch ⊢
  rwa [hl, List.countP_append, hes]

theorem closed_step {op : Op} (hI : Inv w) (hC : Closed w) (hg : Guard w op) (hc : QuitsLast w op)
    (hs : step w op = .ok w') : Closed w' := by
  by_cases hop : ∃ sync, op = .setQuitting sync
  · obtain ⟨sync, rfl⟩ := hop
    refine ⟨fun hqt => ?_, fun _ => queues_setQuitting hI hs⟩
    rw [quitting_setQuitting hI hs] at hqt
    cases hqt
  · have hne : ∀ sync, op ≠ .setQuitting sync := fun sync he => hop ⟨sync, he⟩
    refine ⟨fun hqt => ?_, fun hqt => ?_⟩ <;> rw [quitting_step hI hg hs hne] at hqt
    · exact scheduled_stay hI hg hs hne hqt (hC.scheduled hqt)
    · refine queues_stay_none hI hg hs ?_ (hC.queues hqt)
      rintro key flags rfl
      exact absurd (hqt.symm.trans hc) (by simp)

theorem closed_run (h : processor.Run QuitsLast ops w) : Closed w := by
  refine h.invariant (I := Closed) ⟨fun _ => rfl, fun hqt => by cases hqt⟩ ?_
  intro _ _ _ _ hrun hC hg hc hs
  exact closed_step (inv_run hrun) hC hg hc hs

/-- A processor that is asked to quit once, and to which no queue is added afterwards, schedules
`on_quit_cb` once. -/
theorem schedulesOnce_of_quitsLast {op : Op} (hrun : processor.Run QuitsLast ops w)
    (hrun' : processor.Run SchedulesOnce ops w) (hc : QuitsLast w op)
    (hs : step w op = .ok w') : SchedulesOnce w op := by
  have hC := closed_run hrun
  have hnone : w.scheduled = true → ∀ k, w.taskQueues.find? k = none := by
    intro hsch k
    have hqt : w.quitting = true := by
      by_contra hqt
      rw [hC.scheduled (by simpa using hqt)] at hsch
      cases hsch
    simpa [World.view] using hC.queues hqt k
  cases op with
  | setQuitting sync =>
    intro hsch
    rw [hC.scheduled hc] at hsch
    cases hsch
  | addQueue key flags =>
    -- what is pending was scheduled
    intro hm
    have hpos : 0 < w.quitView.log.countP Event.isSchedule := by
      rw [(quitInv_run hrun').balanced]
      exact Nat.add_pos_left (quitView_pending_pos hm) _
    have hsch := scheduled_iff.mpr hpos
    rw [hC.scheduled hc] at hsch
    cases hsch
  | taskCompleted queueId task =>
    -- no queue is left that could complete a task
    intro hsch
    simp [step, dleynaTaskQueueTaskCompleted, hnone hsch queueId] at hs
  | cancelQueue queueId sync =>
    intro hsch
    simp [World.completesOnCancel, hnone hsch queueId]
  | _ => trivial

theorem schedulesOnce_run (h : processor.Run QuitsLast ops w) : processor.Run SchedulesOnce ops w :=
  h.mono_taken fun _ _ _ _ hrun hrun' _ hc hs => schedulesOnce_of_quitsLast hrun hrun' hc hs

end DleynaCore
