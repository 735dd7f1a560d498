import DleynaCore.TaskProcessor.Properties
import DleynaCore.TaskProcessor.Proofs.LogProofs

/-!
# Nothing starts after quitting

`dleyna_task_queue_start` tests `quitting`, `dleyna_task_queue_add_task` does not. As long as no task
is added to an `AUTO_START` queue, a quitting processor has no running task and no pending dispatch
in its table, and processes nothing.
-/

namespace DleynaCore

variable {w w' : World} {k : TaskQueueKey} {q : TaskQueue} {ops : List Op}

/-- Nothing runs in the queue, and nothing is scheduled for it. -/
def QueueView.Resting (v : QueueView) : Prop :=
  ∀ q, v.queue = some q → q.currentTask = none ∧ q.idleId = 0

/-- The request schedules nothing. -/
def Request.Schedules (v : QueueView) : Request → Prop
  | .addTask _ => ∃ q, v.queue = some q ∧ q.autoStart = true
  | .start quitting => quitting = false
  | _ => False

/-- A resting queue goes on resting. -/
theorem serve_resting {v v' : QueueView} {r : Option Request} (hv : v.Ok k) (hrest : v.Resting)
    (hf : ∀ r', r = some r' → r'.Fits k v) (hr : ∀ r', r = some r' → ¬ r'.Schedules v)
    (hs : v.serve? k r = .ok v') : v'.Resting := by
  cases served_of_serve? hs with
  | idle | absent _ _ => exact hrest
  | added _ =>
    intro q hq
    obtain rfl := Option.some.inj hq
    exact ⟨rfl, rfl⟩
  | gone _ _ =>
    intro q hq
    simp [QueueView.put] at hq
  | @kept q q' r es hq hk =>
    obtain ⟨hp, hok⟩ := hv.of_some hq
    obtain ⟨hc, hi⟩ := hrest q hq
    have hf := hf r rfl
    have hr := hr r rfl
    intro q'' hq''
    obtain rfl := Option.some.inj hq''
    cases hk with
    | start | cancelMarked _ | removeDeferred _ | setFinally | setUserData | addTask _ =>
      exact ⟨hc, hi⟩
    | cancelIdle _ _ => exact ⟨hc, rfl⟩
    | startWaiting _ _ _ => exact absurd rfl hr
    | addTaskStart _ ha _ => exact absurd ⟨q, hq, ha⟩ hr
    | cancelRunning hc' _ | cancelCompleted _ hc' _ _ _ | removeMarked hc' _ | removeRunning hc' _ =>
      simp [hc] at hc'
    | complete _ _ _ | completeNext _ _ => simp [hok.current_of_inFlight hf] at hc
    | dispatch _ => exact absurd (hp.trans hi) hf

/-- While the processor is quitting, all its queues rest. -/
def RestsWhenQuitting (w : World) : Prop := w.quitting = true → ∀ k, (w.view k).Resting

theorem serve_quit_resting {v v' : QueueView} {sync : TaskAtom → Bool} {c : Prop} [Decidable c]
    (hs : v.serve? k (some (if c then .quitCancel sync else .drop)) = .ok v') : v'.Resting := by
  have hn : v'.queue = none := by
    by_cases hc : c
    · rw [if_pos hc] at hs
      exact serve_quitCancel_queue hs
    · rw [if_neg hc] at hs
      simp only [QueueView.serve?, QueueView.serve] at hs
      cases hq : v.queue with
      | none =>
        simp only [hq] at hs
        exact Except.ok.inj hs ▸ hq
      | some q =>
        simp only [hq, TaskQueue.serve] at hs
        exact Except.ok.inj hs ▸ rfl
  intro q hq
  simp [hn] at hq

theorem rests_step {op : Op} (hI : Inv w) (hR : RestsWhenQuitting w) (hg : Guard w op)
    (hc : StartsNothing w op) (hs : step w op = .ok w') : RestsWhenQuitting w' := by
  intro hqt k
  have hv := (hI.simulates hg hs).view k
  by_cases hop : ∃ sync, op = .setQuitting sync
  · obtain ⟨sync, rfl⟩ := hop
    exact serve_quit_resting hv
  · have hqt' : w.quitting = true := by
      rw [← quitting_step hI hg hs fun sync he => hop ⟨sync, he⟩]
      exact hqt
    refine serve_resting (hI.queues k) (hR hqt' k) (fun _ he => fits_of_guard hg he) ?_ hv
    intro r he
    cases asked_of_effect he with
    | addTask _ =>
      rintro ⟨q, hq, ha⟩
      obtain ⟨q0, hm, -, rfl⟩ := entry_of_view hq
      have := hc _ hm rfl hqt'
      rw [shape_autoStart, this] at ha
      simp at ha
    | start => simp [Request.Schedules, hqt']
    | reached sync _ _ | passed sync _ => exact absurd ⟨sync, rfl⟩ hop
    | addQueue _ | cancel _ _ | cancelLast _ _ | cancelOther _ _ _ | removeForSource _
    | removeForSink _ | complete _ _ | completeLast _ _ | completeOther _ _ _ | setFinally _
    | setUserData _ | dispatch => exact id

theorem rests_run (h : processor.Run StartsNothing ops w) : RestsWhenQuitting w := by
  refine h.invariant (I := RestsWhenQuitting) (fun hq => absurd hq (by decide)) ?_
  intro _ _ _ _ hrun hR hg hc hs
  exact rests_step (inv_run hrun) hR hg hc hs

/-- A dispatch in a quitting processor whose queues rest has no queue to process. -/
theorem not_quitting_of_dispatch (hI : Inv w) (hR : RestsWhenQuitting w)
    (hg : Guard w (.dispatch k)) (hs : step w (.dispatch k) = .ok w') : w.quitting = false := by
  by_contra hqt
  have hqt : w.quitting = true := by simpa using hqt
  cases hq : w.taskQueues.find? k with
  | none =>
    have hfd : (detach w (.processTask k)).taskQueues = w.taskQueues := rfl
    simp [step, dispatchProcessTask, prvProcessTask, hfd, hq] at hs
  | some q =>
    have hi := (hR hqt k q.shape (by simp [World.view, hq])).2
    exact (pending_unique hI.sources hq hg).1 ((shape_idleId_eq_zero q).mp hi)

theorem nothingStarts_step {op : Op} (hrun : processor.Run StartsNothing ops w)
    (hN : NothingStarts w.log) (hg : Guard w op) (hc : StartsNothing w op)
    (hs : step w op = .ok w') : NothingStarts w'.log := by
  have hI := inv_run hrun
  obtain ⟨es, hl⟩ := extends_step hs
  by_cases hp : ∃ e ∈ es, e.isProcess = true
  · -- something is processed: then `set_quitting` has not been called, now or before
    obtain ⟨e, he, hpe⟩ := hp
    cases e with
    | processCb k t u =>
      obtain rfl := process_step hI hg hs hl.symm he
      have hqt := not_quitting_of_dispatch hI (rests_run hrun) hg hs
      have hqt' : w'.quitting = false := by
        rw [quitting_step hI hg hs fun sync he => by simp at he]
        exact hqt
      have hrun' : processor.Run StartsNothing (ops ++ [.dispatch k]) w' := .snoc hrun hg hc hs
      have hno : Event.setQuitting ∉ w'.log := fun hm => by
        have := quitting_of_mem hrun' hm
        simp [hqt'] at this
      exact List.pairwise_of_forall_mem_list fun e he e' _ heq => absurd (heq ▸ he) hno
    | _ => simp [Event.isProcess] at hpe
  · have hnone : ∀ e ∈ es, e.isProcess = false := fun e he => by
      by_contra hpe
      exact hp ⟨e, he, by simpa using hpe⟩
    rw [← hl]
    refine List.pairwise_append.mpr ⟨hN, ?_, fun e _ e' he' _ => hnone e' he'⟩
    exact List.pairwise_of_forall_mem_list fun _ _ e' he' _ => hnone e' he'

/-- In every run whose steps meet the condition, nothing is processed after the call of
`dleyna_task_processor_set_quitting`. -/
theorem nothingStarts_run (h : processor.Run StartsNothing ops w) : NothingStarts w.log := by
  refine h.invariant (I := fun w : World => NothingStarts w.log)
    (show NothingStarts [] from List.Pairwise.nil) ?_
  intro _ _ _ _ hrun hN hg hc hs
  exact nothingStarts_step hrun hN hg hc hs

/-- A task runs when the processor quits, and the queue of another one is started later. -/
theorem nothingStarts_started :
    NothingStarts (processor.final StartsNothing
      [.addQueue ⟨1, "a", "b"⟩ 1, .addTask ⟨1, "a", "b"⟩ 7, .dispatch ⟨1, "a", "b"⟩,
        .setQuitting (fun _ => true), .addQueue ⟨2, "c", "b"⟩ 0, .addTask ⟨2, "c", "b"⟩ 8,
        .start ⟨2, "c", "b"⟩]).log :=
  nothingStarts_run (System.run_final (by decide))

/-- A task is added to an `AUTO_START` queue of a quitting processor. -/
def addAfterQuitting : List Op :=
  [.setQuitting (fun _ => false), .addQueue ⟨1, "a", "b"⟩ flagAutoStart,
    .addTask ⟨1, "a", "b"⟩ 7, .dispatch ⟨1, "a", "b"⟩]

theorem startAfterQuitting_reachable :
    processor.Run Any addAfterQuitting (processor.final Any addAfterQuitting) ∧
      ¬ NothingStarts (processor.final Any addAfterQuitting).log := by
  refine ⟨System.run_final (by decide), fun h => ?_⟩
  have hl : (processor.final Any addAfterQuitting).log =
      [.setQuitting, .scheduleQuit true 0, .addQueue ⟨1, "a", "b"⟩ 1, .addTask ⟨1, "a", "b"⟩ 7,
        .processCb ⟨1, "a", "b"⟩ 7 0] := by decide
  rw [NothingStarts, hl] at h
  have := (List.pairwise_cons.mp h).1 (.processCb ⟨1, "a", "b"⟩ 7 0) (by simp) rfl
  simp [Event.isProcess] at this

end DleynaCore
