import DleynaCore.ServiceTask.Proofs.StepsProofs

/-!
# Service tasks complete once

Three functions of `service-task.c` report completions. `task->p_action` decides which of them does,
and it does so correctly as long as `dleyna_service_task_process_cb` does not cancel the action that it
has just begun.
-/

namespace DleynaCore

open JobQueue

variable {p : World} {w : ServiceWorld} {P : World → Op → Prop} {k : TaskQueueKey} {t : TaskAtom}

theorem countP_completes {ops : List Op} (h : processor.Run P ops p) (ht : t ∈ addedTasks k p.log) :
    p.log.countP (Event.completes t) = (completedTasks k p.log).count t := by
  refine countP_eq_count_of_added h ht (fun e he => ?_) fun e f hf => ?_
  · cases e with
    | completed k' t' => exact congrArg some (beq_iff_eq.mp he)
    | _ => cases he
  · cases hf <;> simp [Event.completes]

theorem completes_le_one {ops : List Op} (h : processor.Run P ops p) (t : TaskAtom) :
    p.log.countP (Event.completes t) ≤ 1 := by
  by_cases hn : ∃ e ∈ p.log, e.completes t = true
  · obtain ⟨e, he, hc⟩ := hn
    cases e with
    | completed k t' =>
      obtain rfl : t' = t := by simpa [Event.completes] using hc
      have hadd : t' ∈ addedTasks k p.log :=
        job_added (inv_run h) he (f := .finished t') (if_pos rfl)
      rw [countP_completes h hadd]
      exact List.nodup_iff_count_le_one.mp ((inv_run h).completed_nodup k) t'
    | _ => simp [Event.completes] at hc
  · have hzero : p.log.countP (Event.completes t) = 0 :=
      List.countP_eq_zero.mpr fun e he hc => hn ⟨e, he, hc⟩
    omega

theorem completes_pos (h : t ∈ completedTasks k p.log) : 0 < p.log.countP (Event.completes t) :=
  List.countP_pos_iff.mpr ⟨_, mem_completedTasks_iff.mp h, by simp [Event.completes]⟩

theorem lifts_keepsFlights : Lifts KeepsFlights where
  dispatch := fun _ _ => trivial
  taskCompleted := fun _ _ _ => trivial
  cancelQueue := fun _ _ _ => trivial

theorem tracks_keepsFlights : Tracks KeepsFlights := fun _ _ => tracksFlights_run

/-- In every run in which no `t_action` fails with its action pending, every processed service task is
completed once, and nothing that was freed is used. -/
theorem completesOnce_run {ops : List ServiceOp} (h : service.Run CompletesActions ops w) :
    CompletesOnce w := by
  have hinv := serviceInv_run lifts_keepsFlights (h.mono fun _ _ hc => hc.1)
  obtain ⟨ops', hrun⟩ := hinv.run
  have hT := tracksFlights_run hrun
  refine ⟨completes_le_one hrun, fun t ht => ?_, ?_, fun op hg hc fault he => ?_⟩
  · rcases hinv.settled t ht with hd | ⟨k, hk⟩
    · simp [Phase.done] at hd
    · have hle := completes_le_one hrun t
      have hpos := completes_pos hk
      omega
  · rw [hT.running, hinv.inv.length_inFlightTasks hT.registered]
  · have hl := lands_serviceStep hinv lifts_keepsFlights hg hc.1
    rw [he] at hl
    exact hl ⟨tracks_keepsFlights, hc⟩

/-- The action of one task finishes, the next task never has one, and the action of the third is
cancelled. -/
def threeActions : List ServiceOp :=
  [.call (.addQueue ⟨1, "a", "b"⟩ flagAutoStart),
    .call (.addServiceTask ⟨1, "a", "b"⟩ 7 3 none 0), .call (.addServiceTask ⟨1, "a", "b"⟩ 8 3 none 0),
    .call (.addServiceTask ⟨1, "a", "b"⟩ 9 3 none 0), .dispatch ⟨1, "a", "b"⟩ [] 5 false,
    .actionCb 5 7 [], .dispatch ⟨1, "a", "b"⟩ [] 0 false, .dispatch ⟨1, "a", "b"⟩ [] 6 false,
    .call (.cancelQueue ⟨1, "a", "b"⟩)]

theorem completesOnce_threeActions :
    CompletesOnce (service.final CompletesActions threeActions) ∧
      (service.final CompletesActions threeActions).history =
        [.begun 7 5 false, .finished 7 5, .begun 8 0 false, .begun 9 6 false, .cancelAction 3 6,
          .cancelled 9 6] :=
  ⟨completesOnce_run (System.run_final (by decide)), by decide⟩

/-- A task waits to be dispatched. -/
def oneTask : List ServiceOp :=
  [.call (.addQueue ⟨1, "a", "b"⟩ flagAutoStart), .call (.addServiceTask ⟨1, "a", "b"⟩ 7 3 none 0)]

/-- Its `t_action` begins an action and reports failure. -/
theorem taskFreed_reachable :
    service.Run (fun _ _ => True) oneTask (service.final (fun _ _ => True) oneTask) ∧
      ServiceGuard (service.final (fun _ _ => True) oneTask) (.dispatch ⟨1, "a", "b"⟩ [] 5 true) ∧
      serviceStep (service.final (fun _ _ => True) oneTask) (.dispatch ⟨1, "a", "b"⟩ [] 5 true) =
        .error .taskFreed :=
  ⟨System.run_final (by decide), by decide, by rfl⟩

end DleynaCore
