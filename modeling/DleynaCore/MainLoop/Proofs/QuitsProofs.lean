import DleynaCore.MainLoop.Proofs.ContextProofs
import DleynaCore.TaskProcessor.Proofs.ProgressProofs
import DleynaCore.TaskProcessor.Proofs.QuitTraversalProofs

/-!
# The daemon quits

A quit request is never forgotten: while the processor quits, a task runs, `on_quit_cb` is pending, or
the timeout is. Each step of the main loop lowers what remains to be done, so once it has been asked to
quit, it quits.
-/

namespace DleynaCore

variable {w w' : World} {c c' : Context} {ops : List ContextOp} {op : ContextOp}

/-! ## What a quitting processor owes -/

/-- While the processor quits, a task runs or `on_quit_cb` is pending. -/
def OwesQuit (w : World) : Prop :=
  w.quitting = true → w.runningTasks ≠ 0 ∨ 0 < w.quitView.pending

/-- `on_quit_cb` has been scheduled by the step. -/
theorem owesQuit_schedule {v : QuitView} {n : Nat} (h : w'.quitView = v.schedule n) : OwesQuit w' := by
  intro _
  have hp := congrArg QuitView.pending h
  right
  rw [hp]
  exact Nat.succ_pos _

/-- A step that leaves the counter and the shutdown alone. -/
theorem owesQuit_same (h : OwesQuit w) (hr : w'.runningTasks = w.runningTasks)
    (hq : w'.quitView = w.quitView) : OwesQuit w' := by
  intro hqt
  rw [hr, hq]
  exact h ((congrArg QuitView.quitting hq).symm.trans hqt)

/-- A completion leaves a task running, or is the last one. -/
theorem owesQuit_completion {b : Bool} (h : OwesQuit w)
    (hr : w'.runningTasks = if b then guintPred w.runningTasks else w.runningTasks)
    (hq : w'.quitView = if w.lastTask && b then w.quitView.schedule 0 else w.quitView) :
    OwesQuit w' := by
  cases b with
  | false => exact owesQuit_same h hr (by simpa using hq)
  | true =>
    rw [Bool.and_true] at hq
    by_cases hl : w.lastTask = true
    · rw [if_pos hl] at hq
      exact owesQuit_schedule hq
    · rw [if_neg hl] at hq
      intro hqt
      have hqt0 : w.quitting = true := (congrArg QuitView.quitting hq).symm.trans hqt
      left
      rw [hr, if_pos rfl]
      simpa [World.lastTask, hqt0] using hl

theorem owesQuit_setQuitting {sync : TaskAtom → Bool} (hI : Inv w)
    (hs : step w (.setQuitting sync) = .ok w') : OwesQuit w' := by
  have hS := hI.simulates (guard_setQuitting w sync) hs
  have hq := hS.quit
  simp only [quitAfter, QuitView.setQuitting] at hq
  by_cases hr : w.runningTasks = 0
  · rw [if_pos hr] at hq
    intro _
    right
    rw [hq]
    split <;> exact Nat.succ_pos _
  · rw [if_neg hr] at hq
    cases hcomp : quitCompletes sync w.runningTasks w.taskQueues.entries with
    | true =>
      rw [hcomp, if_pos rfl] at hq
      exact owesQuit_schedule hq
    | false =>
      rw [quitCompletes_eq (Nat.pos_of_ne_zero hr)] at hcomp
      intro _
      left
      rw [hS.running, runningAfter]
      simpa using hcomp

/-- A step of the processor other than `on_quit_cb` itself. -/
theorem owesQuit_step {op : Op} (hK : Kempt w) (hK' : Kempt w') (h : OwesQuit w) (hg : Guard w op)
    (hs : step w op = .ok w') (hop : op ≠ .dispatchQuit) : OwesQuit w' := by
  have hS := hK.inv.simulates hg hs
  cases op with
  | taskCompleted queueId task =>
    exact owesQuit_completion (b := true) h (by simpa [runningAfter] using hS.running)
      (by simpa [quitAfter] using hS.quit)
  | cancelQueue queueId sync =>
    exact owesQuit_completion (b := w.completesOnCancel sync queueId) h hS.running hS.quit
  | setQuitting sync => exact owesQuit_setQuitting hK.inv hs
  | dispatch queueId =>
    intro _
    left
    obtain ⟨q, t, ts, -, -, hv⟩ := of_serve_dispatch (v := w.view queueId) (k := queueId) (by
      have hv := hS.view queueId
      simpa [effect, QueueView.serve?] using hv)
    have hbusy : (w'.taskQueues.find? queueId).any TaskQueue.busy = true := by
      rw [← view_busy, hv]
      rfl
    obtain ⟨q', hq', hb⟩ := (Option.any_eq_true _ _).mp hbusy
    rw [hK'.flights.running]
    intro h0
    rw [HashTable.count_eq_zero.mp h0 queueId q' hq'] at hb
    cases hb
  | dispatchQuit => exact absurd rfl hop
  | addQueue key flags | addTask queueId task | start queueId | setFinally queueId finallyCb
  | setUserData queueId userData | removeQueuesForSource source sync
  | removeQueuesForSink sink sync | rehash taskQueues =>
    exact owesQuit_same h hS.running hS.quit

/-! ## The steps of the daemon -/

/-- What a step of the daemon that does not fault can be. -/
inductive Turn (c : Context) : ContextOp → Context → Prop where
  | processor {op : Op} {w : World} (hs : step c.processor op = .ok w) :
    Turn c (.processor op) { c with processor := w }
  | acquired (connection : Gpointer) (started : Bool) :
    Turn c (.acquired connection started) (prvConnectorAcquired connection started c)
  | nameLost {sync : TaskAtom → Bool} {w : World} (hs : step c.processor (.setQuitting sync) = .ok w) :
    Turn c (.nameLost sync) { c with connection := 0, processor := w }
  | mainLoopQuit : Turn c .mainLoopQuit (dleynaMainLoopQuit c)
  | setQuitting {sync : TaskAtom → Bool} {w : World}
      (hs : step c.processor (.setQuitting sync) = .ok w) :
    Turn c (.dispatchSetQuitting sync)
      { c with processor := w, setQuittingSources := c.setQuittingSources - 1 }
  | quitCb {lost : Option (TaskAtom → Bool)} {calls : List ContextCall} :
    Turn c (.dispatchQuitCb lost)
      { c with processor := dispatchOnQuitCb c.processor, calls := calls
               quitTimeouts := c.quitTimeouts + 1 }
  /-- The connector loses its name while it disconnects. -/
  | quitCbLost {sync : TaskAtom → Bool} {calls : List ContextCall} {w : World}
      (hconn : c.connection ≠ 0) (hs : step (dispatchOnQuitCb c.processor) (.setQuitting sync) = .ok w) :
    Turn c (.dispatchQuitCb (some sync))
      { c with connection := 0, processor := w, calls := calls, quitTimeouts := c.quitTimeouts + 1 }
  | timeout : Turn c .dispatchTimeout (prvContextMainloopQuitCb c)

theorem turn_of_step (hs : contextStep c op = .ok c') : Turn c op c' := by
  cases op with
  | processor op =>
    simp only [contextStep] at hs
    split at hs
    · cases hs
    · next hw => exact Except.ok.inj hs ▸ .processor hw
  | acquired connection started => exact Except.ok.inj hs ▸ .acquired connection started
  | nameLost sync =>
    simp only [contextStep, prvNameLost] at hs
    split at hs
    · cases hs
    · next hw => exact Except.ok.inj hs ▸ .nameLost hw
  | mainLoopQuit => exact Except.ok.inj hs ▸ .mainLoopQuit
  | dispatchSetQuitting sync =>
    simp only [contextStep, prvSetQuitting] at hs
    split at hs
    · cases hs
    · next hw => exact Except.ok.inj hs ▸ .setQuitting hw
  | dispatchQuitCb lost =>
    simp only [contextStep, prvContextQuitCb] at hs
    by_cases hconn : c.connection ≠ 0
    · rw [if_pos hconn] at hs
      cases lost with
      | none => exact Except.ok.inj hs ▸ .quitCb
      | some sync =>
        simp only [disconnect, prvNameLost] at hs
        cases hw : dleynaTaskProcessorSetQuitting sync (dispatchOnQuitCb c.processor) with
        | error fault => simp [Context.call, hw] at hs
        | ok w =>
          simp only [Context.call, hw] at hs
          exact Except.ok.inj hs ▸ .quitCbLost hconn hw
    · rw [if_neg hconn] at hs
      exact Except.ok.inj hs ▸ .quitCb
  | dispatchTimeout => exact Except.ok.inj hs ▸ .timeout

/-! ## What the daemon owes -/

theorem kempt_context (h : daemon.Run (OnProcessor KeepsQueues) ops c) : Kempt c.processor := by
  obtain ⟨ops', hrun⟩ := processor_run h
  exact kempt_run hrun

theorem kempt_dispatchOnQuitCb (hK : Kempt w) (hg : Guard w .dispatchQuit) :
    Kempt (dispatchOnQuitCb w) :=
  kempt_step hK hg ⟨trivial, trivial⟩ rfl

/-- A quit request is on its way to the main loop. -/
def Context.OwesQuit (c : Context) : Prop :=
  c.mainLoopQuit = true ∨ 0 < c.quitTimeouts ∨ DleynaCore.OwesQuit c.processor

theorem context_owesQuit_step (hK : Kempt c.processor) (hK' : Kempt c'.processor)
    (h : c.OwesQuit) (hg : ContextGuard c op) (hs : contextStep c op = .ok c') : c'.OwesQuit := by
  cases turn_of_step hs with
  | @processor op w hw =>
    refine h.imp_right fun h => h.imp_right fun h => owesQuit_step hK hK' h hg.2.2 hw ?_
    rintro rfl
    cases hg.2.1
  | acquired connection started =>
    unfold prvConnectorAcquired
    by_cases hst : (!started) = true
    · left
      simp [hst]
    · simpa [hst, Context.OwesQuit, Context.call] using h
  | nameLost hw | setQuitting hw => exact Or.inr (Or.inr (owesQuit_setQuitting hK.inv hw))
  | mainLoopQuit => exact h
  | quitCb | quitCbLost _ _ => exact Or.inr (Or.inl (Nat.succ_pos _))
  | timeout => exact Or.inl rfl

theorem owesQuit_run (h : daemon.Run (OnProcessor KeepsQueues) ops c) : c.OwesQuit := by
  refine h.invariant (I := Context.OwesQuit) (Or.inr (Or.inr fun hq => by cases hq)) ?_
  intro _ c op c' hrun hc hg hP hs
  exact context_owesQuit_step (kempt_context hrun) (kempt_context (hrun.snoc hg hP hs)) hc hg hs

/-! ## What remains to be done -/

theorem pending_schedule_le (hI : Inv w) (hlt : w.taskQueues.size < guintSize) {op : Op}
    (hg : Guard w op) (hs : step w op = .ok w') :
    w'.quitView.pending ≤ w.quitView.pending + 1 := by
  cases quitStep hI hlt hg hs with
  | plain _ _ hp => omega
  | schedule _ _ hp _ => omega
  | run _ hp => omega

theorem work_of_queues_none (h : ∀ k, (w.view k).queue = none) : w.work = 0 := by
  have hnil := size_of_queues_none h
  rw [HashTable.size, List.length_eq_zero_iff] at hnil
  simp [World.work, HashTable.total, hnil]

/-- Quitting leaves no work, and schedules `on_quit_cb` at most once. -/
theorem remaining_setQuitting {sync : TaskAtom → Bool} (hK : Kempt w)
    (hs : step w (.setQuitting sync) = .ok w') :
    w'.work = 0 ∧ w'.quitView.pending ≤ w.quitView.pending + 1 :=
  ⟨work_of_queues_none (queues_setQuitting hK.inv hs),
    pending_schedule_le hK.inv hK.flights.size (guard_setQuitting w sync) hs⟩

/-- `on_quit_cb` is taken off the main loop. -/
theorem remaining_dispatchOnQuitCb (hg : Guard w .dispatchQuit) :
    (dispatchOnQuitCb w).work = w.work ∧
      (dispatchOnQuitCb w).quitView.pending + 1 = w.quitView.pending := by
  refine ⟨rfl, ?_⟩
  have hpos := quitView_pending_pos hg
  have hlen : (dispatchOnQuitCb w).quitView.pending = w.quitView.pending - 1 := by
    show ((detach w .onQuitCb).sources.filter fun s => s.2 = .onQuitCb).length = _
    exact length_filter_eraseP
  omega

/-- Each step of the main loop lowers what remains to be done. -/
theorem remaining_lt (hK : Kempt c.processor) (hg : ContextGuard c op) (hP : WindsDown c op)
    (hs : contextStep c op = .ok c') : c'.remaining < c.remaining := by
  cases turn_of_step hs with
  | processor hw =>
    have hlt := work_lt hK.inv hg.2.2 hP.2 hw
    have hle := pending_schedule_le hK.inv hK.flights.size hg.2.2 hw
    simp only [Context.remaining]
    omega
  | setQuitting hw =>
    obtain ⟨hwork, hle⟩ := remaining_setQuitting hK hw
    have hpos : 0 < c.setQuittingSources := hg.2
    simp only [Context.remaining, hwork]
    omega
  | quitCb =>
    obtain ⟨hwork, hp⟩ := remaining_dispatchOnQuitCb hg.2
    simp only [Context.remaining, hwork]
    omega
  | quitCbLost hconn hw =>
    obtain ⟨-, hp⟩ := remaining_dispatchOnQuitCb hg.2
    obtain ⟨hwork, hle⟩ := remaining_setQuitting (kempt_dispatchOnQuitCb hK hg.2) hw
    simp only [Context.remaining, hwork, if_neg hconn, if_true]
    omega
  | timeout =>
    have hpos : 0 < c.quitTimeouts := hg.2
    show 3 * c.processor.work + 4 * c.setQuittingSources + (if c.connection = 0 then 0 else 4) +
      2 * c.processor.quitView.pending + (c.quitTimeouts - 1) < c.remaining
    unfold Context.remaining
    omega
  | acquired _ _ | nameLost _ | mainLoopQuit => exact hP.2.elim

/-- None of them faults. -/
theorem windsDown_ok (hK : Kempt c.processor) (hg : ContextGuard c op) (hP : WindsDown c op) :
    ∃ c', contextStep c op = .ok c' := by
  cases op with
  | processor op =>
    obtain ⟨w, hw⟩ := hK.advances hg.2.2 hP.2
    simp only [contextStep, hw]
    exact ⟨_, rfl⟩
  | dispatchSetQuitting sync =>
    obtain ⟨w, hw⟩ := setQuitting_ok hK.inv sync
    simp only [step] at hw
    simp only [contextStep, prvSetQuitting, hw]
    exact ⟨_, rfl⟩
  | dispatchQuitCb lost =>
    simp only [contextStep, prvContextQuitCb]
    by_cases hconn : c.connection ≠ 0
    · rw [if_pos hconn]
      cases lost with
      | none => exact ⟨_, rfl⟩
      | some sync =>
        obtain ⟨w, hw⟩ := setQuitting_ok (kempt_dispatchOnQuitCb hK hg.2).inv sync
        simp only [step] at hw
        simp only [disconnect, prvNameLost, Context.call, hw]
        exact ⟨_, rfl⟩
    · rw [if_neg hconn]
      exact ⟨_, rfl⟩
  | dispatchTimeout => exact ⟨_, rfl⟩
  | acquired connection started | nameLost sync | mainLoopQuit => exact hP.2.elim

/-! ## The main loop at rest -/

/-- What can be done while nothing keeps the main loop from quitting. -/
theorem mainLoopQuit_of_rests (hK : Kempt c.processor) (ho : c.OwesQuit)
    (hreq : 0 < c.setQuittingSources ∨ c.processor.quitting = true)
    (hr : daemon.Rests WindsDown c) : c.mainLoopQuit = true := by
  by_contra hrun
  have hrun : c.mainLoopQuit = false := by simpa using hrun
  have hpending : ∀ k, c.processor.pendingOf k = [] := by
    intro k
    refine List.eq_nil_iff_forall_not_mem.mpr fun id hid => ?_
    have hg : Guard c.processor (.dispatch k) := List.mem_map.mpr ⟨_, mem_pendingOf.mp hid, rfl⟩
    exact hr (.processor (.dispatch k)) ⟨hrun, rfl, hg⟩ ⟨⟨trivial, trivial⟩, trivial⟩
  have hidle : ∀ e ∈ c.processor.taskQueues.entries, e.2.idleId = 0 := by
    intro e he
    have hl := hK.inv.sources.linked e.1 e.2 (HashTable.find?_eq_some.mpr he)
    rw [hpending] at hl
    by_contra hi
    simp [hi] at hl
  have hflights : ∀ k t, ¬ InFlight c.processor.log k t := fun k t ht =>
    hr (.processor (.taskCompleted k t)) ⟨hrun, rfl, ht⟩ ⟨⟨trivial, fun _ => hidle⟩, trivial⟩
  have hbusy : ∀ e ∈ c.processor.taskQueues.entries, e.2.busy = false := by
    intro e he
    by_contra hb
    obtain ⟨t, ht⟩ := Option.ne_none_iff_exists'.mp (by simpa [TaskQueue.busy] using hb)
    exact hflights e.1 t (hK.inv.inFlight (HashTable.find?_eq_some.mpr he) ht)
  have hrunning : c.processor.runningTasks = 0 := by
    rw [hK.flights.running, HashTable.count_eq_zero]
    intro k q hq
    exact hbusy (k, q) (HashTable.find?_eq_some.mp hq)
  -- with no task in flight and no dispatch pending, `prv_set_quitting` could be dispatched
  have hquitting : c.processor.quitting = true := by
    rcases hreq with hpos | hqt
    · refine absurd ⟨⟨fun e he hb => ?_, fun e he hi => ?_⟩, trivial⟩
        (hr (.dispatchSetQuitting fun _ => false) ⟨hrun, hpos⟩)
      · rw [hbusy e he] at hb
        cases hb
      · exact absurd (hidle e he) hi
    · exact hqt
  rcases ho with h | h | h
  · rw [hrun] at h
    cases h
  · exact hr .dispatchTimeout ⟨hrun, h⟩ ⟨trivial, trivial⟩
  · rcases h hquitting with h | h
    · exact h hrunning
    · exact hr (.dispatchQuitCb none) ⟨hrun, mem_onQuitCb h⟩
        ⟨⟨⟨trivial, trivial⟩, trivial⟩, trivial⟩

/-- A request to quit stays until the processor quits. -/
theorem requested_step (hK : Kempt c.processor) (hg : ContextGuard c op) (hP : WindsDown c op)
    (hs : contextStep c op = .ok c')
    (hreq : 0 < c.setQuittingSources ∨ c.processor.quitting = true) :
    0 < c'.setQuittingSources ∨ c'.processor.quitting = true := by
  have hset : ∀ {w w' : World} {sync : TaskAtom → Bool}, Inv w →
      step w (.setQuitting sync) = .ok w' → w'.quitting = true := by
    intro w w' sync hI hw
    have hq := congrArg QuitView.quitting (hI.simulates (guard_setQuitting w sync) hw).quit
    refine Eq.trans (b := (quitAfter w (.setQuitting sync)).quitting) hq ?_
    simp only [quitAfter, QuitView.setQuitting]
    split <;> split <;> rfl
  cases turn_of_step hs with
  | @processor op w hw =>
    refine hreq.imp_right fun hqt => ?_
    rw [quitting_step hK.inv hg.2.2 hw fun sync he => ?_]
    · exact hqt
    · subst he
      exact hP.2
  | setQuitting hw => exact Or.inr (hset hK.inv hw)
  | quitCb => exact hreq
  | quitCbLost _ hw => exact Or.inr (hset (kempt_dispatchOnQuitCb hK hg.2).inv hw)
  | timeout => exact hreq
  | acquired _ _ | nameLost _ | mainLoopQuit => exact hP.2.elim

/-- Every step of the daemon that winds down lowers `remaining`, and at rest the main loop has quit. -/
theorem settles_requested (h : ∃ ops, daemon.Run (OnProcessor KeepsQueues) ops c)
    (hreq : 0 < c.setQuittingSources ∨ c.processor.quitting = true) :
    daemon.Settles WindsDown c.remaining (fun c' => c'.mainLoopQuit = true) c := by
  refine System.settles_of_measure
    (I := fun c => (∃ ops, daemon.Run (OnProcessor KeepsQueues) ops c) ∧
      (0 < c.setQuittingSources ∨ c.processor.quitting = true)) ⟨h, hreq⟩ ?_ ?_ ?_
  · rintro c1 op c2 ⟨⟨ops1, hrun⟩, hreq⟩ hg hP hs
    have hK := kempt_context hrun
    exact ⟨⟨⟨_, hrun.snoc hg hP.1 hs⟩, requested_step hK hg hP hs hreq⟩, remaining_lt hK hg hP hs⟩
  · rintro c1 op ⟨⟨ops1, hrun⟩, -⟩ hg hP
    exact windsDown_ok (kempt_context hrun) hg hP
  · rintro c1 ⟨⟨ops1, hrun⟩, hreq⟩ hr
    exact mainLoopQuit_of_rests (kempt_context hrun) (owesQuit_run hrun) hreq hr

/-- Once the daemon has been asked to quit, its main loop quits: after a bounded number of steps, none
of which faults, in whatever order the sources are dispatched and the running tasks complete. -/
theorem quits_run (h : daemon.Run (OnProcessor KeepsQueues) ops c)
    (hreq : 0 < c.setQuittingSources ∨ c.processor.quitting = true) :
    daemon.Settles WindsDown c.remaining (fun c' => c'.mainLoopQuit = true) c :=
  settles_requested ⟨ops, h⟩ hreq

/-- A task runs and another one is scheduled when the daemon is asked to quit, twice. -/
def quitRequested : List ContextOp :=
  [.acquired 5 true, .processor (.addQueue ⟨1, "a", "b"⟩ flagAutoStart),
    .processor (.addTask ⟨1, "a", "b"⟩ 7), .processor (.addTask ⟨1, "a", "b"⟩ 8),
    .processor (.dispatch ⟨1, "a", "b"⟩), .processor (.addQueue ⟨2, "c", "b"⟩ 3),
    .processor (.addTask ⟨2, "c", "b"⟩ 9), .mainLoopQuit, .mainLoopQuit]

theorem quits_requested :
    daemon.Settles WindsDown (daemon.final (OnProcessor KeepsQueues) quitRequested).remaining
      (fun c => c.mainLoopQuit = true) (daemon.final (OnProcessor KeepsQueues) quitRequested) :=
  quits_run (System.run_final (by decide)) (Or.inl (by decide))

end DleynaCore
