import DleynaCore.MainLoop.Context
import DleynaCore.TaskProcessor.Proofs.QuitCallbackProofs

/-!
# The daemon runs its task processor

The processor of the daemon does what the processor does alone, so what holds in every run of the
processor holds in the daemon. The daemon adds the calls that `prv_context_quit_cb` makes.
-/

namespace DleynaCore

variable {c c' : Context} {op : ContextOp} {ops : List ContextOp} {P : World → Op → Prop}
  {sync : TaskAtom → Bool}

/-- The calls of the context to the connector and the control point. -/
structure Calls (c c' : Context) (quitCbs : Nat) : Prop where
  disconnects : c'.calls.count .disconnect ≤ c.calls.count .disconnect + quitCbs
  stops : c'.calls.count .stopService ≤ c.calls.count .stopService + quitCbs

theorem Calls.of_eq (h : c'.calls = c.calls) (n : Nat) : Calls c c' n := by
  constructor <;> rw [h] <;> exact Nat.le_add_right _ _

theorem processorStep_ok {op : Op} (h : contextStep c (.processor op) = .ok c') :
    step c.processor op = .ok c'.processor ∧ c'.calls = c.calls := by
  simp only [contextStep] at h
  split at h
  · simp at h
  · next w hw =>
    obtain rfl := Except.ok.inj h
    exact ⟨hw, rfl⟩

theorem prvNameLost_ok (h : prvNameLost sync c = .ok c') :
    step c.processor (.setQuitting sync) = .ok c'.processor ∧ c'.calls = c.calls := by
  unfold prvNameLost at h
  split at h
  · simp at h
  · next w hw =>
    obtain rfl := Except.ok.inj h
    exact ⟨hw, rfl⟩

theorem prvSetQuitting_ok (h : prvSetQuitting sync c = .ok c') :
    step c.processor (.setQuitting sync) = .ok c'.processor ∧ c'.calls = c.calls := by
  unfold prvSetQuitting at h
  split at h
  · simp at h
  · next w hw =>
    obtain rfl := Except.ok.inj h
    exact ⟨hw, rfl⟩

/-- What `prv_context_quit_cb` does: it runs the callback of the processor, which may quit again
while the connector disconnects, and it makes each call at most once. -/
theorem prvContextQuitCb_ok {lost : Option (TaskAtom → Bool)}
    (h : prvContextQuitCb lost c = .ok c') :
    (c'.processor = dispatchOnQuitCb c.processor ∨
      ∃ sync, lost = some sync ∧ c.connection ≠ 0 ∧
        step (dispatchOnQuitCb c.processor) (.setQuitting sync) = .ok c'.processor) ∧
    Calls c c' 1 := by
  simp only [prvContextQuitCb] at h
  split at h
  · next hconn =>
    cases lost with
    | none =>
      simp only [disconnect] at h
      obtain rfl := Except.ok.inj h
      refine ⟨Or.inl rfl, ?_, ?_⟩ <;> simp [Context.call]
    | some sync =>
      simp only [disconnect] at h
      split at h
      · simp at h
      · next c2 h2 =>
        obtain ⟨hw, hcalls⟩ := prvNameLost_ok h2
        obtain rfl := Except.ok.inj h
        refine ⟨Or.inr ⟨sync, rfl, hconn, hw⟩, ?_, ?_⟩ <;> simp [Context.call, hcalls]
  · obtain rfl := Except.ok.inj h
    exact ⟨Or.inl rfl, .of_eq (by rfl) 1⟩

/-- A step of the daemon is a few steps of its processor. -/
theorem contextStep_path (hg : ContextGuard c op) (hP : OnProcessor P c op)
    (hs : contextStep c op = .ok c') : processor.Path P c.processor c'.processor := by
  cases op with
  | processor op => exact processor_snoc .refl hg.2.2 hP (processorStep_ok hs).1
  | acquired connection started =>
    obtain rfl := Except.ok.inj hs
    unfold prvConnectorAcquired
    split <;> exact .refl
  | nameLost sync => exact processor_snoc .refl (guard_setQuitting _ sync) hP (prvNameLost_ok hs).1
  | dispatchSetQuitting sync =>
    exact processor_snoc .refl (guard_setQuitting _ sync) hP (prvSetQuitting_ok hs).1
  | dispatchQuitCb lost =>
    have hgq : Guard c.processor .dispatchQuit := hg.2
    have hrun : processor.Path P c.processor (dispatchOnQuitCb c.processor) :=
      processor_snoc .refl hgq hP.1 rfl
    rcases (prvContextQuitCb_ok hs).1 with hw | ⟨sync, rfl, hconn, hw⟩
    · rw [hw]
      exact hrun
    · exact processor_snoc hrun (guard_setQuitting _ sync) (hP.2 hconn) hw
  | mainLoopQuit | dispatchTimeout =>
    obtain rfl := Except.ok.inj hs
    exact .refl

/-- In every run of the daemon, its processor is in a run of its own. -/
theorem processor_run (h : daemon.Run (OnProcessor P) ops c) :
    ∃ ops', processor.Run P ops' c.processor := by
  refine h.invariant (I := fun c => ∃ ops', processor.Run P ops' c.processor) ⟨[], .nil⟩ ?_
  rintro _ c op c' - ⟨ops', hrun⟩ hg hP hs
  exact (contextStep_path hg hP hs).run hrun

/-! ## Conditions on the steps -/

/-- The connector loses its name while it disconnects. -/
theorem prvContextQuitCb_lost (hconn : c.connection ≠ 0)
    (h : prvContextQuitCb (some sync) c = .ok c') :
    step (dispatchOnQuitCb c.processor) (.setQuitting sync) = .ok c'.processor := by
  simp only [prvContextQuitCb, if_pos hconn, disconnect] at h
  split at h
  · cases h
  · next c2 h2 =>
    obtain rfl := Except.ok.inj h
    exact (prvNameLost_ok h2).1

/-- What follows for each step of a run of the processor follows for each step of the daemon. -/
theorem onProcessor_mono {Q : World → Op → Prop}
    (hPQ : ∀ as w op w', processor.Run P as w → processor.Run Q as w → Guard w op → P w op →
      step w op = .ok w' → Q w op) (h : daemon.Run (OnProcessor P) ops c) :
    daemon.Run (OnProcessor Q) ops c := by
  refine h.mono_taken fun _ c op c' hd _ hg hP hs => ?_
  obtain ⟨ops', hrun⟩ := processor_run hd
  have hstep : ∀ {as w op w'}, processor.Run P as w → Guard w op → P w op → step w op = .ok w' →
      Q w op := fun hr => hPQ _ _ _ _ hr (hr.mono_taken hPQ)
  cases op with
  | processor op => exact hstep hrun hg.2.2 hP (processorStep_ok hs).1
  | nameLost sync => exact hstep hrun (guard_setQuitting _ sync) hP (prvNameLost_ok hs).1
  | dispatchSetQuitting sync =>
    exact hstep hrun (guard_setQuitting _ sync) hP (prvSetQuitting_ok hs).1
  | dispatchQuitCb lost =>
    refine ⟨hstep hrun hg.2 hP.1 rfl, ?_⟩
    cases lost with
    | none => trivial
    | some sync =>
      intro hconn
      have hrun1 : processor.Run P (ops' ++ [.dispatchQuit]) (dispatchOnQuitCb c.processor) :=
        hrun.snoc hg.2 hP.1 rfl
      exact hstep hrun1 (guard_setQuitting _ sync) (hP.2 hconn) (prvContextQuitCb_lost hconn hs)
  | acquired connection started | mainLoopQuit | dispatchTimeout => trivial

/-- A daemon that is asked to quit once, and adds no queue afterwards, schedules the quit callback
once. -/
theorem daemon_schedulesOnce (h : daemon.Run (OnProcessor QuitsLast) ops c) :
    daemon.Run (OnProcessor SchedulesOnce) ops c :=
  onProcessor_mono (fun _ _ _ _ hrun hrun' _ hc hs => schedulesOnce_of_quitsLast hrun hrun' hc hs) h

/-! ## The calls of the quit callback -/

theorem countP_extends {w w' : World} (h : Extends w w') (p : Event → Bool) :
    w.log.countP p ≤ w'.log.countP p := h.sublist.countP_le

theorem countP_dispatchOnQuitCb (w : World) :
    (dispatchOnQuitCb w).log.countP Event.isQuitCb = w.log.countP Event.isQuitCb + 1 := by
  show (w.log ++ [Event.quitCb w.taskQueues.size]).countP Event.isQuitCb = _
  rw [List.countP_append]
  rfl

/-- The calls are made by the quit callback alone. -/
structure CallsInv (c : Context) : Prop where
  disconnects : c.calls.count .disconnect ≤ c.processor.log.countP Event.isQuitCb
  stops : c.calls.count .stopService ≤ c.processor.log.countP Event.isQuitCb

theorem CallsInv.of_calls (h : CallsInv c) {n : Nat} (hcalls : Calls c c' n)
    (hn : c.processor.log.countP Event.isQuitCb + n ≤ c'.processor.log.countP Event.isQuitCb) :
    CallsInv c' where
  disconnects := by
    have := h.disconnects
    have := hcalls.disconnects
    omega
  stops := by
    have := h.stops
    have := hcalls.stops
    omega

/-- A step that makes neither call. -/
theorem CallsInv.of_extends (h : CallsInv c) (hcalls : Calls c c' 0)
    (he : Extends c.processor c'.processor) : CallsInv c' :=
  h.of_calls hcalls (countP_extends he _)

theorem callsInv_step (h : CallsInv c) (hs : contextStep c op = .ok c') : CallsInv c' := by
  cases op with
  | processor op =>
    obtain ⟨hw, hcalls⟩ := processorStep_ok hs
    exact h.of_extends (.of_eq hcalls 0) (extends_step hw)
  | acquired connection started =>
    obtain rfl := Except.ok.inj hs
    refine h.of_extends ?_ ?_
    · unfold prvConnectorAcquired
      constructor <;> split <;> simp [Context.call]
    · unfold prvConnectorAcquired
      split <;> exact .refl _
  | nameLost sync =>
    obtain ⟨hw, hcalls⟩ := prvNameLost_ok hs
    exact h.of_extends (.of_eq hcalls 0) (extends_step hw)
  | dispatchSetQuitting sync =>
    obtain ⟨hw, hcalls⟩ := prvSetQuitting_ok hs
    exact h.of_extends (.of_eq hcalls 0) (extends_step hw)
  | dispatchQuitCb lost =>
    obtain ⟨hw, hcalls⟩ := prvContextQuitCb_ok hs
    refine h.of_calls hcalls ?_
    rw [← countP_dispatchOnQuitCb]
    rcases hw with hw | ⟨sync, -, -, hw⟩
    · rw [hw]
    · exact countP_extends (extends_step hw) _
  | mainLoopQuit | dispatchTimeout =>
    obtain rfl := Except.ok.inj hs
    exact h.of_extends (.of_eq (by rfl) 0) (.refl _)

theorem callsInv_run (h : daemon.Run (OnProcessor P) ops c) : CallsInv c := by
  refine h.invariant (I := CallsInv) ⟨by decide, by decide⟩ ?_
  intro _ _ _ _ _ hI _ _ hs
  exact callsInv_step hI hs

/-- In every run of the daemon whose steps meet the condition, the quit callback is scheduled at most
once, and properly. -/
theorem quitsOnce_run (h : daemon.Run (OnProcessor SchedulesOnce) ops c) : QuitsOnce c := by
  obtain ⟨ops', hrun⟩ := processor_run h
  have hQ := quitInv_run hrun
  have hC := callsInv_run h
  have honce : c.processor.log.countP Event.isSchedule ≤ 1 := by
    rw [← countP_quitView _ key_isSchedule]
    exact hQ.once
  have hran : c.processor.log.countP Event.isQuitCb ≤ 1 := by
    have := hQ.balanced
    rw [countP_quitView _ key_isSchedule, countP_quitView _ key_isQuitCb] at this
    omega
  exact
    { once := honce
      idle := fun qt n hm => hQ.idle qt n ((mem_quitLog rfl).mpr hm)
      empty := fun n hm => hQ.ran n ((mem_quitLog rfl).mpr hm)
      disconnects := hC.disconnects.trans hran
      stops := hC.stops.trans hran }

/-- A task runs when the daemon is asked to quit, and its completion lets it quit. -/
theorem quitsOnce_requested :
    QuitsOnce (daemon.final (OnProcessor SchedulesOnce)
      [.acquired 5 true, .processor (.addQueue ⟨1, "a", "b"⟩ flagAutoStart),
        .processor (.addTask ⟨1, "a", "b"⟩ 7), .processor (.dispatch ⟨1, "a", "b"⟩),
        .mainLoopQuit, .dispatchSetQuitting (fun _ => true), .dispatchQuitCb none,
        .dispatchTimeout]) :=
  quitsOnce_run (System.run_final (by decide))

/-- The daemon is asked to quit twice. -/
def quitTwice : List ContextOp :=
  [.acquired 5 true, .mainLoopQuit, .mainLoopQuit, .dispatchSetQuitting (fun _ => false),
    .dispatchSetQuitting (fun _ => false), .dispatchQuitCb none, .dispatchQuitCb none]

theorem quitScheduledTwice_reachable :
    daemon.Run (OnProcessor Any) quitTwice (daemon.final (OnProcessor Any) quitTwice) ∧
      ¬ QuitsOnce (daemon.final (OnProcessor Any) quitTwice) :=
  ⟨System.run_final (by decide), fun h => absurd h.once (by decide)⟩

end DleynaCore
