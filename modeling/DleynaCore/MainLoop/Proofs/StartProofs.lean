import DleynaCore.Connector.Proofs.ConnectorMgrProofs
import DleynaCore.Log.Proofs.FilterProofs
import DleynaCore.MainLoop.Proofs.QuitsProofs
import DleynaCore.MainLoop.Start
import DleynaCore.Settings.Proofs.SessionsProofs
import DleynaCore.TaskProcessor.Proofs.LifetimeProofs

/-!
# A start and its end

Every way out of `dleyna_main_loop_start` goes through `prv_context_free`, which takes down what there
is: the log keeps the mask and the handler that it has found, the connector was loaded anew, and the
processor is in a run of its own to the end.
-/

namespace DleynaCore

variable {κ δ : Type} {lib : KeyFileLib κ δ} {build : ServerBuild} {p : Process δ} {args : StartArgs}
  {r : Started δ} {w0 w : LogWorld}

/-! ## The log -/

/-- The context has the mask and the handler that the process had before. -/
structure KeepsOld (w0 w : LogWorld) : Prop where
  mask : w.context.oldMask = w0.processMask
  handler : w.context.oldHandler = some w0.defaultHandler

theorem vsyslog_defaultHandler (w : LogWorld) (priority : UInt32) (message : String) :
    (vsyslog w priority message).defaultHandler = w.defaultHandler := by
  obtain ⟨outputs, h⟩ := vsyslog_eq w priority message
  rw [h]

theorem keepsOld_dleynaLogInit (build : LogBuild) (w : LogWorld) (program version : String) :
    KeepsOld w (dleynaLogInit build w program version) := by
  simp only [dleynaLogInit, gLogSetDefaultHandler, setlogmask_context, vsyslog_context,
    prvSetFlagsFromParam, dleynaLogType, ne_eq, not_true_eq_false, if_false]
  refine ⟨rfl, ?_⟩
  simp only [setlogmask_defaultHandler, vsyslog_defaultHandler]

theorem KeepsOld.update (h : KeepsOld w0 w) (build : LogBuild) (logType : LogType)
    (logLevel : UInt32) : KeepsOld w0 (dleynaLogUpdateTypeLevel build w logType logLevel) := by
  simp only [dleynaLogUpdateTypeLevel]
  generalize hw1 : ({ w with context := _ } : LogWorld) = w1
  obtain ⟨outputs, hinfo⟩ := dleynaLogInfo_eq build w1 _
  rw [hinfo]
  subst hw1
  constructor
  · simpa using h.mask
  · simpa using h.handler

/-- `dleyna_log_finalize` puts both back. -/
theorem KeepsOld.finalize (h : KeepsOld w0 w) (build : LogBuild) :
    (dleynaLogFinalize build w).processMask = w0.processMask ∧
      (dleynaLogFinalize build w).defaultHandler = w0.defaultHandler ∧
      (dleynaLogFinalize build w).context = LogContext.zero := by
  simp only [dleynaLogFinalize]
  generalize hw3 : (if _ ≠ LogType.syslog then _ else _ : LogWorld) = w3
  have hcontext : w3.context = w.context := by
    rw [← hw3]
    split
    · obtain ⟨outputs, hinfo⟩ := dleynaLogInfo_eq build
        (vsyslog (setlogmask w (logMask LogLevel.info.priority)).2 LogLevel.info.priority
          "dLeyna: Exit") "dLeyna: Exit"
      rw [hinfo]
      simp
    · simp
  have hmask : w3.context.oldMask = w0.processMask.val := by rw [hcontext, h.mask]
  have hne : w3.context.oldMask ≠ 0 := hmask ▸ w0.processMask.property
  have hhandler : w3.context.oldHandler = some w0.defaultHandler := by rw [hcontext, h.handler]
  simp only [hhandler, gLogSetDefaultHandler]
  refine ⟨Subtype.ext ((setlogmask_val _ hne).trans hmask), ?_, trivial⟩
  rw [setlogmask_defaultHandler]

/-! ## The connector -/

/-- A connector that is released again leaves the modules as they were. -/
theorem load_release {mgr mgr' : ConnectorMgr} {name dir : String} {opens : Bool} {c : Connector}
    (modules : ModuleLib)
    (h : dleynaConnectorMgrLoad modules dir mgr name opens = (some c, mgr'))
    (hnew : mgr.entry c = none) :
    (∀ c', (dleynaConnectorMgrRelease mgr' c).entry c' = mgr.entry c') ∧
      mgr.Matched (dleynaConnectorMgrRelease mgr' c) ∧
      (dleynaConnectorMgrRelease mgr' c).rejected = mgr.rejected := by
  have hmgr : ((⟨mgr, []⟩ : ConnectorClient).load modules dir name opens).mgr = mgr' := by
    rw [ConnectorClient.load, h]
  have hheld : ((⟨mgr, []⟩ : ConnectorClient).load modules dir name opens).held =
      [(c, modules.moduleAt (connectorPath dir name))] := by
    rw [ConnectorClient.load, h]
  rcases load_cases modules dir ⟨mgr, []⟩ name opens with ⟨c', -, -, hl⟩ | hi
  · obtain rfl : c = c' := by
      have := hheld.symm.trans hl.held
      simpa using this
    have hentry := hl.entry
    have hopened := hl.opened
    have hclosed := hl.closed
    have hrejected := hl.rejected
    rw [hmgr] at hentry hopened hclosed hrejected
    obtain ⟨he, ho, hc, hj⟩ := release_entry (by rw [hentry, if_pos rfl])
    refine ⟨fun c' => ?_, fun m => ?_, hj.trans hrejected⟩
    · rw [he, hentry]
      split
      · next h => rw [h, hnew]
      · rfl
    · exact ⟨_, (ho m).trans (hopened m), by rw [hc, hclosed]⟩
  · have := hheld.symm.trans hi.held
    simp at this

/-- A failed load leaves them too. -/
theorem load_failed {mgr mgr' : ConnectorMgr} {name dir : String} {opens : Bool} (modules : ModuleLib)
    (h : dleynaConnectorMgrLoad modules dir mgr name opens = (none, mgr')) :
    (∀ c, mgr'.entry c = mgr.entry c) ∧ mgr.Matched mgr' ∧ mgr'.rejected = mgr.rejected := by
  have hmgr : ((⟨mgr, []⟩ : ConnectorClient).load modules dir name opens).mgr = mgr' := by
    rw [ConnectorClient.load, h]
  have hheld : ((⟨mgr, []⟩ : ConnectorClient).load modules dir name opens).held = [] := by
    rw [ConnectorClient.load, h]
  rcases load_cases modules dir ⟨mgr, []⟩ name opens with ⟨c, -, -, hl⟩ | hi
  · have := hheld.symm.trans hl.held
    simp at this
  · rw [← hmgr]
    exact ⟨hi.entry, hi.matched, hi.rejected⟩

/-! ## The main loop -/

/-- The service could not be started. -/
def ContextOp.fails : ContextOp → Bool
  | .acquired _ started => !started
  | _ => false

theorem contextStep_error {c c' : Context} {op : ContextOp} (hs : contextStep c op = .ok c') :
    c'.error = (c.error || op.fails) := by
  have hlost : ∀ {sync} {c c' : Context}, prvNameLost sync c = .ok c' → c'.error = c.error := by
    intro sync c c' h
    unfold prvNameLost at h
    split at h
    · cases h
    · obtain rfl := Except.ok.inj h
      rfl
  cases op with
  | processor op =>
    simp only [contextStep] at hs
    split at hs
    · cases hs
    · obtain rfl := Except.ok.inj hs
      simp [ContextOp.fails]
  | acquired connection started =>
    obtain rfl := Except.ok.inj hs
    cases started <;> simp [prvConnectorAcquired, ContextOp.fails, Context.call]
  | nameLost sync => simpa [ContextOp.fails] using hlost hs
  | dispatchSetQuitting sync =>
    simp only [contextStep, prvSetQuitting] at hs
    split at hs
    · cases hs
    · obtain rfl := Except.ok.inj hs
      simp [ContextOp.fails]
  | dispatchQuitCb lost =>
    simp only [contextStep, prvContextQuitCb] at hs
    split at hs
    · split at hs
      · cases hs
      · next c2 h2 =>
        obtain rfl := Except.ok.inj hs
        cases lost with
        | none =>
          obtain rfl := Except.ok.inj h2
          simp [ContextOp.fails, Context.call]
        | some sync => simpa [ContextOp.fails, Context.call] using hlost h2
    · obtain rfl := Except.ok.inj hs
      simp [ContextOp.fails]
  | mainLoopQuit | dispatchTimeout =>
    obtain rfl := Except.ok.inj hs
    simp [ContextOp.fails, dleynaMainLoopQuit, prvContextMainloopQuitCb]

/-- The context has an error exactly if the service could not be started. -/
theorem error_run {P : Context → ContextOp → Prop} {ops : List ContextOp} {c : Context}
    (h : daemon.Run P ops c) : c.error = ops.any ContextOp.fails := by
  induction h with
  | nil => rfl
  | snoc _ _ _ hs ih => simp [contextStep_error hs, ih]

theorem gMainLoopRun_run {loop : List ContextOp} {c : Context} (h : gMainLoopRun loop = some c) :
    daemon.Run (OnProcessor Any) loop c := by
  obtain ⟨he, -⟩ := Option.filter_eq_some_iff.mp h
  exact System.Run.nil.exec he

/-! ## The start -/

theorem prvContextInit_eq (lib : KeyFileLib κ δ) (build : ServerBuild) (p1 : Process δ)
    (args : StartArgs) (h : KeepsOld w0 p1.log) :
    KeepsOld w0 (prvContextInit lib build p1 args).2.2.log ∧
      ∃ name, dleynaConnectorMgrLoad build.modules build.connectorDir p1.mgr name args.opens =
        ((prvContextInit lib build p1 args).2.1, (prvContextInit lib build p1 args).2.2.mgr) := by
  refine ⟨?_, _, rfl⟩
  simp only [prvContextInit]
  split
  · exact h.update build.log _ _
  · exact h

/-- What is left when everything is taken down. -/
theorem takesDown_prvContextFree {p2 : Process δ} {connector : Option Connector} {retval : Nat}
    {calls : List StartCall} {w : World} {name : String} (hlog : KeepsOld p.log p2.log)
    (hmgr : dleynaConnectorMgrLoad build.modules build.connectorDir p.mgr name args.opens =
      (connector, p2.mgr))
    (hnew : ∀ c, connector = some c → p.mgr.entry c = none)
    (hrun : ∃ ops, processor.Run Any ops w)
    (hretval : retval = 0 ↔ connector ≠ none ∧ args.initialized = true ∧
      ∀ connection, .acquired connection false ∉ args.loop)
    (hcalls : StartCall.processorFree ∉ calls ∧ .shutdown ∉ calls ∧
      (.controlPointInitialize ∈ calls ↔ calls.getLast? = some .controlPointFree)) :
    TakesDown p args (prvContextFree build retval calls w connector p2) where
  retval := hretval
  log := hlog.finalize build.log
  connectors := by
    cases connector with
    | none => exact load_failed build.modules hmgr
    | some c => exact load_release build.modules hmgr (hnew c rfl)
  queues := by
    obtain ⟨ops, hops⟩ := hrun
    refine ⟨ops, w, hops, rfl, fun k => ?_⟩
    exact ⟨(livesOnce_free hops k), find?_free w k⟩
  calls := by
    refine ⟨calls, ?_, hcalls⟩
    cases connector <;> simp [prvContextFree]

theorem onProcessor_any (c : Context) (op : ContextOp) : OnProcessor Any c op := by
  cases op with
  | dispatchQuitCb lost => cases lost <;> simp [OnProcessor, Any]
  | _ => trivial

/-- The main loop returns where the daemon has quit it. -/
theorem gMainLoopRun_steps {ops more : List ContextOp} {c c' : Context}
    (h : daemon.Run (OnProcessor KeepsQueues) ops c) (hs : daemon.Steps WindsDown c more c')
    (hq : c'.mainLoopQuit = true) : gMainLoopRun (ops ++ more) = some c' := by
  have hops : daemon.exec (OnProcessor Any) Context.new ops = some c :=
    System.exec_mono (fun c op _ => onProcessor_any c op) h.exec_eq
  have hmore : daemon.exec (OnProcessor Any) c more = some c' :=
    System.exec_mono (fun c op _ => onProcessor_any c op) hs.exec
  rw [gMainLoopRun, System.exec_append hops, hmore]
  simp [hq]

theorem dleynaMainLoopStart_returns {c : Context} {w : World} (lib : KeyFileLib κ δ)
    (build : ServerBuild) (p : Process δ) (hc : gMainLoopRun args.loop = some c)
    (hw : processor.exec ByControlPoint c.processor args.freeing = some w) :
    ∃ r, dleynaMainLoopStart lib build p args = some r := by
  simp only [dleynaMainLoopStart]
  split
  · exact ⟨_, rfl⟩
  · split
    · exact ⟨_, rfl⟩
    · simp only [hc, hw, Option.bind_eq_bind, Option.bind_some]
      exact ⟨_, rfl⟩

/-- Once a server has been asked to quit, `dleyna_main_loop_start` returns: the daemon comes to rest
after a bounded number of steps, whatever their order, and then its main loop has ended. -/
theorem returns_start {ops : List ContextOp} {c : Context} (lib : KeyFileLib κ δ)
    (build : ServerBuild) (p : Process δ) (args : StartArgs)
    (h : daemon.Run (OnProcessor KeepsQueues) ops c)
    (hreq : 0 < c.setQuittingSources ∨ c.processor.quitting = true) :
    (∃ more c', daemon.Steps WindsDown c more c' ∧ daemon.Rests WindsDown c') ∧
    ∀ more c', daemon.Steps WindsDown c more c' → daemon.Rests WindsDown c' →
      more.length ≤ c.remaining ∧
      ∀ w, processor.exec ByControlPoint c'.processor args.freeing = some w →
        ∃ r, dleynaMainLoopStart lib build p { args with loop := ops ++ more } = some r := by
  have hS := settles_requested ⟨ops, h⟩ hreq
  constructor
  · obtain ⟨more, c', hs, hr, -⟩ := hS.exists_rest
    exact ⟨more, c', hs, hr⟩
  · intro more c' hs hr
    refine ⟨hS.bounded more c' hs, fun w hw => ?_⟩
    exact dleynaMainLoopStart_returns lib build p (gMainLoopRun_steps h hs (hS.rests more c' hs hr)) hw

/-! ## A server -/

/-- A server whose connector is the one module there is. -/
def dbusServer : ServerBuild where
  settings := systemBuild
  log := { level := dleynaLogLevelDefault, version := "0.6" }
  modules := oneModule
  connectorDir := "dir"

/-- A process in which nothing has been logged or loaded. -/
def newProcess : Process FileValues where
  log := { context := .zero, processMask := ⟨0xFF, by decide⟩, defaultHandler := .other 1, outputs := [] }
  mgr := { gConnectors := none, opened := fun _ => 0, closed := fun _ => 0, rejected := 0 }
  disk := systemHost.disk

/-- The service is started and a task runs; the server is asked to quit, and its last queue is removed
by the control point. -/
def servedArgs : StartArgs where
  server := "server"
  version := "1"
  userConfigDir := some "/home"
  makeDirectory := true
  copy := true
  opens := true
  initialized := true
  loop :=
    [.acquired 5 true, .processor (.addQueue ⟨1, "a", "b"⟩ flagAutoStart),
      .processor (.addTask ⟨1, "a", "b"⟩ 7), .processor (.dispatch ⟨1, "a", "b"⟩), .mainLoopQuit,
      .dispatchSetQuitting (fun _ => true), .dispatchQuitCb none, .dispatchTimeout]
  setterCalls := [⟨.neverQuit false, none⟩]
  freeing := [.addQueue ⟨2, "c", "d"⟩ 0, .setFinally ⟨2, "c", "d"⟩ (some 50)]

/-- Its calls. -/
def servedCalls : List StartCall :=
  [.connectorInitialize, .connect, .controlPointInitialize, .whileRunning (.startService 5),
    .whileRunning .disconnect, .whileRunning .stopService, .controlPointFree, .processorFree, .shutdown]

/-- The server is asked to quit while a task runs and others wait. -/
theorem returns_served :
    ∃ more c', daemon.Steps WindsDown (daemon.final (OnProcessor KeepsQueues) quitRequested) more c' ∧
      daemon.Rests WindsDown c' ∧
      ∃ r, dleynaMainLoopStart FileValues.lib dbusServer newProcess
        { servedArgs with loop := quitRequested ++ more, freeing := [] } = some r := by
  have hrun : daemon.Run (OnProcessor KeepsQueues) quitRequested _ := System.run_final (by decide)
  obtain ⟨⟨more, c', hs, hr⟩, hall⟩ := returns_start FileValues.lib dbusServer newProcess
    { servedArgs with freeing := [] } hrun (Or.inl (by decide))
  exact ⟨more, c', hs, hr, (hall more c' hs hr).2 _ rfl⟩

end DleynaCore
