import DleynaCore.Connector.ConnectorMgr
import DleynaCore.MainLoop.Context
import DleynaCore.Settings.Settings
import DleynaCore.TaskProcessor.Lifetime

/-!
# Starting the main loop

`dleyna_main_loop_start`: it sets up the log, the settings and the connector, runs the main loop, and
takes everything down again. What the connector, the control point and the main loop do is the choice
of the environment; the connector reports nothing before the main loop runs. The messages for the log
are left out, but for those of `log.c` itself.
-/

namespace DleynaCore

/-- What a server is built with. -/
structure ServerBuild where
  settings : SettingsBuild
  log : LogBuild
  modules : ModuleLib
  /-- `CONNECTOR_DIR`. -/
  connectorDir : String

/-- What a server changes of its process: the static data of the library, and the disk. -/
structure Process (δ : Type) where
  log : LogWorld
  mgr : ConnectorMgr
  disk : Disk δ

/-- What a start is given, and what it meets. -/
structure StartArgs where
  server : String
  /-- What `get_version` of the control point returns. -/
  version : String
  /-- `g_get_user_config_dir`. -/
  userConfigDir : Option String
  makeDirectory : Bool
  copy : Bool
  /-- The module of the connector can be opened. -/
  opens : Bool
  /-- What `initialize` of the connector returns. -/
  initialized : Bool
  /-- The steps of the daemon while the main loop runs. -/
  loop : List ContextOp
  /-- The setters of the settings that the control point calls. -/
  setterCalls : List SetterCall
  /-- What `free` of the control point does with the processor. -/
  freeing : List Op

/-- The calls to the connector and to the control point, and the one that frees the processor. -/
inductive StartCall where
  | connectorInitialize
  | connect
  | controlPointInitialize
  | whileRunning (call : ContextCall)
  | controlPointFree
  | processorFree
  | shutdown
  deriving DecidableEq, Repr

/-- What a start returns, and what it has done. -/
structure Started (δ : Type) where
  retval : Nat
  connector : Option Connector
  /-- The processor as it was freed. -/
  processor : World
  calls : List StartCall
  process : Process δ

section Start

variable {κ δ : Type} (lib : KeyFileLib κ δ) (build : ServerBuild)

/-- `prv_context_init`: the settings and the connector. What `prv_keyfile_init` has read of the log is
passed on to it. -/
def prvContextInit (p : Process δ) (args : StartArgs) :
    SettingsWorld κ δ × Option Connector × Process δ :=
  let host : SettingsHost δ :=
    { disk := p.disk, userConfigDir := args.userConfigDir, makeDirectory := args.makeDirectory,
      copy := args.copy }
  let w := (setters lib build.settings host args.server).init
  let log :=
    if w.settings.keyfile.isSome then
      dleynaLogUpdateTypeLevel build.log p.log w.settings.logType w.settings.logLevel
    else p.log
  let (connector, mgr) := dleynaConnectorMgrLoad build.modules build.connectorDir p.mgr
    w.settings.connectorName args.opens
  (w, connector, { log := log, mgr := mgr, disk := w.disk })

/-- `prv_context_free`, and then `dleyna_log_finalize`. The settings are deleted from memory only. -/
def prvContextFree (retval : Nat) (calls : List StartCall) (w : World) (connector : Option Connector)
    (p : Process δ) : Started δ :=
  let (shutdown, mgr) := match connector with
    | some connector => ([StartCall.shutdown], dleynaConnectorMgrRelease p.mgr connector)
    | none => ([], p.mgr)
  { retval := retval
    connector := connector
    processor := dleynaTaskProcessorFree w
    calls := calls ++ [.processorFree] ++ shutdown
    process := { p with mgr := mgr, log := dleynaLogFinalize build.log p.log } }

/-- The control point uses the processor, which it leaves to the context to quit. -/
def ByControlPoint (_ : World) (op : Op) : Prop := op.ofContext = false

instance (w : World) (op : Op) : Decidable (ByControlPoint w op) :=
  inferInstanceAs (Decidable (_ = _))

/-- `g_main_loop_run`, if the daemon can take these steps and the last one ends the main loop. -/
def gMainLoopRun (loop : List ContextOp) : Option Context :=
  (daemon.exec (OnProcessor Any) Context.new loop).filter fun c => c.mainLoopQuit

/-- `dleyna_main_loop_start`. It does not return while its main loop runs. -/
def dleynaMainLoopStart (p : Process δ) (args : StartArgs) : Option (Started δ) :=
  let p1 := { p with log := dleynaLogInit build.log p.log args.server args.version }
  let (settings, connector, p2) := prvContextInit lib build p1 args
  if connector = none then some (prvContextFree build 1 [] World.new connector p2)
  else if !args.initialized then
    some (prvContextFree build 1 [.connectorInitialize] World.new connector p2)
  else do
    let c ← gMainLoopRun args.loop
    let w ← processor.exec ByControlPoint c.processor args.freeing
    let settings' := args.setterCalls.foldl (fun w call => (call.perform lib w).2) settings
    let calls := [.connectorInitialize, .connect, .controlPointInitialize] ++
      c.calls.map .whileRunning ++ [.controlPointFree]
    some (prvContextFree build (if c.error then 1 else 0) calls w connector
      { p2 with disk := settings'.disk })

/-! ## What a start should leave -/

/-- A start returns zero exactly if it came to run the main loop, and the service was always started.
Whatever it returns, it leaves the process as it has found it: the mask and the handler of the log,
and the table of connectors; the modules that it has opened are closed, and the context of the log is
cleared. No queue is left, and each has lived once; the control point
is freed if it was initialized, then the processor, and then the connector is shut down if it was
loaded. -/
structure TakesDown (p : Process δ) (args : StartArgs) (r : Started δ) : Prop where
  retval : r.retval = 0 ↔ r.connector ≠ none ∧ args.initialized = true ∧
    ∀ connection, .acquired connection false ∉ args.loop
  log : r.process.log.processMask = p.log.processMask ∧
    r.process.log.defaultHandler = p.log.defaultHandler ∧ r.process.log.context = LogContext.zero
  connectors : (∀ c, r.process.mgr.entry c = p.mgr.entry c) ∧
    p.mgr.Matched r.process.mgr ∧ r.process.mgr.rejected = p.mgr.rejected
  queues : ∃ ops w, processor.Run Any ops w ∧ r.processor = dleynaTaskProcessorFree w ∧
    ∀ k, LivesOnce ops r.processor k ∧ r.processor.taskQueues.find? k = none
  calls : ∃ before, r.calls = before ++ .processorFree ::
      (if r.connector = none then [] else [.shutdown]) ∧
    StartCall.processorFree ∉ before ∧ .shutdown ∉ before ∧
    (.controlPointInitialize ∈ before ↔ before.getLast? = some .controlPointFree)

end Start

end DleynaCore
