import DleynaCore.TaskProcessor.Progress

/-!
# The main loop context

The daemon context of `main-loop.c`, which owns the task processor. It starts to quit when
`dleyna_main_loop_quit` is called or when the connector loses its name, and `prv_context_quit_cb` is
the `on_quit_cb` of its processor.
-/

namespace DleynaCore

/-- The calls that the context makes to the connector and to the control point. -/
inductive ContextCall where
  | startService (connection : Gpointer)
  | disconnect
  | stopService
  deriving DecidableEq, Repr

/-- `dleyna_daemon_context_t`, with the sources that the context attached to the main loop and the
calls that it made. The `prv_context_quit_cb` sources are those of the processor. -/
structure Context where
  error : Bool
  /-- `g_main_loop_quit` was called. -/
  mainLoopQuit : Bool
  connection : Gpointer
  processor : World
  /-- The number of pending `prv_set_quitting` sources. -/
  setQuittingSources : Nat
  /-- The number of pending `prv_context_mainloop_quit_cb` timeouts. -/
  quitTimeouts : Nat
  calls : List ContextCall

namespace Context

/-- The context when `dleyna_main_loop_start` runs the main loop. -/
def new : Context :=
  { error := false, mainLoopQuit := false, connection := 0, processor := World.new,
    setQuittingSources := 0, quitTimeouts := 0, calls := [] }

/-- Record a call. -/
def call (c : Context) (call : ContextCall) : Context := { c with calls := c.calls ++ [call] }

end Context

/-- `prv_context_mainloop_quit_cb`. -/
def prvContextMainloopQuitCb (c : Context) : Context :=
  { c with mainLoopQuit := true, quitTimeouts := c.quitTimeouts - 1 }

/-- `prv_connector_acquired`; `started` is what `start_service` returns. -/
def prvConnectorAcquired (connection : Gpointer) (started : Bool) (c : Context) : Context :=
  let c' := { c with connection := connection }.call (.startService connection)
  if !started then { c' with error := true, mainLoopQuit := true } else c'

/-- `prv_name_lost`. -/
def prvNameLost (sync : TaskAtom → Bool) (c : Context) : Except Fault Context :=
  match dleynaTaskProcessorSetQuitting sync c.processor with
  | .error fault => .error fault
  | .ok processor => .ok { c with connection := 0, processor := processor }

/-- `connector->disconnect`. The connector may report the loss of its name before it returns. -/
def disconnect (lost : Option (TaskAtom → Bool)) (c : Context) : Except Fault Context :=
  match lost with
  | some sync => prvNameLost sync (c.call .disconnect)
  | none => .ok (c.call .disconnect)

/-- `prv_context_quit_cb`, dispatched by the main loop. -/
def prvContextQuitCb (lost : Option (TaskAtom → Bool)) (c : Context) : Except Fault Context :=
  let c1 := { c with processor := dispatchOnQuitCb c.processor }
  if c1.connection ≠ 0 then
    match disconnect lost c1 with
    | .error fault => .error fault
    | .ok c2 =>
      let c3 := c2.call .stopService
      .ok { c3 with quitTimeouts := c3.quitTimeouts + 1 }
  else .ok { c1 with quitTimeouts := c1.quitTimeouts + 1 }

/-- `prv_set_quitting`. -/
def prvSetQuitting (sync : TaskAtom → Bool) (c : Context) : Except Fault Context :=
  match dleynaTaskProcessorSetQuitting sync c.processor with
  | .error fault => .error fault
  | .ok processor =>
    .ok { c with processor := processor, setQuittingSources := c.setQuittingSources - 1 }

/-- `dleyna_main_loop_quit`. -/
def dleynaMainLoopQuit (c : Context) : Context :=
  { c with setQuittingSources := c.setQuittingSources + 1 }

/-! ## Runs -/

/-- One step of the daemon. -/
inductive ContextOp where
  /-- The control point uses the processor, or the main loop dispatches one of its queues. -/
  | processor (op : Op)
  /-- The connector reports that it is connected. -/
  | acquired (connection : Gpointer) (started : Bool)
  /-- The connector reports that it lost its name. -/
  | nameLost (sync : TaskAtom → Bool)
  | mainLoopQuit
  | dispatchSetQuitting (sync : TaskAtom → Bool)
  | dispatchQuitCb (lost : Option (TaskAtom → Bool))
  | dispatchTimeout

/-- The effect of a step of the daemon. -/
def contextStep (c : Context) : ContextOp → Except Fault Context
  | .processor op =>
    match step c.processor op with
    | .error fault => .error fault
    | .ok processor => .ok { c with processor := processor }
  | .acquired connection started => .ok (prvConnectorAcquired connection started c)
  | .nameLost sync => prvNameLost sync c
  | .mainLoopQuit => .ok (dleynaMainLoopQuit c)
  | .dispatchSetQuitting sync => prvSetQuitting sync c
  | .dispatchQuitCb lost => prvContextQuitCb lost c
  | .dispatchTimeout => .ok (prvContextMainloopQuitCb c)

/-- The step quits the processor, or runs its quit callback; the context alone does that. -/
def Op.ofContext : Op → Bool
  | .setQuitting _ | .dispatchQuit => true
  | _ => false

/-- The main loop runs, the processor is used as its environment promises, and pending sources are
dispatched. -/
def ContextGuard (c : Context) (op : ContextOp) : Prop :=
  c.mainLoopQuit = false ∧
    match op with
    | .processor op => op.ofContext = false ∧ Guard c.processor op
    | .dispatchSetQuitting _ => 0 < c.setQuittingSources
    | .dispatchQuitCb _ => Guard c.processor .dispatchQuit
    | .dispatchTimeout => 0 < c.quitTimeouts
    | .acquired _ _ | .nameLost _ | .mainLoopQuit => True

instance (c : Context) : ∀ op : ContextOp, Decidable (ContextGuard c op)
  | .processor _ => inferInstanceAs (Decidable (_ ∧ _ ∧ Guard _ _))
  | .dispatchSetQuitting _ | .dispatchTimeout => inferInstanceAs (Decidable (_ ∧ _ < _))
  | .dispatchQuitCb _ => inferInstanceAs (Decidable (_ ∧ Guard _ _))
  | .acquired _ _ | .nameLost _ | .mainLoopQuit => inferInstanceAs (Decidable (_ ∧ True))

/-- The daemon as a transition system. -/
def daemon : System Context ContextOp Fault where
  init := Context.new
  guard := ContextGuard
  step := contextStep

instance (c : Context) (op : ContextOp) : Decidable (daemon.guard c op) :=
  inferInstanceAs (Decidable (ContextGuard c op))

/-- Every step that the processor takes satisfies `P`. -/
def OnProcessor (P : World → Op → Prop) (c : Context) : ContextOp → Prop
  | .processor op => P c.processor op
  | .nameLost sync | .dispatchSetQuitting sync => P c.processor (.setQuitting sync)
  | .dispatchQuitCb lost =>
    P c.processor .dispatchQuit ∧
      match lost with
      | some sync => c.connection ≠ 0 → P (dispatchOnQuitCb c.processor) (.setQuitting sync)
      | none => True
  | .acquired _ _ | .mainLoopQuit | .dispatchTimeout => True

instance (P : World → Op → Prop) [∀ w op, Decidable (P w op)] (c : Context) :
    ∀ op : ContextOp, Decidable (OnProcessor P c op)
  | .processor _ | .nameLost _ | .dispatchSetQuitting _ => inferInstanceAs (Decidable (P _ _))
  | .dispatchQuitCb (some _) => inferInstanceAs (Decidable (P _ _ ∧ (_ → P _ _)))
  | .dispatchQuitCb none => inferInstanceAs (Decidable (P _ _ ∧ True))
  | .acquired _ _ | .mainLoopQuit | .dispatchTimeout => inferInstanceAs (Decidable True)

/-! ## The quit callback -/

/-- The quit callback is scheduled at most once, when the processor is quitting and no task runs; it
finds no queue; and the daemon disconnects and stops its service at most once. -/
structure QuitsOnce (c : Context) : Prop where
  once : c.processor.log.countP Event.isSchedule ≤ 1
  idle : ∀ quitting runningTasks, .scheduleQuit quitting runningTasks ∈ c.processor.log →
    quitting = true ∧ runningTasks = 0
  empty : ∀ queues, .quitCb queues ∈ c.processor.log → queues = 0
  disconnects : c.calls.count .disconnect ≤ 1
  stops : c.calls.count .stopService ≤ 1

/-! ## Winding down

The main loop goes on dispatching what is pending, and the tasks that run complete, while the client
and the connector ask for nothing more. -/

/-- The main loop dispatches a source, or a running task is reported completed; no task in flight and
no dispatch is left behind. -/
def WindsDown (c : Context) (op : ContextOp) : Prop :=
  OnProcessor KeepsQueues c op ∧
    match op with
    | .processor op => Advances c.processor op
    | .dispatchSetQuitting _ | .dispatchQuitCb _ | .dispatchTimeout => True
    | .acquired _ _ | .nameLost _ | .mainLoopQuit => False

instance (c : Context) : ∀ op : ContextOp, Decidable (WindsDown c op)
  | .processor op => inferInstanceAs (Decidable (_ ∧ Advances c.processor op))
  | .dispatchSetQuitting _ | .dispatchQuitCb _ | .dispatchTimeout =>
    inferInstanceAs (Decidable (_ ∧ True))
  | .acquired _ _ | .nameLost _ | .mainLoopQuit => inferInstanceAs (Decidable (_ ∧ False))

/-- A bound on the steps that the main loop has ahead. A dispatch or a completion may schedule
`on_quit_cb`, which schedules the timeout; `prv_set_quitting` may schedule `on_quit_cb`, and so may the
loss of the name that the first `on_quit_cb` provokes. -/
def Context.remaining (c : Context) : Nat :=
  3 * c.processor.work + 4 * c.setQuittingSources + (if c.connection = 0 then 0 else 4) +
    2 * c.processor.quitView.pending + c.quitTimeouts

end DleynaCore
