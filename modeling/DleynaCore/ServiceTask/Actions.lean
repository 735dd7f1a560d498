import DleynaCore.ServiceTask.Service

/-!
# The life of an action

`t_action` is called once for a task, and what it begins ends once. The history of a task says how far
its action has come; the processor and libgupnp have to agree with that.
-/

namespace DleynaCore

/-- How far the action of a task has come. -/
inductive ActionState where
  /-- `t_action` has not returned. -/
  | waiting
  | pending (action : Gpointer)
  /-- The action has finished, or was cancelled, or there was none. -/
  | ended
  deriving DecidableEq, Repr

/-- What an event does to the action of its task; `none` if it must not happen. -/
def ActionState.next : ActionState → ServiceEvent → Option ActionState
  | .waiting, .begun _ action _ => some (if action = 0 then .ended else .pending action)
  | .pending action, .finished _ a | .pending action, .cancelled _ a =>
    if a = action then some .ended else none
  | _, _ => none

/-- The event is about the action of the task. -/
def ServiceEvent.isAbout (task : TaskAtom) : ServiceEvent → Bool
  | .begun t _ _ | .finished t _ | .cancelled t _ => t == task
  | .cancelAction _ _ | .freeFunc _ _ => false

/-- The action of the task after these events; `none` if one of them must not happen. -/
def actionAfter (task : TaskAtom) (history : List ServiceEvent) : Option ActionState :=
  (history.filter (ServiceEvent.isAbout task)).foldlM ActionState.next .waiting

/-- Only a pending action is cancelled, and its task forgets it at once. -/
def CancelsPending (history : List ServiceEvent) : Prop :=
  ∀ before proxy action after, history = before ++ .cancelAction proxy action :: after →
    ∃ task after', after = .cancelled task action :: after' ∧
      actionAfter task before = some (.pending action)

/-- What should hold of the actions: the action of a task waits until the task is processed, it is
pending as long as the task is in flight, and over once the task is completed; libgupnp has the pending
actions whose proxies are there, and is not asked to cancel any other. -/
structure ActsOnce (w : ServiceWorld) : Prop where
  follows : ∀ t, (actionAfter t w.history).isSome = true
  waiting : ∀ t, actionAfter t w.history = some .waiting ↔
    ∀ k, t ∉ processedTasks k w.processor.log
  pending : ∀ t, (∃ action, actionAfter t w.history = some (.pending action)) ↔
    ∃ k, InFlight w.processor.log k t
  ended : ∀ t, actionAfter t w.history = some .ended ↔ ∃ k, t ∈ completedTasks k w.processor.log
  actions : ∀ action t, (action, t) ∈ w.actions ↔
    actionAfter t w.history = some (.pending action) ∧ ∃ s, w.tasks t = some s ∧ s.proxy ≠ 0
  cancels : CancelsPending w.history

/-- The task whose `t_action` has returned. -/
def ServiceEvent.begunTask : ServiceEvent → Option TaskAtom
  | .begun t _ _ => some t
  | _ => none

/-- The actions of a queue should follow one another: they are begun in the order in which the tasks
were added, and when one is begun no other one of the queue is pending. -/
structure ActsInTurn (w : ServiceWorld) : Prop where
  inOrder : ∀ k, ((w.history.filterMap ServiceEvent.begunTask).filter
    (· ∈ addedTasks k w.processor.log)).Sublist (addedTasks k w.processor.log)
  apart : ∀ before t action failed after, w.history = before ++ .begun t action failed :: after →
    ∀ k, t ∈ addedTasks k w.processor.log → ∀ t' ∈ addedTasks k w.processor.log, ∀ action',
      actionAfter t' before ≠ some (.pending action')

end DleynaCore
