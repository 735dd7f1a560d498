import DleynaCore.ServiceTask.Service
import DleynaCore.TaskProcessor.Proofs.LogProofs

/-!
# The history of a service run

No step of the service layer rewrites the history of the processor: the callbacks of `service-task.c`
leave the processor alone, and everything else goes through its steps.
-/

namespace DleynaCore

variable {w w' : ServiceWorld} {t : TaskAtom} {es : List Event}

theorem callback_processor {e : Event} (h : callback w e = .ok w') : w'.processor = w.processor := by
  cases e with
  | cancelCb k t u =>
    simp only [callback, dleynaServiceTaskCancelCb] at h
    split at h
    · simp at h
    · obtain rfl := Except.ok.inj h
      split
      · split <;> rfl
      · rfl
  | deleteCb k t u =>
    simp only [callback, dleynaServiceTaskDeleteCb] at h
    split at h
    · simp at h
    · obtain rfl := Except.ok.inj h
      split <;> rfl
  | _ =>
    obtain rfl := Except.ok.inj h
    rfl

theorem callbacks_processor (h : callbacks w es = .ok w') : w'.processor = w.processor := by
  induction es generalizing w with
  | nil =>
    obtain rfl := Except.ok.inj h
    rfl
  | cons e es ih =>
    rw [callbacks] at h
    cases hc : callback w e with
    | error fault => simp [hc] at h
    | ok w1 =>
      rw [hc] at h
      exact (ih h).trans (callback_processor hc)

/-- The history of the processor goes on. -/
def ServiceWorld.Continues (w w' : ServiceWorld) : Prop := w.processor.log <+: w'.processor.log

theorem continues_process {onFault : Fault → ServiceFault} {op : Op}
    (h : process w onFault op = .ok w') : w.Continues w' := by
  unfold process at h
  cases hs : step w.processor op with
  | error fault => simp [hs] at h
  | ok p =>
    rw [hs] at h
    rw [ServiceWorld.Continues, callbacks_processor h]
    exact extends_step hs

theorem continues_call {cl : Call} (h : call w cl = .ok w') : w.Continues w' := by
  cases cl with
  | addServiceTask queueId task proxy freeFunc userData => exact continues_process (w := w.setTask _ _) h
  | finalizeProxy proxy =>
    obtain rfl := Except.ok.inj h
    exact List.prefix_refl _
  | _ =>
    unfold call at h
    exact continues_process h

theorem continues_calls {cs : List Call} (h : calls w cs = .ok w') : w.Continues w' := by
  induction cs generalizing w with
  | nil =>
    obtain rfl := Except.ok.inj h
    exact List.prefix_refl _
  | cons cl cs ih =>
    rw [calls] at h
    cases hc : call w cl with
    | error fault => simp [hc] at h
    | ok w1 =>
      rw [hc] at h
      exact (continues_call hc).trans (ih h)

theorem continues_runAction {cs : List Call} {action : Gpointer} {failed : Bool}
    (h : runAction w t cs action failed = .ok w') : w.Continues w' := by
  unfold runAction at h
  cases hc : calls w cs with
  | error fault => simp [hc] at h
  | ok w1 =>
    rw [hc] at h
    cases hs : w1.tasks t with
    | none => simp [hs] at h
    | some s =>
      simp only [hs] at h
      obtain rfl := Except.ok.inj h
      show w.processor.log <+: w1.processor.log
      exact continues_calls hc

theorem continues_processCb {cs : List Call} {action : Gpointer} {failed : Bool}
    (h : dleynaServiceTaskProcessCb w t cs action failed = .ok w') : w.Continues w' := by
  unfold dleynaServiceTaskProcessCb at h
  cases hr : runAction w t cs action failed with
  | error fault => simp [hr] at h
  | ok w1 =>
    refine (continues_runAction hr).trans ?_
    rw [hr] at h
    simp only at h
    split at h
    · simp at h
    · split at h
      · simp at h
      · next w2 hw2 =>
        have h2 : w1.Continues w2 := by
          split at hw2
          · exact continues_process hw2
          · obtain rfl := Except.ok.inj hw2
            exact List.prefix_refl _
        refine h2.trans ?_
        split at h
        · simp at h
        · split at h
          · exact continues_process h
          · obtain rfl := Except.ok.inj h
            exact List.prefix_refl _

theorem continues_serviceStep {op : ServiceOp} (h : serviceStep w op = .ok w') : w.Continues w' := by
  cases op with
  | call cl => exact continues_call h
  | dispatch queueId cs action failed =>
    simp only [serviceStep, dispatchServiceTask] at h
    cases ht : takeTask w queueId with
    | error fault => simp [ht] at h
    | ok x =>
      obtain ⟨o, w1⟩ := x
      have h1 : w.Continues w1 := by
        unfold takeTask at ht
        cases hp : process w .processor (.dispatch queueId) with
        | error fault => simp [hp] at ht
        | ok w2 =>
          rw [hp] at ht
          obtain ⟨-, rfl⟩ := Prod.mk.inj (Except.ok.inj ht)
          exact continues_process hp
      refine h1.trans ?_
      rw [ht] at h
      cases o with
      | none =>
        obtain rfl := Except.ok.inj h
        exact List.prefix_refl _
      | some t => exact continues_processCb h
  | actionCb action task cs =>
    simp only [serviceStep, dleynaServiceTaskBeginActionCb, endAction] at h
    cases hs : w.tasks task with
    | none => simp [hs] at h
    | some s =>
      simp only [hs] at h
      split at h
      · simp at h
      · next w2 hw2 =>
        have h2 : _ <+: w2.processor.log := continues_calls hw2
        refine h2.trans ?_
        split at h
        · simp at h
        · exact continues_process h
  | setQuitting | dispatchQuit | rehash taskQueues =>
    unfold serviceStep at h
    exact continues_process h

theorem continues_path {P : ServiceWorld → ServiceOp → Prop} (h : service.Path P w w') :
    w.Continues w' := by
  induction h with
  | refl => exact List.prefix_refl _
  | snoc _ _ _ hs ih => exact ih.trans (continues_serviceStep hs)

end DleynaCore
