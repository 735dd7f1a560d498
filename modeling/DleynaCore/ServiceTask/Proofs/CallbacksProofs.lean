import DleynaCore.ServiceTask.Service
import DleynaCore.TaskProcessor.Proofs.TaskEventsProofs

/-!
# The callbacks of a service queue

What the callbacks that a call of the processor makes do to the service tasks: deleted tasks are
freed, and cancelled ones lose their action. They do not use freed memory as long as the processor
hands them live tasks.
-/

namespace DleynaCore

variable {w w' : ServiceWorld} {e : Event} {es : List Event} {t task : TaskAtom} {a : Gpointer}
  {s : ServiceTask}

/-- The actions of libgupnp belong to tasks that wait for them, through a proxy. -/
def ServiceWorld.ActionsOk (w : ServiceWorld) : Prop :=
  ∀ a t, (a, t) ∈ w.actions → ∃ s, w.tasks t = some s ∧ s.pAction = a ∧ a ≠ 0 ∧ s.proxy ≠ 0

@[simp] theorem setTask_self (w : ServiceWorld) (task : TaskAtom) (s : Option ServiceTask) :
    (w.setTask task s).tasks task = s := if_pos rfl

theorem setTask_ne (w : ServiceWorld) (s : Option ServiceTask) (h : t ≠ task) :
    (w.setTask task s).tasks t = w.tasks t := if_neg h

@[simp] theorem setTask_processor (w : ServiceWorld) (task : TaskAtom) (s : Option ServiceTask) :
    (w.setTask task s).processor = w.processor := rfl

@[simp] theorem setTask_actions (w : ServiceWorld) (task : TaskAtom) (s : Option ServiceTask) :
    (w.setTask task s).actions = w.actions := rfl

@[simp] theorem setTask_history (w : ServiceWorld) (task : TaskAtom) (s : Option ServiceTask) :
    (w.setTask task s).history = w.history := rfl

theorem sync_of_task (h : w.tasks t = some s) : w.sync t = (s.pAction != 0) := by
  simp [ServiceWorld.sync, h]

/-- The events of a history that `ServiceWorld.Settled` looks at. -/
def ServiceEvent.settles : ServiceEvent → Bool
  | .begun _ _ _ | .finished _ _ | .cancelled _ _ => true
  | _ => false

/-- What the callbacks `es` have done to the service tasks. -/
structure Replayed (w : ServiceWorld) (es : List Event) (w' : ServiceWorld) : Prop where
  processor : w'.processor = w.processor
  tasks : ∀ t, w'.tasks t = if es.any (Event.deletes t) = true then none else
    (w.tasks t).map fun s =>
      if es.any (Event.cancels t) = true then { s with pAction := 0 } else s
  actions : w'.actions.Sublist w.actions
  ok : w'.ActionsOk
  /-- A cancel callback that finds an action pending is recorded; nothing else is. -/
  history : ∀ e, e.settles = true → (e ∈ w'.history ↔ e ∈ w.history ∨
    ∃ t s, e = .cancelled t s.pAction ∧ es.any (Event.cancels t) = true ∧
      w.tasks t = some s ∧ s.pAction ≠ 0)

theorem replayed_nil (h : w.ActionsOk) : Replayed w [] w where
  processor := rfl
  tasks := fun t => by cases w.tasks t <;> simp
  actions := List.Sublist.refl _
  ok := h
  history := by simp

/-- An event that is no cancel or delete callback. -/
theorem replayed_other (h : w.ActionsOk) (hc : ∀ t, e.cancels t = false)
    (hd : ∀ t, e.deletes t = false) : Replayed w [e] w where
  processor := rfl
  tasks := fun t => by cases hs : w.tasks t <;> simp [hc, hd]
  actions := List.Sublist.refl _
  ok := h
  history := by simp [hc]

theorem actionsOk_cancelled (h : w.ActionsOk) (hs : w.tasks t = some s) {actions : List (Gpointer × TaskAtom)}
    (hsub : actions.Sublist w.actions) (hn : s.proxy ≠ 0 → ∀ x ∈ actions, x.1 ≠ s.pAction)
    {w' : ServiceWorld} (hw : w'.actions = actions)
    (ht : w'.tasks = (w.setTask t (some { s with pAction := 0 })).tasks) : w'.ActionsOk := by
  intro a t' hm
  rw [hw] at hm
  obtain ⟨s', hs', ha, ha0, hp⟩ := h a t' (hsub.subset hm)
  have hne : t' ≠ t := by
    rintro rfl
    obtain rfl : s' = s := Option.some.inj (hs'.symm.trans hs)
    exact hn hp _ hm ha.symm
  exact ⟨s', by rw [ht, setTask_ne _ _ hne, hs'], ha, ha0, hp⟩

theorem replayed_cancelCb {k : TaskQueueKey} {u : Gpointer} (h : w.ActionsOk)
    (hs : w.tasks task = some s) :
    ∃ w', callback w (.cancelCb k task u) = .ok w' ∧ Replayed w [.cancelCb k task u] w' := by
  have hdel : ∀ t, (Event.cancelCb k task u).deletes t = false := fun _ => rfl
  have hcan : ∀ t, (Event.cancelCb k task u).cancels t = true ↔ task = t := fun t => by
    simp [Event.cancels]
  by_cases ha : s.pAction = 0
  · refine ⟨w, by simp [callback, dleynaServiceTaskCancelCb, hs, ha], rfl, fun t => ?_,
      List.Sublist.refl _, h, ?_⟩
    · by_cases ht : task = t
      · subst ht
        simp [hdel, hs, ← ha]
      · cases w.tasks t <;> simp [hdel, hcan, ht]
    · intro e _
      refine ⟨Or.inl, ?_⟩
      rintro (he | ⟨t, s', rfl, hc, hs', ha'⟩)
      · exact he
      · obtain rfl : task = t := by simpa [hcan] using hc
        obtain rfl : s = s' := Option.some.inj (hs.symm.trans hs')
        exact absurd ha ha'
  · have htasks : ∀ t, (w.setTask task (some { s with pAction := 0 })).tasks t =
        if [Event.cancelCb k task u].any (Event.deletes t) = true then none else
          (w.tasks t).map fun s =>
            if [Event.cancelCb k task u].any (Event.cancels t) = true then { s with pAction := 0 }
            else s := by
      intro t
      by_cases ht : task = t
      · subst ht
        simp [hdel, hcan, hs]
      · rw [setTask_ne _ _ (Ne.symm ht)]
        cases w.tasks t <;> simp [hdel, hcan, ht]
    have hnew : ∀ e : ServiceEvent, (e = .cancelled task s.pAction ↔
        ∃ t s', e = .cancelled t s'.pAction ∧
          [Event.cancelCb k task u].any (Event.cancels t) = true ∧ w.tasks t = some s' ∧
            s'.pAction ≠ 0) := by
      intro e
      constructor
      · rintro rfl
        exact ⟨task, s, rfl, by simp [hcan], hs, ha⟩
      · rintro ⟨t, s', rfl, hc, hs', -⟩
        obtain rfl : task = t := by simpa [hcan] using hc
        obtain rfl : s = s' := Option.some.inj (hs.symm.trans hs')
        rfl
    by_cases hp : s.proxy = 0
    · refine ⟨(w.setTask task (some { s with pAction := 0 })).emit [.cancelled task s.pAction],
        by simp [callback, dleynaServiceTaskCancelCb, hs, ha, hp], rfl, htasks,
        List.Sublist.refl _, actionsOk_cancelled h hs (List.Sublist.refl _) (absurd hp) rfl rfl, ?_⟩
      intro e _
      rw [← hnew]
      simp [ServiceWorld.emit]
    · refine ⟨((gupnpServiceProxyCancelAction w s.proxy s.pAction).setTask task
          (some { s with pAction := 0 })).emit [.cancelled task s.pAction],
        by simp [callback, dleynaServiceTaskCancelCb, hs, ha, hp], rfl, htasks,
        List.filter_sublist, actionsOk_cancelled h hs List.filter_sublist (fun _ x hx => ?_) rfl rfl, ?_⟩
      · simpa using (List.mem_filter.mp hx).2
      · intro e he
        rw [← hnew]
        have hce : e ≠ .cancelAction s.proxy s.pAction := by
          rintro rfl
          simp [ServiceEvent.settles] at he
        simp [ServiceWorld.emit, gupnpServiceProxyCancelAction, hce]

theorem replayed_deleteCb {k : TaskQueueKey} {u : Gpointer} (h : w.ActionsOk)
    (hs : w.tasks task = some s) (ha : s.pAction = 0) :
    ∃ w', callback w (.deleteCb k task u) = .ok w' ∧ Replayed w [.deleteCb k task u] w' := by
  have hcan : ∀ t, (Event.deleteCb k task u).cancels t = false := fun _ => rfl
  have hdel : ∀ t, (Event.deleteCb k task u).deletes t = true ↔ task = t := fun t => by
    simp [Event.deletes]
  have hfree : ∃ w1 : ServiceWorld, callback w (.deleteCb k task u) = .ok (w1.setTask task none) ∧
      w1.processor = w.processor ∧ w1.tasks = w.tasks ∧ w1.actions = w.actions ∧
        ∀ e, e.settles = true → (e ∈ w1.history ↔ e ∈ w.history) := by
    cases hf : s.freeFunc with
    | none => exact ⟨w, by simp [callback, dleynaServiceTaskDeleteCb, hs, hf], rfl, rfl, rfl, by simp⟩
    | some cb =>
      refine ⟨w.emit [.freeFunc cb s.userData],
        by simp [callback, dleynaServiceTaskDeleteCb, hs, hf], rfl, rfl, rfl, fun e he => ?_⟩
      have hce : e ≠ .freeFunc cb s.userData := by
        rintro rfl
        simp [ServiceEvent.settles] at he
      simp [ServiceWorld.emit, hce]
  obtain ⟨w1, hcb, hproc, htasks, hact, hhist⟩ := hfree
  refine ⟨_, hcb, hproc, fun t => ?_, by simp [hact], ?_, fun e he => ?_⟩
  · by_cases ht : task = t
    · subst ht
      simp [hdel]
    · rw [setTask_ne _ _ (Ne.symm ht), htasks]
      cases w.tasks t <;> simp [hdel, hcan, ht]
  · intro a t hm
    rw [setTask_actions, hact] at hm
    obtain ⟨s', hs', has, ha0, hp⟩ := h a t hm
    have hne : t ≠ task := by
      rintro rfl
      obtain rfl : s' = s := Option.some.inj (hs'.symm.trans hs)
      exact ha0 (has ▸ ha)
    exact ⟨s', by rw [setTask_ne _ _ hne, htasks, hs'], has, ha0, hp⟩
  · rw [setTask_history, hhist e he]
    simp [hcan]

theorem Replayed.cons {w1 : ServiceWorld} (h1 : Replayed w [e] w1) (h2 : Replayed w1 es w')
    (hlast : ∀ t, e.deletes t = true → es.any (Event.cancels t) = false) :
    Replayed w (e :: es) w' where
  processor := h2.processor.trans h1.processor
  tasks := by
    intro t
    rw [h2.tasks, h1.tasks]
    simp only [List.any_cons, List.any_nil, Bool.or_false, Bool.or_eq_true]
    cases e.deletes t <;> cases e.cancels t <;> cases es.any (Event.deletes t) <;>
      cases es.any (Event.cancels t) <;> cases w.tasks t <;> rfl
  actions := h2.actions.trans h1.actions
  ok := h2.ok
  history := by
    intro f hf
    rw [h2.history f hf, h1.history f hf, or_assoc]
    refine or_congr_right ⟨?_, ?_⟩
    · rintro (⟨t, s, rfl, hc, hs, ha⟩ | ⟨t, s', rfl, hc, hs', ha⟩)
      · exact ⟨t, s, rfl, by simp_all, hs, ha⟩
      · rw [h1.tasks] at hs'
        split at hs'
        · simp at hs'
        · obtain ⟨s, hs, rfl⟩ := Option.map_eq_some_iff.mp hs'
          split at ha
          · exact absurd rfl ha
          · next hne => exact ⟨t, s, by rw [if_neg hne], by simp [hc], hs, ha⟩
    · rintro ⟨t, s, rfl, hc, hs, ha⟩
      by_cases hce : e.cancels t = true
      · exact Or.inl ⟨t, s, rfl, by simp [hce], hs, ha⟩
      · have hces : es.any (Event.cancels t) = true := by simpa [hce] using hc
        have hde : e.deletes t = false := Bool.eq_false_of_not_eq_true fun hd => by
          simp [hlast t hd] at hces
        exact Or.inr ⟨t, s, rfl, hces, by simp [h1.tasks, hde, hce, hs], ha⟩

/-- The processor hands its callbacks live tasks, nothing happens to a task after its deletion, and a
task that is deleted with its action pending is cancelled first. -/
structure Handed (w : ServiceWorld) (es : List Event) : Prop where
  last : es.Pairwise fun e f => ∀ t, e.deletes t = true → f.task ≠ some t
  live : ∀ e ∈ es, ∀ t, e.deletes t = true ∨ e.cancels t = true → (w.tasks t).isSome = true
  cancelled : ∀ t s, w.tasks t = some s → s.pAction ≠ 0 → es.any (Event.deletes t) = true →
    es.any (Event.cancels t) = true

theorem Handed.not_after {e : Event} (h : Handed w (e :: es)) (he : e.deletes t = true) :
    es.any (Event.cancels t) = false ∧ es.any (Event.deletes t) = false := by
  have hlast := (List.pairwise_cons.mp h.last).1
  refine ⟨List.any_eq_false.mpr fun f hf hc => ?_, List.any_eq_false.mpr fun f hf hd => ?_⟩
  · exact hlast f hf t he (task_of_cancels hc)
  · exact hlast f hf t he (task_of_deletes hd)

theorem Handed.tail {w1 : ServiceWorld} (h : Handed w (e :: es)) (h1 : Replayed w [e] w1) :
    Handed w1 es where
  last := (List.pairwise_cons.mp h.last).2
  live := by
    intro f hf t ht
    have hlive := h.live f (List.mem_cons_of_mem _ hf) t ht
    have hde : e.deletes t = false := Bool.eq_false_of_not_eq_true fun hd => by
      have hnone := h.not_after hd
      rcases ht with ht | ht
      · exact absurd ht (List.any_eq_false.mp hnone.2 f hf)
      · exact absurd ht (List.any_eq_false.mp hnone.1 f hf)
    simpa [h1.tasks, hde] using hlive
  cancelled := by
    intro t s' hs' ha hd
    rw [h1.tasks] at hs'
    split at hs'
    · simp at hs'
    · obtain ⟨s, hs, rfl⟩ := Option.map_eq_some_iff.mp hs'
      split at ha
      · exact absurd rfl ha
      · next hne =>
        have hc := h.cancelled t s hs ha (by simp [hd])
        simpa [show e.cancels t = false by simpa using hne] using hc

/-- A task that is deleted has no action pending. -/
theorem Handed.sync_deleted {k : TaskQueueKey} {u : Gpointer} (h : Handed w (.deleteCb k t u :: es)) :
    w.sync t = false := by
  have hd : (Event.deleteCb k t u).deletes t = true := by simp [Event.deletes]
  obtain ⟨s, hs⟩ := Option.isSome_iff_exists.mp (h.live _ (by simp) t (Or.inl hd))
  rw [sync_of_task hs, bne_eq_false_iff_eq]
  by_contra ha
  have hc := h.cancelled t s hs ha (by simp [hd])
  simp [Event.cancels, (h.not_after hd).1] at hc

/-- The next callback does not use freed memory. -/
theorem Handed.replayed {e : Event} (h : Handed w (e :: es)) (hw : w.ActionsOk) :
    ∃ w1, callback w e = .ok w1 ∧ Replayed w [e] w1 := by
  cases e with
  | cancelCb k task u =>
    obtain ⟨s, hs⟩ := Option.isSome_iff_exists.mp
      (h.live (.cancelCb k task u) (by simp) task (Or.inr (by simp [Event.cancels])))
    exact replayed_cancelCb hw hs
  | deleteCb k task u =>
    have hd : (Event.deleteCb k task u).deletes task = true := by simp [Event.deletes]
    obtain ⟨s, hs⟩ := Option.isSome_iff_exists.mp
      (h.live (.deleteCb k task u) (by simp) task (Or.inl hd))
    have ha := h.sync_deleted
    rw [sync_of_task hs, bne_eq_false_iff_eq] at ha
    exact replayed_deleteCb hw hs ha
  | _ => exact ⟨w, rfl, replayed_other hw (fun _ => rfl) fun _ => rfl⟩

/-- The callbacks of the processor do not use freed memory. -/
theorem callbacks_replayed (h : Handed w es) (hw : w.ActionsOk) :
    ∃ w', callbacks w es = .ok w' ∧ Replayed w es w' := by
  induction es generalizing w with
  | nil => exact ⟨w, rfl, replayed_nil hw⟩
  | cons e es ih =>
    obtain ⟨w1, hcb, h1⟩ := h.replayed hw
    obtain ⟨w', hcbs, h2⟩ := ih (h.tail h1) h1.ok
    exact ⟨w', by simp [callbacks, hcb, hcbs], h1.cons h2 fun t hd => (h.not_after hd).1⟩

end DleynaCore
