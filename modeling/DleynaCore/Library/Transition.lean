import Mathlib.Logic.Relation
import Mathlib.Data.List.Basic

/-!
# Guarded transition systems that can fault

A system is driven by labels. A label is enabled in a state when its `guard` holds (what the
environment promises), and `step` either yields the next state or faults. Runs are finite label
sequences from the initial state none of whose steps faults; they may be restricted further by a
condition `P` on every step.
-/

namespace DleynaCore

/-- A labelled transition system with guards, whose steps may fault. -/
structure System (σ α ε : Type) where
  /-- The initial state. -/
  init : σ
  /-- What the environment promises when it issues a label. -/
  guard : σ → α → Prop
  /-- The effect of a label, or the fault it runs into. -/
  step : σ → α → Except ε σ

namespace System

variable {σ α ε : Type} (S : System σ α ε) (P : σ → α → Prop)

/-- `S.Run P as s`: the labels `as` lead from the initial state to `s`, every label being enabled,
satisfying `P`, and not faulting. -/
inductive Run : List α → σ → Prop where
  /-- The empty run. -/
  | nil : Run [] S.init
  /-- One more step. -/
  | snoc {as : List α} {s s' : σ} {a : α} (h : Run as s) (hg : S.guard s a) (hP : P s a)
      (hs : S.step s a = .ok s') : Run (as ++ [a]) s'

variable {S P}

/-- Labels lead to one state. -/
theorem Run.unique {as : List α} {s s' : σ} (h : S.Run P as s) (h' : S.Run P as s') : s = s' := by
  generalize has : as = as' at h'
  induction h generalizing as' s' with
  | nil =>
    cases h' with
    | nil => rfl
    | snoc _ _ _ _ => simp at has
  | @snoc as s s1 a h _ _ hs ih =>
    cases h' with
    | nil => simp at has
    | @snoc as' t t1 a' h' _ _ hs' =>
      obtain ⟨rfl, ha⟩ := List.append_inj' has rfl
      obtain rfl : a = a' := by simpa using ha
      obtain rfl := ih _ rfl h'
      exact Except.ok.inj (hs.symm.trans hs')

/-- The invariant rule; the step may use that the state before it is reached by a run. -/
theorem Run.invariant {I : σ → Prop} (h0 : I S.init)
    (hstep : ∀ as s a s', S.Run P as s → I s → S.guard s a → P s a → S.step s a = .ok s' → I s')
    {as : List α} {s : σ} (h : S.Run P as s) : I s := by
  induction h with
  | nil => exact h0
  | snoc h hg hP hs ih => exact hstep _ _ _ _ h ih hg hP hs

/-- `S.Path P s s'`: steps that are enabled and satisfy `P` lead from `s` to `s'`. -/
inductive Path (S : System σ α ε) (P : σ → α → Prop) (s : σ) : σ → Prop where
  | refl : Path S P s s
  | snoc {s' s'' : σ} {a : α} (h : Path S P s s') (hg : S.guard s' a) (hP : P s' a)
      (hs : S.step s' a = .ok s'') : Path S P s s''

/-- A run goes on along a path. -/
theorem Path.run {s s' : σ} (h : S.Path P s s') {as : List α} (hs : S.Run P as s) :
    ∃ as', S.Run P as' s' := by
  induction h with
  | refl => exact ⟨as, hs⟩
  | snoc _ hg hP hstep ih =>
    obtain ⟨as', hrun⟩ := ih
    exact ⟨_, hrun.snoc hg hP hstep⟩

/-- The invariant rule for the states along a path that starts at the end of a run. -/
theorem Path.invariant {I : σ → Prop} {s s' : σ} (h : S.Path P s s') {as : List α}
    (hs : S.Run P as s) (h0 : I s)
    (hstep : ∀ as s1 a s2, S.Run P as s1 → I s1 → S.guard s1 a → P s1 a → S.step s1 a = .ok s2 →
      I s2) : I s' := by
  induction h with
  | refl => exact h0
  | snoc h hg hP hstep' ih =>
    obtain ⟨as', hrun⟩ := h.run hs
    exact hstep _ _ _ _ hrun ih hg hP hstep'

/-- Weakening the condition on the steps. -/
theorem Run.mono {Q : σ → α → Prop} (hPQ : ∀ s a, P s a → Q s a) {as : List α} {s : σ}
    (h : S.Run P as s) : S.Run Q as s := by
  induction h with
  | nil => exact .nil
  | snoc _ hg hP hs ih => exact ih.snoc hg (hPQ _ _ hP) hs

/-- Weakening the condition on the steps, where they are known to be reached under both conditions,
and to be taken. -/
theorem Run.mono_taken {Q : σ → α → Prop}
    (hPQ : ∀ as s a s', S.Run P as s → S.Run Q as s → S.guard s a → P s a → S.step s a = .ok s' →
      Q s a) {as : List α} {s : σ} (h : S.Run P as s) : S.Run Q as s := by
  induction h with
  | nil => exact .nil
  | snoc h hg hP hs ih => exact ih.snoc hg (hPQ _ _ _ _ h ih hg hP hs) hs

/-- Weakening the condition on the steps, where they are known to be reached under both conditions. -/
theorem Run.mono_reached {Q : σ → α → Prop}
    (hPQ : ∀ as s a, S.Run P as s → S.Run Q as s → P s a → Q s a) {as : List α} {s : σ}
    (h : S.Run P as s) : S.Run Q as s :=
  h.mono_taken fun _ _ _ _ hrun hrun' _ hP _ => hPQ _ _ _ hrun hrun' hP

/-- The unwinding rule: if the steps that `sel` rejects preserve `R` on the left alone, and the
steps that it selects can be matched on the right, then deleting the rejected steps from a run
leaves a run, whose last state is `R`-related to the last state of the original one. -/
theorem Run.project {R : σ → σ → Prop} (sel : α → Bool) (h0 : R S.init S.init)
    (hskip : ∀ as s t a s', S.Run P as s → S.Run P (as.filter sel) t → R s t → sel a = false →
      S.guard s a → P s a → S.step s a = .ok s' → R s' t)
    (hstep : ∀ as s t a s', S.Run P as s → S.Run P (as.filter sel) t → R s t → sel a = true →
      S.guard s a → P s a → S.step s a = .ok s' →
      ∃ t', S.guard t a ∧ P t a ∧ S.step t a = .ok t' ∧ R s' t')
    {as : List α} {s : σ} (h : S.Run P as s) :
    ∃ t, S.Run P (as.filter sel) t ∧ R s t := by
  induction h with
  | nil => exact ⟨_, .nil, h0⟩
  | @snoc as s s' a h hg hP hs ih =>
    obtain ⟨t, ht, hR⟩ := ih
    cases hsel : sel a with
    | false =>
      refine ⟨t, ?_, hskip _ _ _ _ _ h ht hR hsel hg hP hs⟩
      simpa [List.filter_append, hsel] using ht
    | true =>
      obtain ⟨t', hg', hP', hs', hR'⟩ := hstep _ _ _ _ _ h ht hR hsel hg hP hs
      refine ⟨t', ?_, hR'⟩
      simpa [List.filter_append, hsel] using ht.snoc hg' hP' hs'

/-! ## Running a system -/

variable (S P) [∀ s a, Decidable (S.guard s a)] [∀ s a, Decidable (P s a)]

/-- Run the labels from a state, if all of them are enabled, satisfy `P` and do not fault. -/
def exec (s : σ) : List α → Option σ
  | [] => some s
  | a :: as =>
    if S.guard s a ∧ P s a then
      match S.step s a with
      | .ok s' => exec s' as
      | .error _ => none
    else none

/-- The state after a run from the initial state. -/
def final (as : List α) : σ := (S.exec P S.init as).getD S.init

variable {S P}

theorem Run.exec {as : List α} {s : σ} (h : S.Run P as s) {bs : List α} {s' : σ}
    (he : S.exec P s bs = some s') : S.Run P (as ++ bs) s' := by
  induction bs generalizing as s with
  | nil =>
    obtain rfl : s = s' := by simpa [System.exec] using he
    simpa using h
  | cons a bs ih =>
    simp only [System.exec] at he
    split at he
    · next hga =>
      split at he
      · next s1 hs1 => simpa using ih (h.snoc hga.1 hga.2 hs1) he
      · simp at he
    · simp at he

/-- Labels are run under a weaker condition too. -/
theorem exec_mono {Q : σ → α → Prop} [∀ s a, Decidable (Q s a)] (hPQ : ∀ s a, P s a → Q s a)
    {s s' : σ} {as : List α} (h : S.exec P s as = some s') : S.exec Q s as = some s' := by
  induction as generalizing s with
  | nil => exact h
  | cons a as ih =>
    simp only [System.exec] at h ⊢
    split at h
    · next hga =>
      rw [if_pos ⟨hga.1, hPQ _ _ hga.2⟩]
      split at h
      · exact ih h
      · simp at h
    · simp at h

theorem exec_append {s s' : σ} {as bs : List α} (h : S.exec P s as = some s') :
    S.exec P s (as ++ bs) = S.exec P s' bs := by
  induction as generalizing s with
  | nil =>
    obtain rfl : s = s' := Option.some.inj h
    rfl
  | cons a as ih =>
    simp only [System.exec, List.cons_append] at h ⊢
    split at h
    · next hga =>
      rw [if_pos hga]
      split at h
      · exact ih h
      · simp at h
    · simp at h

theorem exec_singleton {s s' : σ} {a : α} (hg : S.guard s a) (hP : P s a)
    (hs : S.step s a = .ok s') : S.exec P s [a] = some s' := by
  simp [System.exec, hg, hP, hs]

/-- A run runs through. -/
theorem Run.exec_eq {as : List α} {s : σ} (h : S.Run P as s) : S.exec P S.init as = some s := by
  induction h with
  | nil => rfl
  | snoc _ hg hP hs ih => rw [exec_append ih, exec_singleton hg hP hs]

/-- A sequence of labels that runs through is a run. -/
theorem run_final {as : List α} (h : (S.exec P S.init as).isSome = true) :
    S.Run P as (S.final P as) := by
  obtain ⟨s, hs⟩ := Option.isSome_iff_exists.mp h
  have := Run.nil.exec hs
  rw [final, hs]
  simpa using this

end System

end DleynaCore
