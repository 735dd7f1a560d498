import DleynaCore.Library.Transition

/-!
# Systems that settle

A system is left to those of its labels that satisfy `P`. If each of their steps lowers a measure and
none of them faults, it settles: it takes a bounded number of steps, in whatever order, and comes to
rest in a state where none of the labels is enabled.
-/

namespace DleynaCore

namespace System

variable {σ α ε : Type} {S : System σ α ε} {P : σ → α → Prop} {s s' : σ} {as : List α}

/-- `S.Steps P s as s'`: the labels `as` lead from `s` to `s'`, every label being enabled, satisfying
`P`, and not faulting. -/
inductive Steps (S : System σ α ε) (P : σ → α → Prop) (s : σ) : List α → σ → Prop where
  | nil : Steps S P s [] s
  | snoc {as : List α} {s' s'' : σ} {a : α} (h : Steps S P s as s') (hg : S.guard s' a)
      (hP : P s' a) (hs : S.step s' a = .ok s'') : Steps S P s (as ++ [a]) s''

/-- The steps form a path. -/
theorem Steps.path (h : S.Steps P s as s') : S.Path P s s' := by
  induction h with
  | nil => exact .refl
  | snoc _ hg hP hs ih => exact ih.snoc hg hP hs

/-- The steps run through. -/
theorem Steps.exec [∀ s a, Decidable (S.guard s a)] [∀ s a, Decidable (P s a)]
    (h : S.Steps P s as s') : S.exec P s as = some s' := by
  induction h with
  | nil => rfl
  | snoc _ hg hP hs ih => rw [exec_append ih, exec_singleton hg hP hs]

/-- No label that satisfies `P` is enabled. -/
def Rests (S : System σ α ε) (P : σ → α → Prop) (s : σ) : Prop := ∀ a, S.guard s a → ¬ P s a

/-- Left to the labels that satisfy `P`, the system takes at most `n` steps from `s`, none of which
faults, and `Q` holds wherever it comes to rest. -/
structure Settles (S : System σ α ε) (P : σ → α → Prop) (n : Nat) (Q : σ → Prop) (s : σ) : Prop where
  bounded : ∀ as s', S.Steps P s as s' → as.length ≤ n
  safe : ∀ as s' a, S.Steps P s as s' → S.guard s' a → P s' a → ∃ s'', S.step s' a = .ok s''
  rests : ∀ as s', S.Steps P s as s' → S.Rests P s' → Q s'

/-- An invariant of the steps. -/
theorem Steps.invariant {I : σ → Prop} (h : S.Steps P s as s') (h0 : I s)
    (hstep : ∀ s1 a s2, I s1 → S.guard s1 a → P s1 a → S.step s1 a = .ok s2 → I s2) : I s' := by
  induction h with
  | nil => exact h0
  | snoc _ hg hP hs ih => exact hstep _ _ _ ih hg hP hs

/-- A measure that every step lowers pays for the steps. -/
theorem Steps.length_le {I : σ → Prop} {m : σ → Nat} (h : S.Steps P s as s') (h0 : I s)
    (hstep : ∀ s1 a s2, I s1 → S.guard s1 a → P s1 a → S.step s1 a = .ok s2 → I s2 ∧ m s2 < m s1) :
    as.length + m s' ≤ m s := by
  induction h with
  | nil => simp
  | @snoc as s1 s2 a h hg hP hs ih =>
    have hI : I s1 := h.invariant h0 fun _ _ _ hI hg hP hs => (hstep _ _ _ hI hg hP hs).1
    have hlt := (hstep s1 a s2 hI hg hP hs).2
    rw [List.length_append, List.length_singleton]
    omega

/-- The rule: an invariant that excludes faults, and a measure that every step lowers. -/
theorem settles_of_measure {I : σ → Prop} {m : σ → Nat} {Q : σ → Prop} (h0 : I s)
    (hstep : ∀ s1 a s2, I s1 → S.guard s1 a → P s1 a → S.step s1 a = .ok s2 → I s2 ∧ m s2 < m s1)
    (hsafe : ∀ s1 a, I s1 → S.guard s1 a → P s1 a → ∃ s2, S.step s1 a = .ok s2)
    (hrests : ∀ s1, I s1 → S.Rests P s1 → Q s1) : S.Settles P (m s) Q s := by
  have hI : ∀ {as s'}, S.Steps P s as s' → I s' := fun h =>
    h.invariant h0 fun _ _ _ hI hg hP hs => (hstep _ _ _ hI hg hP hs).1
  refine ⟨fun as s' h => ?_, fun as s' a h hg hP => hsafe s' a (hI h) hg hP,
    fun as s' h hr => hrests s' (hI h) hr⟩
  have hle := h.length_le h0 hstep
  omega

/-- Steps of a system that settles can be continued until it rests. -/
theorem Settles.rest_after {n m : Nat} {Q : σ → Prop} (h : S.Settles P n Q s)
    (hs : S.Steps P s as s') (hm : n - as.length ≤ m) :
    ∃ as s', S.Steps P s as s' ∧ S.Rests P s' ∧ Q s' := by
  induction m generalizing as s' with
  | zero =>
    have hr : S.Rests P s' := by
      intro a hg hP
      obtain ⟨s'', hs'⟩ := h.safe as s' a hs hg hP
      have hlen := h.bounded _ _ (hs.snoc hg hP hs')
      rw [List.length_append, List.length_singleton] at hlen
      omega
    exact ⟨as, s', hs, hr, h.rests as s' hs hr⟩
  | succ m ih =>
    by_cases hr : S.Rests P s'
    · exact ⟨as, s', hs, hr, h.rests as s' hs hr⟩
    · unfold Rests at hr
      push Not at hr
      obtain ⟨a, hg, hP⟩ := hr
      obtain ⟨s'', hs'⟩ := h.safe as s' a hs hg hP
      refine ih (hs.snoc hg hP hs') ?_
      rw [List.length_append, List.length_singleton]
      omega

/-- A system that settles can be run until it rests. -/
theorem Settles.exists_rest {n : Nat} {Q : σ → Prop} (h : S.Settles P n Q s) :
    ∃ as s', S.Steps P s as s' ∧ S.Rests P s' ∧ Q s' :=
  h.rest_after .nil (Nat.le_refl _)

end System

end DleynaCore
