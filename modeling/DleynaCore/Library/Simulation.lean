import DleynaCore.Library.Transition

/-!
# Simulations between two systems

`f` says what a label of the first system is to the second; a label it maps to `none` is not
noticed there. A relation that the steps keep carries runs over, in either direction.
-/

namespace DleynaCore.System

variable {σ α τ β ε : Type} {S : System σ α ε} {T : System τ β ε} {P : σ → α → Prop}
  {Q : τ → β → Prop} {R : σ → τ → Prop} {f : α → Option β}

/-- A run of the first system is one of the second, its labels being those that are noticed. -/
theorem Run.simulated (h0 : R S.init T.init)
    (hskip : ∀ as s t a s', S.Run P as s → R s t → f a = none → S.guard s a → P s a →
      S.step s a = .ok s' → R s' t)
    (hstep : ∀ as s t a b s', S.Run P as s → R s t → f a = some b → S.guard s a → P s a →
      S.step s a = .ok s' → ∃ t', T.guard t b ∧ Q t b ∧ T.step t b = .ok t' ∧ R s' t')
    {as : List α} {s : σ} (h : S.Run P as s) : ∃ t, T.Run Q (as.filterMap f) t ∧ R s t := by
  induction h with
  | nil => exact ⟨_, .nil, h0⟩
  | @snoc as s s' a h hg hP hs ih =>
    obtain ⟨t, ht, hR⟩ := ih
    cases hf : f a with
    | none =>
      refine ⟨t, ?_, hskip _ _ _ _ _ h hR hf hg hP hs⟩
      simpa [List.filterMap_append, hf] using ht
    | some b =>
      obtain ⟨t', hgt, hQ, hst, hR'⟩ := hstep _ _ _ _ _ _ h hR hf hg hP hs
      refine ⟨t', ?_, hR'⟩
      simpa [List.filterMap_append, hf] using ht.snoc hgt hQ hst

/-- A run of the second system comes from one of the first. -/
theorem Run.realized (h0 : R S.init T.init)
    (hstep : ∀ as s t b t', S.Run P as s → T.Run Q (as.filterMap f) t → R s t → T.guard t b →
      Q t b → T.step t b = .ok t' →
      ∃ a s', f a = some b ∧ S.guard s a ∧ P s a ∧ S.step s a = .ok s' ∧ R s' t')
    {bs : List β} {t : τ} (h : T.Run Q bs t) :
    ∃ as s, S.Run P as s ∧ as.filterMap f = bs ∧ R s t := by
  induction h with
  | nil => exact ⟨_, _, .nil, rfl, h0⟩
  | @snoc bs t t' b h hg hQ ht ih =>
    obtain ⟨as, s, hs, rfl, hR⟩ := ih
    obtain ⟨a, s', hf, hgs, hP, hst, hR'⟩ := hstep _ _ _ _ _ hs h hR hg hQ ht
    refine ⟨_, s', hs.snoc hgs hP hst, ?_, hR'⟩
    simp [List.filterMap_append, hf]

end DleynaCore.System
