import DleynaCore.Udn.Convert
import Mathlib.Algebra.BigOperators.Group.List.Basic
import Mathlib.Tactic.Cases

/-!
# The bounds of the conversion

The loop never moves back, and every store but the last is below the index that it moves to; so all
stores are in bounds exactly if the index at the end is. That one depends on the widths of the
characters alone.
-/

namespace DleynaCore

variable {n i j : Nat} {c : UInt8} {cs text udn : List UInt8} {stores : List (Nat × UInt8)}

/-! ## Characters -/

theorem length_escape_lt : ∀ n < 256, (escape n.toUInt8).length = if n.toUInt8 < 128 then 3 else 9 := by
  decide +kernel

theorem length_escape (c : UInt8) : (escape c).length = if c < 128 then 3 else 9 := by
  have h := length_escape_lt c.toNat (UInt8.toNat_lt_size c)
  rwa [show c.toNat.toUInt8 = c from UInt8.ofNat_toNat] at h

theorem charWidth_escape (h : copied c = false) : (escape c).length = charWidth c := by
  rw [length_escape, charWidth, h]
  rfl

theorem charWidth_pos (c : UInt8) : 0 < charWidth c := by
  unfold charWidth
  split
  · exact Nat.one_pos
  · split <;> omega

@[simp] theorem width_nil : width [] = 0 := rfl

@[simp] theorem width_cons : width (c :: cs) = charWidth c + width cs := by
  simp [width]

/-! ## Stores -/

theorem mem_storesAt {s : Nat × UInt8} (h : s ∈ storesAt i text) :
    i ≤ s.1 ∧ s.1 < i + text.length := by
  induction text generalizing i with
  | nil => simp [storesAt] at h
  | cons c cs ih =>
    rcases List.mem_cons.mp h with rfl | h
    · simp
    · obtain ⟨h1, h2⟩ := ih h
      rw [List.length_cons]
      omega

/-- The terminator is stored behind the text at most. -/
theorem mem_gSnprintf {s : Nat × UInt8} (h : s ∈ (gSnprintf i n text).1) :
    s.1 ≤ i + text.length := by
  unfold gSnprintf at h
  split at h
  · simp at h
  · have := (mem_storesAt h).2
    rw [List.length_append, List.length_take, List.length_singleton] at this
    omega

/-! ## The loop -/

/-- One round of the loop moves the index by the width of the character, and makes its stores up to
there. -/
theorem convertLoop_cons (destLen : Nat) (c : UInt8) (udn : List UInt8)
    (stores : List (Nat × UInt8)) (h : i < destLen) : ∃ written,
    convertLoop destLen (c :: udn) i stores =
      convertLoop destLen udn (i + charWidth c) (stores ++ written) ∧
    ∀ s ∈ written, s.1 ≤ i + charWidth c := by
  rw [convertLoop, if_pos h]
  cases hc : copied c with
  | true =>
    refine ⟨[(i, c)], by simp [charWidth, hc], fun s hs => ?_⟩
    rw [List.mem_singleton.mp hs]
    omega
  | false =>
    refine ⟨(gSnprintf i (destLen + 1) (escape c)).1, ?_, fun s hs => ?_⟩
    · rw [← charWidth_escape hc]
      rfl
    · rw [← charWidth_escape hc]
      exact mem_gSnprintf hs

theorem convertLoop_stop (destLen : Nat) (h : ¬ i < destLen) :
    convertLoop destLen udn i stores = (i, stores) := by
  cases udn with
  | nil => rfl
  | cons c udn => rw [convertLoop, if_neg h]

/-- The stores of the loop are up to the index at its end. -/
theorem mem_convertLoop (destLen : Nat) (udn : List UInt8) (hst : ∀ s ∈ stores, s.1 ≤ i) :
    i ≤ (convertLoop destLen udn i stores).1 ∧
      ∀ s ∈ (convertLoop destLen udn i stores).2, s.1 ≤ (convertLoop destLen udn i stores).1 := by
  induction udn generalizing i stores with
  | nil => exact ⟨le_refl _, hst⟩
  | cons c udn ih =>
    by_cases h : i < destLen
    · obtain ⟨written, hl, hw⟩ := convertLoop_cons destLen c udn stores h
      have hst' : ∀ s ∈ stores ++ written, s.1 ≤ i + charWidth c := by
        intro s hs
        rcases List.mem_append.mp hs with hs | hs
        · exact (hst s hs).trans (Nat.le_add_right _ _)
        · exact hw s hs
      obtain ⟨h1, h2⟩ := ih hst'
      rw [hl]
      exact ⟨(Nat.le_add_right _ _).trans h1, h2⟩
    · rw [convertLoop_stop destLen h]
      exact ⟨le_refl _, hst⟩

/-- The loop ends in bounds if all characters fit, or if it is stopped at the bound. -/
theorem convertLoop_le (destLen : Nat) (udn : List UInt8) (i : Nat) (stores : List (Nat × UInt8)) :
    (convertLoop destLen udn i stores).1 ≤ destLen ↔
    i + width udn ≤ destLen ∨ ∃ cs, cs <+: udn ∧ i + width cs = destLen := by
  induction udn generalizing i stores with
  | nil =>
    rw [convertLoop, width_nil, Nat.add_zero]
    refine ⟨Or.inl, fun h => h.elim id ?_⟩
    rintro ⟨cs, hcs, h⟩
    rw [List.prefix_nil.mp hcs, width_nil] at h
    omega
  | cons c udn ih =>
    have hpos := charWidth_pos c
    by_cases h : i < destLen
    · obtain ⟨written, hl, -⟩ := convertLoop_cons destLen c udn stores h
      rw [hl, ih, width_cons, ← Nat.add_assoc]
      refine or_congr Iff.rfl ⟨?_, ?_⟩
      · rintro ⟨cs, hcs, hw⟩
        refine ⟨c :: cs, List.cons_prefix_cons.mpr ⟨rfl, hcs⟩, ?_⟩
        rw [width_cons]
        omega
      · rintro ⟨cs, hcs, hw⟩
        cases cs with
        | nil =>
          rw [width_nil] at hw
          omega
        | cons c' cs =>
          obtain ⟨rfl, hcs'⟩ := List.cons_prefix_cons.mp hcs
          refine ⟨cs, hcs', ?_⟩
          rw [width_cons] at hw
          omega
    · rw [convertLoop_stop destLen h, width_cons]
      constructor
      · intro hi
        exact Or.inr ⟨[], List.nil_prefix, by rw [width_nil]; omega⟩
      · rintro (hw | ⟨cs, -, hw⟩) <;> omega

/-- All stores are in bounds exactly if the characters fit into the buffer, or some of the first ones
fill it. -/
theorem convert_inBounds_iff (udn : CString) : (dleynaCorePrvConvertUdnToPath udn).InBounds ↔
    width udn.bytes ≤ destLen udn ∨ ∃ cs, cs <+: udn.bytes ∧ width cs = destLen udn := by
  have hle := convertLoop_le (destLen udn) udn.bytes 0 []
  simp only [Nat.zero_add] at hle
  rw [← hle]
  constructor
  · intro h
    exact Nat.lt_succ_iff.mp (h _ (List.mem_append_right _ List.mem_cons_self))
  · intro h s hs
    refine Nat.lt_succ_of_le (le_trans ?_ h)
    rcases List.mem_append.mp hs with hs | hs
    · exact (mem_convertLoop (i := 0) (destLen udn) udn.bytes (by simp)).2 s hs
    · rw [List.mem_singleton.mp hs]

/-- A byte above 127 has nine characters, and space for three. -/
theorem convert_highByte : ¬ (dleynaCorePrvConvertUdnToPath ⟨[0x80], by decide⟩).InBounds := by
  decide

end DleynaCore
