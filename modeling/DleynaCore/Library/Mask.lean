import Mathlib.Data.UInt

/-!
# Sets of flags

A word as a set of flags: union is `|||`, intersection is `&&&`, and the flags that can be told apart
in an intersection are the single bits.
-/

namespace DleynaCore

/-- The word and the flag have a bit in common. -/
def hasFlag (mask flag : UInt32) : Bool := mask &&& flag != 0

variable {a b flag : UInt32}

@[simp] theorem hasFlag_zero (flag : UInt32) : hasFlag 0 flag = false := by
  simp [hasFlag]

theorem hasFlag_or (a b flag : UInt32) :
    hasFlag (a ||| b) flag = (hasFlag a flag || hasFlag b flag) := by
  have hdist : (a ||| b) &&& flag = a &&& flag ||| b &&& flag := by
    rw [← UInt32.toBitVec_inj]
    simp [BitVec.and_or_distrib_right]
  rw [Bool.eq_iff_iff]
  simp only [hasFlag, hdist, bne_iff_ne, ne_eq, UInt32.or_eq_zero_iff, Bool.or_eq_true, not_and_or]

theorem hasFlag_or_right (mask a b : UInt32) :
    hasFlag mask (a ||| b) = (hasFlag mask a || hasFlag mask b) := by
  simp only [hasFlag, UInt32.and_comm mask]
  exact hasFlag_or a b mask

/-- A word that is put together from the flags of the selected elements of a list. -/
theorem hasFlag_foldl {α : Type} (sel : α → Bool) (f : α → UInt32) (l : List α) (a flag : UInt32) :
    hasFlag (l.foldl (fun mask x => if sel x then mask ||| f x else mask) a) flag =
      (hasFlag a flag || l.any fun x => sel x && hasFlag (f x) flag) := by
  induction l generalizing a with
  | nil => simp
  | cons x l ih =>
    rw [List.foldl_cons, ih, List.any_cons]
    cases sel x
    · simp
    · simp [hasFlag_or, Bool.or_assoc]

theorem ne_zero_of_hasFlag (h : hasFlag a flag = true) : a ≠ 0 := by
  rintro rfl
  simp at h

/-- A flag that cannot be split: every word has all of it or none of it. -/
structure IsFlag (flag : UInt32) : Prop where
  ne_zero : flag ≠ 0
  all_or_none : ∀ mask, mask &&& flag = flag ∨ mask &&& flag = 0

theorem isFlag_twoPow {i : Nat} (hi : i < 32) (h : flag.toBitVec = BitVec.twoPow 32 i) :
    IsFlag flag where
  ne_zero := by
    rintro rfl
    have hbit := congrArg (fun v => v.getLsbD i) h
    simp [hi] at hbit
  all_or_none := by
    intro mask
    simp only [← UInt32.toBitVec_inj, UInt32.toBitVec_and, h, BitVec.and_twoPow]
    cases mask.toBitVec.getLsbD i
    · exact Or.inr rfl
    · exact Or.inl rfl

theorem hasFlag_and (h : IsFlag flag) (a b : UInt32) :
    hasFlag (a &&& b) flag = (hasFlag a flag && hasFlag b flag) := by
  unfold hasFlag
  rw [UInt32.and_assoc]
  rcases h.all_or_none b with hb | hb <;> simp [hb, h.ne_zero]

/-! ## Unions -/

/-- The union of the words. -/
def union (masks : List UInt32) : UInt32 := masks.foldr (· ||| ·) 0

@[simp] theorem union_nil : union [] = 0 := rfl

@[simp] theorem union_cons (mask : UInt32) (masks : List UInt32) :
    union (mask :: masks) = mask ||| union masks := rfl

theorem union_append (masks masks' : List UInt32) :
    union (masks ++ masks') = union masks ||| union masks' := by
  induction masks with
  | nil => simp
  | cons mask masks ih => rw [List.cons_append, union_cons, ih, union_cons, UInt32.or_assoc]

/-- A word adds nothing to a union that it is part of. -/
theorem or_union_of_mem {mask : UInt32} {masks : List UInt32} (h : mask ∈ masks) :
    mask ||| union masks = union masks := by
  induction h with
  | head masks => rw [union_cons, ← UInt32.or_assoc, UInt32.or_self]
  | tail mask' _ ih =>
    rw [union_cons, ← UInt32.or_assoc, UInt32.or_comm mask, UInt32.or_assoc, ih]

theorem union_or_of_subset {masks masks' : List UInt32} (h : masks ⊆ masks') :
    union masks ||| union masks' = union masks' := by
  induction masks with
  | nil => simp
  | cons mask masks ih =>
    obtain ⟨hmem, hsub⟩ := List.cons_subset.mp h
    rw [union_cons, UInt32.or_assoc, ih hsub, or_union_of_mem hmem]

/-- Neither order nor repetition matters to a union. -/
theorem union_congr {masks masks' : List UInt32} (h : ∀ mask, mask ∈ masks ↔ mask ∈ masks') :
    union masks = union masks' := by
  have hle : union masks ||| union masks' = union masks' :=
    union_or_of_subset fun mask hmem => (h mask).mp hmem
  have hge : union masks' ||| union masks = union masks :=
    union_or_of_subset fun mask hmem => (h mask).mpr hmem
  rw [← hge, UInt32.or_comm, hle]

end DleynaCore
