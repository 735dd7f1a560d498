import DleynaCore.Log.Properties

/-!
# Which levels are selected

The loop over the numbers of a configuration stops at the first single value. Without one it computes
a union, to which neither order nor repetition matters.
-/

namespace DleynaCore

variable {n : Int} {before after intList intList' : List Int}

/-! ## The array -/

theorem logLevelArray?_eq (h : 0 ≤ n ∧ n < 9) (hn : n.toNat < 9) :
    logLevelArray? n = some (logLevelArray ⟨n.toNat, hn⟩) := dif_pos h

/-- No index is out of bounds. -/
theorem toLogLevelFrom?_eq (value : UInt32) (intList : List Int) :
    toLogLevelFrom? value intList = some (toLogLevelFrom value intList) := by
  induction intList generalizing value with
  | nil => rfl
  | cons level intList ih =>
    unfold toLogLevelFrom? toLogLevelFrom
    by_cases hlevel : 0 < level ∧ level < 7
    · have hbounds : 0 ≤ level ∧ level < 9 := by omega
      rw [if_pos hlevel, dif_pos hlevel, logLevelArray?_eq hbounds (by omega)]
      exact ih _
    · rw [if_neg hlevel, dif_neg hlevel]
      by_cases hsingle : level = 0 ∨ level = 7 ∨ level = 8
      · have hbounds : 0 ≤ level ∧ level < 9 := by omega
        rw [if_pos hsingle, dif_pos hsingle, logLevelArray?_eq hbounds (by omega)]
      · rw [if_neg hsingle, dif_neg hsingle]
        exact ih value

/-! ## The loop -/

theorem toLogLevelFrom_level (h : isLevelValue n) (value : UInt32) (intList : List Int) :
    toLogLevelFrom value (n :: intList) = toLogLevelFrom (value ||| valueMask n) intList := by
  have hrange : 1 ≤ n ∧ n ≤ 6 := by simpa [isLevelValue] using h
  have hlevel : 0 < n ∧ n < 7 := by omega
  have hmask : valueMask n = logLevelArray ⟨n.toNat, by omega⟩ := by
    rw [valueMask, logLevelArray?_eq (by omega) (by omega)]
    rfl
  rw [toLogLevelFrom, dif_pos hlevel, hmask]

theorem toLogLevelFrom_single (h : isSingleValue n) (value : UInt32) (intList : List Int) :
    toLogLevelFrom value (n :: intList) = valueMask n := by
  have hsingle : n = 0 ∨ n = 7 ∨ n = 8 := by simpa [isSingleValue] using h
  have hlevel : ¬ (0 < n ∧ n < 7) := by omega
  rw [toLogLevelFrom, dif_neg hlevel, dif_pos hsingle, valueMask, logLevelArray?_eq (by omega) (by omega)]
  rfl

theorem toLogLevelFrom_invalid (hs : ¬ isSingleValue n) (hl : ¬ isLevelValue n) (value : UInt32)
    (intList : List Int) :
    toLogLevelFrom value (n :: intList) = toLogLevelFrom value intList := by
  have hsingle : ¬ (n = 0 ∨ n = 7 ∨ n = 8) := by simpa [isSingleValue] using hs
  have hlevel : ¬ (0 < n ∧ n < 7) := by
    simp only [isLevelValue, decide_eq_true_eq] at hl
    omega
  rw [toLogLevelFrom, dif_neg hlevel, dif_neg hsingle]

/-- Before the first single value the loop collects the masks of the levels. -/
theorem toLogLevelFrom_append (h : NoSingle before) (value : UInt32) (after : List Int) :
    toLogLevelFrom value (before ++ after) =
      toLogLevelFrom (value ||| union ((before.filter isLevelValue).map valueMask)) after := by
  induction before generalizing value with
  | nil => simp
  | cons n before ih =>
    obtain ⟨hn, hbefore⟩ := List.forall_mem_cons.mp h
    rw [List.cons_append]
    by_cases hl : isLevelValue n
    · rw [toLogLevelFrom_level hl, ih hbefore, List.filter_cons_of_pos hl, List.map_cons, union_cons,
        UInt32.or_assoc]
    · rw [toLogLevelFrom_invalid hn hl, ih hbefore, List.filter_cons_of_neg hl]

/-- Without single values the result is the union of the masks of the levels. -/
theorem prvToLogLevel_levels (h : NoSingle intList) :
    prvToLogLevel intList = union ((intList.filter isLevelValue).map valueMask) := by
  have hloop := toLogLevelFrom_append h 0 []
  rwa [List.append_nil, UInt32.zero_or] at hloop

/-- With one it is the mask of the first. -/
theorem prvToLogLevel_single (h : NoSingle before) (hn : isSingleValue n) (after : List Int) :
    prvToLogLevel (before ++ n :: after) = valueMask n := by
  rw [prvToLogLevel, toLogLevelFrom_append h, toLogLevelFrom_single hn]

/-- Without single values only the set of levels matters. -/
theorem prvToLogLevel_congr (h : NoSingle intList) (h' : NoSingle intList')
    (hmem : ∀ n, isLevelValue n → (n ∈ intList ↔ n ∈ intList')) :
    prvToLogLevel intList = prvToLogLevel intList' := by
  rw [prvToLogLevel_levels h, prvToLogLevel_levels h']
  refine union_congr fun mask => ?_
  simp only [List.mem_map, List.mem_filter]
  constructor
  · rintro ⟨n, ⟨hn, hl⟩, rfl⟩
    exact ⟨n, ⟨(hmem n hl).mp hn, hl⟩, rfl⟩
  · rintro ⟨n, ⟨hn, hl⟩, rfl⟩
    exact ⟨n, ⟨(hmem n hl).mpr hn, hl⟩, rfl⟩

theorem noSingle_middle : NoSingle (before ++ n :: after) ↔
    ¬ isSingleValue n ∧ NoSingle (before ++ after) := by
  simp only [NoSingle, List.forall_mem_append, List.forall_mem_cons]
  tauto

/-! ## The comment -/

/-- `prv_to_log_level` reads its array within the bounds and computes what its comment says. -/
theorem prvToLogLevel_meetsComment :
    (∀ intList, toLogLevelFrom? 0 intList = some (prvToLogLevel intList)) ∧
      MeetsComment prvToLogLevel := by
  refine ⟨toLogLevelFrom?_eq 0, ?_⟩
  constructor
  case single =>
    intro before n after hbefore hn
    exact prvToLogLevel_single hbefore hn after
  case levels =>
    intro intList h
    exact prvToLogLevel_levels h
  case permuted =>
    intro intList intList' h hperm
    exact prvToLogLevel_congr h (fun n hn => h n (hperm.mem_iff.mpr hn)) fun n _ => hperm.mem_iff
  case duplicated =>
    intro before n after h hn
    refine prvToLogLevel_congr (noSingle_middle.mpr ⟨h n hn, h⟩) h fun m _ => ?_
    constructor
    · intro hm
      rcases List.mem_cons.mp (List.perm_middle.mem_iff.mp hm) with rfl | hm
      · exact hn
      · exact hm
    · intro hm
      exact List.perm_middle.mem_iff.mpr (List.mem_cons_of_mem n hm)
  case invalid =>
    intro before n after h hs hl
    refine prvToLogLevel_congr (noSingle_middle.mpr ⟨hs, h⟩) h fun m hm => ?_
    have hne : m ≠ n := fun heq => hl (heq ▸ hm)
    rw [List.perm_middle.mem_iff, List.mem_cons, or_iff_right hne]
  case append =>
    intro intList intList' h
    obtain ⟨hl, hr⟩ := List.forall_mem_append.mp h
    rw [prvToLogLevel_levels h, prvToLogLevel_levels hl, prvToLogLevel_levels hr, List.filter_append,
      List.map_append, union_append]

end DleynaCore
