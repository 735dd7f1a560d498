import Mathlib
import DleynaCore.Log.Configure
import DleynaCore.Log.Proofs.LevelsProofs

/-!
# Two readers of one list

The check looks for a level after a single value and for a single value after a level, but not for one
single value after another. It accepts such lists, and takes the union of what they select.
-/

namespace DleynaCore

variable {s : CheckState} {word : String} {words : List String} {mask : UInt32}

/-! ## Words -/

theorem not_mem_levelWords (h : word ∈ singleWords) : word ∉ levelWords := by
  simp only [singleWords, List.mem_cons, List.not_mem_nil, or_false] at h
  rcases h with rfl | rfl | rfl <;> decide

theorem toInteger_digit {n : Nat} (h : n < 9) : FileValue.toInteger (Nat.repr n) = some (n : Int) := by
  rw [FileValue.toInteger, Nat.toInt?_repr, Option.bind_some, if_pos]
  omega

/-- The number of a word, and what it selects. -/
structure Reads (word : String) (n : Int) : Prop where
  toInteger : FileValue.toInteger word = some n
  logValue : logValue word = valueMask n

/-- Each level is read as a level. -/
theorem reads_levelWord (h : word ∈ levelWords) : ∃ n, Reads word n ∧ isLevelValue n := by
  simp only [levelWords, List.mem_cons, List.not_mem_nil, or_false] at h
  rcases h with rfl | rfl | rfl | rfl | rfl | rfl
  · exact ⟨1, ⟨toInteger_digit (n := 1) (by omega), rfl⟩, rfl⟩
  · exact ⟨2, ⟨toInteger_digit (n := 2) (by omega), rfl⟩, rfl⟩
  · exact ⟨3, ⟨toInteger_digit (n := 3) (by omega), rfl⟩, rfl⟩
  · exact ⟨4, ⟨toInteger_digit (n := 4) (by omega), rfl⟩, rfl⟩
  · exact ⟨5, ⟨toInteger_digit (n := 5) (by omega), rfl⟩, rfl⟩
  · exact ⟨6, ⟨toInteger_digit (n := 6) (by omega), rfl⟩, rfl⟩

/-- Each single value is read as one. -/
theorem reads_singleWord (h : word ∈ singleWords) : ∃ n, Reads word n ∧ isSingleValue n := by
  simp only [singleWords, List.mem_cons, List.not_mem_nil, or_false] at h
  rcases h with rfl | rfl | rfl
  · exact ⟨0, ⟨toInteger_digit (n := 0) (by omega), rfl⟩, rfl⟩
  · exact ⟨7, ⟨toInteger_digit (n := 7) (by omega), rfl⟩, rfl⟩
  · exact ⟨8, ⟨toInteger_digit (n := 8) (by omega), rfl⟩, rfl⟩

/-- A list whose words are all read, as numbers with a property. -/
theorem mapM_toInteger {p : Int → Bool} (h : ∀ word ∈ words, ∃ n, Reads word n ∧ p n) :
    ∃ intList, words.mapM FileValue.toInteger = some intList ∧
      words.map logValue = intList.map valueMask ∧ ∀ n ∈ intList, p n := by
  induction words with
  | nil => exact ⟨[], rfl, rfl, by simp⟩
  | cons word words ih =>
    obtain ⟨⟨n, hread, hn⟩, hwords⟩ := List.forall_mem_cons.mp h
    obtain ⟨intList, hmap, hmasks, hall⟩ := ih hwords
    refine ⟨n :: intList, ?_, ?_, List.forall_mem_cons.mpr ⟨hn, hall⟩⟩
    · rw [List.mapM_cons, hread.toInteger, hmap]
      rfl
    · rw [List.map_cons, List.map_cons, hread.logValue, hmasks]

/-! ## The check -/

theorem checkValue_level (h : word ∈ levelWords) (hu : s.logUnique = false) :
    dleynaLogLevelCheckValue s word = .ok { s with logLevelCount := s.logLevelCount + 1 } := by
  rw [dleynaLogLevelCheckValue, if_pos h, hu]
  rfl

theorem checkValue_single (h : word ∈ singleWords) (hc : s.logLevelCount = 0) :
    dleynaLogLevelCheckValue s word = .ok { s with logUnique := true } := by
  rw [dleynaLogLevelCheckValue, if_neg (not_mem_levelWords h), if_pos h, if_neg (by omega)]

/-- After a single value, only single values are accepted. -/
theorem checkValue_afterSingle (hu : s.logUnique = true) (h : word ∉ singleWords) :
    ∃ message, dleynaLogLevelCheckValue s word = .error message := by
  unfold dleynaLogLevelCheckValue
  rw [hu, if_neg h]
  split
  · exact ⟨_, rfl⟩
  · exact ⟨_, rfl⟩

/-- After a level, only levels are accepted. -/
theorem checkValue_afterLevel (hc : s.logLevelCount ≠ 0) (h : word ∉ levelWords) :
    ∃ message, dleynaLogLevelCheckValue s word = .error message := by
  unfold dleynaLogLevelCheckValue
  rw [if_neg h, if_pos hc]
  split
  · exact ⟨_, rfl⟩
  · exact ⟨_, rfl⟩

theorem checkFrom_ok {s' : CheckState} (h : dleynaLogLevelCheckValue s word = .ok s') :
    logLevelCheckFrom s (word :: words) =
      logLevelCheckFrom { s' with logLevel := s'.logLevel ||| logValue word } words := by
  rw [logLevelCheckFrom, h]

theorem checkFrom_error {message : String}
    (h : dleynaLogLevelCheckValue s word = .error message) :
    logLevelCheckFrom s (word :: words) = .error message := by
  rw [logLevelCheckFrom, h]

/-- After a single value the rest of the list has to be single values. -/
theorem checkFrom_afterSingle (hu : s.logUnique = true) (hc : s.logLevelCount = 0) :
    logLevelCheckFrom s words = .ok mask ↔
      (∀ word ∈ words, word ∈ singleWords) ∧ mask = s.logLevel ||| union (words.map logValue) := by
  induction words generalizing s with
  | nil => simp [logLevelCheckFrom, eq_comm]
  | cons word words ih =>
    by_cases hword : word ∈ singleWords
    · rw [checkFrom_ok (checkValue_single hword hc),
        ih (s := ⟨true, s.logLevelCount, s.logLevel ||| logValue word⟩) rfl hc,
        List.forall_mem_cons, List.map_cons, union_cons, UInt32.or_assoc, and_iff_right hword]
    · obtain ⟨message, hmessage⟩ := checkValue_afterSingle hu hword
      rw [checkFrom_error hmessage]
      simp [hword]

/-- After a level the rest of the list has to be levels. -/
theorem checkFrom_afterLevel (hu : s.logUnique = false) (hc : s.logLevelCount ≠ 0) :
    logLevelCheckFrom s words = .ok mask ↔
      (∀ word ∈ words, word ∈ levelWords) ∧ mask = s.logLevel ||| union (words.map logValue) := by
  induction words generalizing s with
  | nil => simp [logLevelCheckFrom, eq_comm]
  | cons word words ih =>
    by_cases hword : word ∈ levelWords
    · rw [checkFrom_ok (checkValue_level hword hu),
        ih (s := ⟨s.logUnique, s.logLevelCount + 1, s.logLevel ||| logValue word⟩) hu
          (Nat.succ_ne_zero _),
        List.forall_mem_cons, List.map_cons, union_cons, UInt32.or_assoc, and_iff_right hword]
    · obtain ⟨message, hmessage⟩ := checkValue_afterLevel hc hword
      rw [checkFrom_error hmessage]
      simp [hword]

/-- The lists that are accepted have levels only, or single values only; their mask is a union. -/
theorem dleynaLogLevelCheck_ok_iff : dleynaLogLevelCheck words = .ok mask ↔
    ((∀ word ∈ words, word ∈ levelWords) ∨ ∀ word ∈ words, word ∈ singleWords) ∧
      mask = union (words.map logValue) := by
  unfold dleynaLogLevelCheck
  cases words with
  | nil => simp [logLevelCheckFrom, eq_comm]
  | cons word words =>
    simp only [List.forall_mem_cons, List.map_cons, union_cons]
    by_cases hlevel : word ∈ levelWords
    · have hsingle : word ∉ singleWords := fun h => not_mem_levelWords h hlevel
      rw [checkFrom_ok (checkValue_level hlevel rfl),
        checkFrom_afterLevel (s := ⟨false, 0 + 1, 0 ||| logValue word⟩) rfl (Nat.succ_ne_zero 0),
        UInt32.zero_or]
      simp [hlevel, hsingle]
    · by_cases hsingle : word ∈ singleWords
      · rw [checkFrom_ok (checkValue_single hsingle rfl),
          checkFrom_afterSingle (s := ⟨true, 0, 0 ||| logValue word⟩) rfl rfl, UInt32.zero_or]
        simp [hlevel, hsingle]
      · have hvalue : dleynaLogLevelCheckValue
            { logUnique := false, logLevelCount := 0, logLevel := 0 } word =
              .error (word ++ " is not a valid value") := by
          rw [dleynaLogLevelCheckValue, if_neg hlevel, if_neg hsingle]
        rw [checkFrom_error hvalue]
        simp [hlevel, hsingle]

/-! ## Both readers -/

/-- A list of levels selects the same levels in a configuration file. -/
theorem prvToLogLevel_levelWords (h : ∀ word ∈ words, word ∈ levelWords) :
    (words.mapM FileValue.toInteger).map prvToLogLevel = some (union (words.map logValue)) := by
  obtain ⟨intList, hmap, hmasks, hlevels⟩ :=
    mapM_toInteger fun word hword => reads_levelWord (h word hword)
  have hno : NoSingle intList := by
    intro n hn hsingle
    have hlevel := hlevels n hn
    simp only [isSingleValue, isLevelValue, decide_eq_true_eq] at hsingle hlevel
    omega
  have hfilter : intList.filter isLevelValue = intList := List.filter_eq_self.mpr hlevels
  rw [hmap, Option.map_some, prvToLogLevel_levels hno, hfilter, hmasks]

/-- Of single values the file selects the first, which is all there is if there are no others. -/
theorem prvToLogLevel_singleWords (h : ∀ word ∈ words, word ∈ singleWords)
    (hsame : ∀ word ∈ words, ∀ other ∈ words, other = word) :
    (words.mapM FileValue.toInteger).map prvToLogLevel = some (union (words.map logValue)) := by
  obtain ⟨intList, hmap, hmasks, hsingles⟩ :=
    mapM_toInteger fun word hword => reads_singleWord (h word hword)
  have hmasksSame : ∀ mask ∈ words.map logValue, ∀ other ∈ words.map logValue, other = mask := by
    intro mask hmask other hother
    obtain ⟨word, hword, rfl⟩ := List.mem_map.mp hmask
    obtain ⟨word', hword', rfl⟩ := List.mem_map.mp hother
    rw [hsame word hword word' hword']
  rw [hmasks] at hmasksSame
  rw [hmap, Option.map_some, hmasks]
  cases intList with
  | nil => rfl
  | cons n intList =>
    have hn := hsingles n List.mem_cons_self
    have hnone : NoSingle [] := by simp [NoSingle]
    have hfirst : prvToLogLevel (n :: intList) = valueMask n := prvToLogLevel_single hnone hn intList
    have hmem : ∀ mask, mask ∈ (n :: intList).map valueMask ↔ mask ∈ [valueMask n] := by
      intro mask
      constructor
      · intro hmask
        exact List.mem_singleton.mpr (hmasksSame (valueMask n) List.mem_cons_self mask hmask)
      · intro hmask
        rw [List.mem_singleton.mp hmask]
        exact List.mem_cons_self
    rw [hfirst, union_congr hmem, union_cons, union_nil, UInt32.or_zero]

/-- The check and the configuration file agree, and no single value is combined with another value,
exactly if the list is not one of different single values. -/
theorem readersAgree_iff (words : List String) : ReadersAgree words ↔ ¬ MixesSingles words := by
  constructor
  · rintro hagree ⟨hall, word, hword, other, hother, hne⟩
    obtain ⟨message, herror⟩ := hagree.rejects word hword (hall word hword) other hother hne
    have hok := dleynaLogLevelCheck_ok_iff.mpr ⟨Or.inr hall, rfl⟩
    rw [herror] at hok
    cases hok
  · intro hmixes
    constructor
    case mask =>
      intro mask hok
      obtain ⟨hlevels | hsingles, rfl⟩ := dleynaLogLevelCheck_ok_iff.mp hok
      · exact prvToLogLevel_levelWords hlevels
      · refine prvToLogLevel_singleWords hsingles fun word hword other hother => ?_
        by_contra hne
        exact hmixes ⟨hsingles, word, hword, other, hother, hne⟩
    case rejects =>
      intro word hword hsingle other hother hne
      cases hcheck : dleynaLogLevelCheck words with
      | error message => exact ⟨message, rfl⟩
      | ok mask =>
        obtain ⟨hlevels | hsingles, -⟩ := dleynaLogLevelCheck_ok_iff.mp hcheck
        · exact absurd (hlevels word hword) (not_mem_levelWords hsingle)
        · exact absurd ⟨hsingles, word, hword, other, hother, hne⟩ hmixes

/-- `--with-log-level=7,8` compiles in all levels, and `log-level=7,8` selects those of 7. -/
theorem mixedSingles_accepted :
    dleynaLogLevelCheck ["7", "8"] = .ok 0x3F ∧ prvToLogLevel [7, 8] = 0x13 ∧
      ¬ ReadersAgree ["7", "8"] := by
  have hcheck : dleynaLogLevelCheck ["7", "8"] = .ok 0x3F := by decide
  refine ⟨hcheck, by decide, fun h => ?_⟩
  obtain ⟨message, herror⟩ := h.rejects "7" (by decide) (by decide) "8" (by decide) (by decide)
  rw [hcheck] at herror
  cases herror

end DleynaCore
