import DleynaCore.Log.Properties

/-!
# Log filtering

The mask for `syslog` and the flags for GLib encode the same set of levels, the intersection of the
selected and the compiled ones; but the flags also keep `G_LOG_FLAG_FATAL`, which GLib adds to every
error message. So the filter is exact except for error messages to GLib.
-/

namespace DleynaCore

variable {build : LogBuild} {w w0 : LogWorld} {updates : List LogUpdate} {level : LogLevel}
  {x y : UInt32} {program version message : String}

/-! ## Levels -/

theorem mem_all (level : LogLevel) : level ∈ LogLevel.all := by
  cases level <;> decide

theorem mem_levels : level ∈ levels x ↔ hasFlag x level.flag = true := by
  simp [levels, mem_all]

theorem levels_eq_nil : levels x = [] ↔ ∀ level : LogLevel, hasFlag x level.flag = false := by
  simp [levels, mem_all]

/-- An entry of the array has the levels that its index selects. -/
theorem hasFlag_logLevelArray (i : Fin 9) (level : LogLevel) :
    hasFlag (logLevelArray i) level.flag = true ↔ level ∈ selectedLevels [(i.val : Int)] := by
  have hall : ∀ i : Fin 9, ∀ level ∈ LogLevel.all,
      (hasFlag (logLevelArray i) level.flag = true ↔ level ∈ selectedLevels [(i.val : Int)]) := by
    decide
  exact hall i level (mem_all level)

/-- The loop stops at the first single value, and collects levels otherwise. -/
theorem hasFlag_toLogLevelFrom (value : UInt32) (intList : List Int) (level : LogLevel) :
    hasFlag (toLogLevelFrom value intList) level.flag = true ↔
      match intList.find? isSingleValue with
      | some n => level ∈ selectedLevels [n]
      | none => hasFlag value level.flag = true ∨ (level.number : Int) ∈ intList := by
  induction intList generalizing value with
  | nil => simp [toLogLevelFrom]
  | cons n intList ih =>
    unfold toLogLevelFrom
    split
    · next h =>
      have hn : ¬ isSingleValue n = true := by
        simp only [isSingleValue, decide_eq_true_eq]
        omega
      have hentry : hasFlag (logLevelArray ⟨n.toNat, by omega⟩) level.flag = true ↔
          (level.number : Int) = n := by
        rw [hasFlag_logLevelArray, Int.toNat_of_nonneg h.1.le, selectedLevels,
          List.find?_cons_of_neg hn]
        simp [mem_all]
      rw [ih, List.find?_cons_of_neg hn]
      split
      · rfl
      · simp only [hasFlag_or, Bool.or_eq_true, hentry, List.mem_cons, or_assoc]
    · next h =>
      split
      · next h' =>
        have hn : isSingleValue n = true := by simpa [isSingleValue] using h'
        rw [List.find?_cons_of_pos hn, hasFlag_logLevelArray, Int.toNat_of_nonneg (by omega)]
      · next h' =>
        have hn : ¬ isSingleValue n = true := by simpa [isSingleValue] using h'
        have hnumber : (level.number : Int) ≠ n := by
          cases level <;> simp only [LogLevel.number] <;> omega
        rw [ih, List.find?_cons_of_neg hn]
        simp [hnumber]

/-- `prv_to_log_level` computes the selected levels. -/
theorem mem_levels_prvToLogLevel (intList : List Int) :
    level ∈ levels (prvToLogLevel intList) ↔ level ∈ selectedLevels intList := by
  rw [mem_levels, prvToLogLevel, hasFlag_toLogLevelFrom, selectedLevels]
  cases hf : intList.find? isSingleValue with
  | none => simp [mem_all]
  | some n =>
    have hsingle : [n].find? isSingleValue = some n :=
      List.find?_cons_of_pos (List.find?_some hf)
    simp only [selectedLevels, hsingle]

/-! ## Masks and flags -/

theorem hasFlag_logMask (l level : LogLevel) :
    hasFlag (logMask l.priority) (logMask level.priority) = decide (l = level) := by
  cases l <;> cases level <;> rfl

theorem hasFlag_gFlag (l level : LogLevel) :
    hasFlag l.gFlag level.gFlag = decide (l = level) := by
  cases l <;> cases level <;> rfl

/-- One level of all is picked out. -/
theorem any_all_eq (f : LogLevel → Bool) (level : LogLevel) :
    (LogLevel.all.any fun l => f l && decide (l = level)) = f level := by
  cases level <;> simp [LogLevel.all]

/-- The two words that `prv_get_mf` puts together. -/
theorem prvGetMf_eq (x : UInt32) :
    prvGetMf x =
      let mask := LogLevel.all.foldl
        (fun m l => if hasFlag x l.flag then m ||| logMask l.priority else m) 0
      let flags := LogLevel.all.foldl (fun m l => if hasFlag x l.flag then m ||| l.gFlag else m) 0
      (mask, if flags ≠ 0 then flags ||| (gLogFlagRecursion ||| gLogFlagFatal) else flags) := by
  have hfold : ∀ (ls : List LogLevel) (r : UInt32 × UInt32),
      ls.foldl (fun r l =>
        if hasFlag x l.flag then (r.1 ||| logMask l.priority, r.2 ||| l.gFlag) else r) r =
      (ls.foldl (fun m l => if hasFlag x l.flag then m ||| logMask l.priority else m) r.1,
        ls.foldl (fun m l => if hasFlag x l.flag then m ||| l.gFlag else m) r.2) := by
    intro ls
    induction ls with
    | nil => exact fun r => rfl
    | cons l ls ih =>
      intro r
      rw [List.foldl_cons, ih]
      simp only [List.foldl_cons]
      split <;> rfl
  simp only [prvGetMf, hfold]
  split <;> rfl

/-- The mask has the priorities of the levels. -/
theorem hasFlag_mask (x : UInt32) (level : LogLevel) :
    hasFlag (prvGetMf x).1 (logMask level.priority) = hasFlag x level.flag := by
  simp only [prvGetMf_eq, hasFlag_foldl, hasFlag_zero, hasFlag_logMask, any_all_eq, Bool.false_or]

/-- The flags have those of the levels. -/
theorem hasFlag_flags (x : UInt32) (level : LogLevel) :
    hasFlag (prvGetMf x).2 level.gFlag = hasFlag x level.flag := by
  have hextra : hasFlag (gLogFlagRecursion ||| gLogFlagFatal) level.gFlag = false := by
    cases level <;> rfl
  have hfold := hasFlag_foldl (fun l => hasFlag x l.flag) LogLevel.gFlag LogLevel.all 0 level.gFlag
  simp only [hasFlag_zero, hasFlag_gFlag, any_all_eq, Bool.false_or] at hfold
  simp only [prvGetMf_eq]
  split
  · rw [hasFlag_or, hfold, hextra, Bool.or_false]
  · exact hfold

/-- The flags have the fatal one as soon as there is any level. -/
theorem hasFlag_fatal (x : UInt32) :
    hasFlag (prvGetMf x).2 gLogFlagFatal = true ↔ levels x ≠ [] := by
  rw [ne_eq, levels_eq_nil]
  constructor
  · intro hf hall
    simp [prvGetMf_eq, hall, LogLevel.all] at hf
  · intro hsome
    obtain ⟨level, hlevel⟩ := not_forall.mp hsome
    have hflags := hasFlag_flags x level
    rw [Bool.not_eq_false] at hlevel
    rw [hlevel] at hflags
    have hfatal : hasFlag (gLogFlagRecursion ||| gLogFlagFatal) gLogFlagFatal = true := rfl
    simp only [prvGetMf_eq] at hflags ⊢
    split
    · rw [hasFlag_or, hfatal, Bool.or_true]
    · next hzero =>
      rw [if_neg hzero] at hflags
      exact absurd (ne_zero_of_hasFlag hflags) hzero

/-! ## Intersections -/

theorem isFlag_logMask (level : LogLevel) : IsFlag (logMask level.priority) := by
  have hi : level.priority.toNat < 32 := by cases level <;> decide
  refine isFlag_twoPow hi ?_
  cases level <;> rfl

theorem isFlag_gFlag (level : LogLevel) : IsFlag level.gFlag := by
  have hi : level.number + 1 < 32 := by cases level <;> decide
  refine isFlag_twoPow hi ?_
  cases level <;> rfl

theorem isFlag_fatal : IsFlag gLogFlagFatal := isFlag_twoPow (i := 1) (by decide) rfl

/-- What the context and the process hold while messages are filtered by the selected and the compiled
levels. -/
structure Filters (w0 : LogWorld) (type : LogType) (selected compiled : List LogLevel) (w : LogWorld) :
    Prop where
  logType : w.context.logType = type
  mask : ∀ level : LogLevel,
    hasFlag w.context.mask (logMask level.priority) = true ↔ level ∈ selected ∧ level ∈ compiled
  flags : ∀ level : LogLevel,
    hasFlag w.context.flags level.gFlag = true ↔ level ∈ selected ∧ level ∈ compiled
  fatal : hasFlag w.context.flags gLogFlagFatal = true ↔ selected ≠ [] ∧ compiled ≠ []
  processMask : w.context.mask ≠ 0 → w.processMask.val = w.context.mask
  handler : w.defaultHandler = .prvHandler
  oldMask : w.context.oldMask = w0.processMask

/-! ## Output -/

variable {type : LogType} {selected compiled : List LogLevel}

/-- A message adds to the output, and does nothing else. -/
theorem vsyslog_eq (w : LogWorld) (priority : UInt32) (message : String) :
    ∃ outputs, vsyslog w priority message = { w with outputs := outputs } := by
  unfold vsyslog
  split
  · exact ⟨_, rfl⟩
  · exact ⟨_, rfl⟩

@[simp] theorem vsyslog_context (w : LogWorld) (priority : UInt32) (message : String) :
    (vsyslog w priority message).context = w.context := by
  obtain ⟨outputs, h⟩ := vsyslog_eq w priority message
  rw [h]

theorem prvHandler_eq (w : LogWorld) (logDomain : Option String) (level : UInt32)
    (message : String) :
    ∃ outputs, prvHandler w logDomain level message = { w with outputs := outputs } := by
  unfold prvHandler
  split
  · exact ⟨_, rfl⟩
  · split
    · exact ⟨_, rfl⟩
    · exact ⟨_, rfl⟩

theorem gLogv_eq (w : LogWorld) (logDomain : Option String) (flags : UInt32) (message : String) :
    ∃ outputs, gLogv w logDomain flags message = { w with outputs := outputs } := by
  simp only [gLogv]
  split
  · exact prvHandler_eq w logDomain _ message
  · exact ⟨_, rfl⟩

theorem dleynaLogTrace_eq (w : LogWorld) (priority flags : UInt32) (message : String) :
    ∃ outputs, dleynaLogTrace w priority flags message = { w with outputs := outputs } := by
  unfold dleynaLogTrace
  split
  · split
    · exact vsyslog_eq w priority message
    · exact ⟨_, rfl⟩
  · split
    · exact gLogv_eq w _ flags message
    · exact ⟨_, rfl⟩
  · exact ⟨_, rfl⟩

theorem dleynaLogInfo_eq (build : LogBuild) (w : LogWorld) (message : String) :
    ∃ outputs, dleynaLogInfo build w message = { w with outputs := outputs } := by
  unfold dleynaLogInfo
  split
  · exact dleynaLogTrace_eq w _ _ message
  · exact ⟨_, rfl⟩

/-- The flags with which `g_logv` calls the handler. -/
theorem gLogv_level (level : LogLevel) :
    (if hasFlag level.gFlag LogLevel.error.gFlag then level.gFlag ||| gLogFlagFatal
      else level.gFlag) =
    if level = .error then level.gFlag ||| gLogFlagFatal else level.gFlag := by
  rw [hasFlag_gFlag level .error]
  exact if_congr decide_eq_true_iff rfl rfl

/-- `syslog` outputs the message if its level passes; its mask is not set to the empty one, but the
trace function looks at that itself. -/
theorem syslog_outputs (h : Filters w0 .syslog selected compiled w) (level : LogLevel)
    (message : String) :
    (dleynaLogTrace w level.priority level.gFlag message).outputs = w.outputs ++
      if level ∈ selected ∧ level ∈ compiled then [level.output .syslog message] else [] := by
  rw [← if_congr (h.mask level) rfl rfl]
  simp only [dleynaLogTrace, h.logType]
  split
  · next hmask =>
    rw [vsyslog, h.processMask hmask]
    split
    · rfl
    · exact (List.append_nil _).symm
  · next hmask =>
    rw [not_not.mp hmask]
    simp

/-- The handler outputs messages of its own domain that have a flag of the context. -/
theorem prvHandler_outputs (w : LogWorld) (level : UInt32) (message : String) :
    (prvHandler w w.context.logDomain level message).outputs = w.outputs ++
      if hasFlag w.context.flags level = true then [.handler level message] else [] := by
  rw [prvHandler, if_neg (by simp)]
  split
  · rfl
  · exact (List.append_nil _).symm

/-- GLib outputs the message if its level passes; an error also passes by the fatal flag. -/
theorem glib_outputs (h : Filters w0 .glib selected compiled w) (level : LogLevel)
    (message : String) :
    (dleynaLogTrace w level.priority level.gFlag message).outputs = w.outputs ++
      if (level ∈ selected ∧ level ∈ compiled) ∨
          (level = .error ∧ selected ≠ [] ∧ compiled ≠ []) then
        [level.output .glib message]
      else [] := by
  have hpasses : hasFlag w.context.flags
      (if level = .error then level.gFlag ||| gLogFlagFatal else level.gFlag) = true ↔
      (level ∈ selected ∧ level ∈ compiled) ∨ (level = .error ∧ selected ≠ [] ∧ compiled ≠ []) := by
    rw [← h.flags level, ← h.fatal]
    by_cases he : level = .error
    · simp [he, hasFlag_or_right]
    · simp [he]
  rw [← if_congr hpasses rfl rfl]
  simp only [dleynaLogTrace, h.logType]
  split
  · simp only [gLogv, h.handler, gLogv_level]
    exact prvHandler_outputs w _ message
  · next hflags =>
    rw [not_not.mp hflags]
    simp

/-! ## Runs -/

/-- The mask that is set is in force, unless it is empty. -/
theorem setlogmask_val (w : LogWorld) {mask : UInt32} (h : mask ≠ 0) :
    (setlogmask w mask).2.processMask.val = mask := by
  simp [setlogmask, h]

@[simp] theorem setlogmask_context (w : LogWorld) (mask : UInt32) :
    (setlogmask w mask).2.context = w.context := by
  unfold setlogmask
  split <;> rfl

@[simp] theorem setlogmask_defaultHandler (w : LogWorld) (mask : UInt32) :
    (setlogmask w mask).2.defaultHandler = w.defaultHandler := by
  unfold setlogmask
  split <;> rfl

/-- After an update the selected levels and the compiled ones filter. -/
theorem filters_update (h : Filters w0 type selected (levels build.level) w) (update : LogUpdate) :
    Filters w0 update.logType (selectedLevels update.intList) (levels build.level)
      (dleynaLogUpdateTypeLevel build w update.logType (prvToLogLevel update.intList)) := by
  have hnil : levels (prvToLogLevel update.intList) ≠ [] ↔ selectedLevels update.intList ≠ [] := by
    simp only [ne_eq, List.eq_nil_iff_forall_not_mem, mem_levels_prvToLogLevel]
  simp only [dleynaLogUpdateTypeLevel]
  generalize hw1 : ({ w with context := _ } : LogWorld) = w1
  obtain ⟨outputs, hinfo⟩ := dleynaLogInfo_eq build w1 _
  rw [hinfo]
  subst hw1
  refine ⟨by simp, fun level => ?_, fun level => ?_, ?_, fun hmask => ?_, ?_, ?_⟩
  · simp [hasFlag_and (isFlag_logMask level), hasFlag_mask, mem_levels, ← mem_levels_prvToLogLevel]
  · simp [hasFlag_and (isFlag_gFlag level), hasFlag_flags, mem_levels, ← mem_levels_prvToLogLevel]
  · simp [hasFlag_and isFlag_fatal, hasFlag_fatal, ← hnil]
  · rw [setlogmask_context] at hmask ⊢
    exact setlogmask_val _ hmask
  · simpa using h.handler
  · simpa using h.oldMask

/-- After `dleyna_log_init` the compiled levels filter. -/
theorem filters_dleynaLogInit (build : LogBuild) (w : LogWorld) (program version : String) :
    Filters w dleynaLogType (levels build.level) (levels build.level)
      (dleynaLogInit build w program version) := by
  simp only [dleynaLogInit, gLogSetDefaultHandler, setlogmask_context, vsyslog_context,
    prvSetFlagsFromParam, dleynaLogType, ne_eq, not_true_eq_false, if_false]
  refine ⟨rfl, fun level => ?_, fun level => ?_, ?_, fun hmask => setlogmask_val _ hmask, rfl, rfl⟩
  · simp [hasFlag_mask, mem_levels]
  · simp [hasFlag_flags, mem_levels]
  · simp [hasFlag_fatal]

theorem filters_loggedRun (build : LogBuild) (w : LogWorld) (program version : String)
    (updates : List LogUpdate) :
    Filters w (lastType updates) (lastLevels build updates) (levels build.level)
      (loggedRun build w program version updates) := by
  induction updates using List.reverseRecOn with
  | nil => exact filters_dleynaLogInit build w program version
  | append_singleton updates update ih =>
    simpa [loggedRun, lastType, lastLevels, List.foldl_append] using filters_update ih update

/-- `dleyna_log_finalize` puts the mask back. -/
theorem processMask_dleynaLogFinalize (h : Filters w0 type selected compiled w) :
    (dleynaLogFinalize build w).processMask = w0.processMask := by
  simp only [dleynaLogFinalize]
  -- whatever is output on the way, the context is that of `w`
  generalize hw3 : (if _ ≠ LogType.syslog then _ else _ : LogWorld) = w3
  have hcontext : w3.context = w.context := by
    rw [← hw3]
    split
    · obtain ⟨outputs, hinfo⟩ := dleynaLogInfo_eq build
        (vsyslog (setlogmask w (logMask LogLevel.info.priority)).2 LogLevel.info.priority
          "dLeyna: Exit") "dLeyna: Exit"
      rw [hinfo]
      simp
    · simp
  have hmask : w3.context.oldMask = w0.processMask.val := by
    rw [hcontext, h.oldMask]
  have hne : w3.context.oldMask ≠ 0 := hmask ▸ w0.processMask.property
  split
  · exact Subtype.ext ((setlogmask_val _ hne).trans hmask)
  · exact Subtype.ext ((setlogmask_val _ hne).trans hmask)

/-- A message is output if its level passes, and an error to GLib also by the fatal flag. -/
theorem trace_outputs (h : Filters w0 type selected compiled w) (hfile : type ≠ .file)
    (level : LogLevel) (message : String) :
    (dleynaLogTrace w level.priority level.gFlag message).outputs = w.outputs ++
      if (level ∈ selected ∧ level ∈ compiled) ∨
          (type = .glib ∧ level = .error ∧ selected ≠ [] ∧ compiled ≠ []) then
        [level.output type message]
      else [] := by
  cases type with
  | syslog => simpa using syslog_outputs h level message
  | glib => simpa using glib_outputs h level message
  | file => exact absurd rfl hfile

theorem lastType_ne_file (updates : List LogUpdate) : lastType updates ≠ .file := by
  rw [lastType]
  cases updates.getLast? with
  | none => decide
  | some update => exact update.type_ne_file

/-- The log does what it should exactly if no error message passes by the fatal flag alone. -/
theorem filtersExactly_iff (build : LogBuild) (w : LogWorld) (program version : String)
    (updates : List LogUpdate) (level : LogLevel) (message : String) :
    FiltersExactly build w program version updates level message ↔
      ¬ FatalPasses build updates level := by
  have hfilters := filters_loggedRun build w program version updates
  have houtputs := trace_outputs hfilters (lastType_ne_file updates) level message
  constructor
  · rintro ⟨hexact, -⟩ ⟨htype, hlevel, hnot, hsome⟩
    dsimp only at hexact
    rw [houtputs, if_pos (Or.inr ⟨htype, hlevel, hsome⟩), if_neg hnot] at hexact
    simp at hexact
  · intro hnot
    refine ⟨houtputs.trans ?_, processMask_dleynaLogFinalize hfilters⟩
    congr 1
    refine if_congr ⟨fun h => ?_, Or.inl⟩ rfl rfl
    by_contra hlevels
    rcases h with h | ⟨htype, hlevel, hsome⟩
    · exact hlevels h
    · exact hnot ⟨htype, hlevel, hlevels, hsome⟩

/-- Critical messages alone are selected for GLib, and an error message is output. -/
theorem fatalPasses_reachable :
    ¬ FiltersExactly { level := dleynaLogLevelDefault, version := "1" }
        { context := .zero, processMask := ⟨0xff, by decide⟩, defaultHandler := .other 0,
          outputs := [] }
        "server" "1" [{ logType := .glib, type_ne_file := by decide, intList := [2] }] .error
        "failed" := by
  intro h
  exact absurd h.output (by decide)

end DleynaCore
