import DleynaCore.Settings.Settings

/-!
# What the log should output

A message is output if its level is selected by the configuration and was compiled in, and the mask of
the process is put back in the end.
-/

namespace DleynaCore

/-- The levels whose flags are in the word. -/
def levels (logLevel : UInt32) : List LogLevel := LogLevel.all.filter fun l => hasFlag logLevel l.flag

/-- The values that select by themselves: 0 (none), 7 (errors, critical and informational messages)
and 8 (all). -/
def isSingleValue (n : Int) : Bool := n = 0 ∨ n = 7 ∨ n = 8

/-- The levels that a list of numbers selects: the first single value decides; without one, the numbers
of levels do. -/
def selectedLevels (intList : List Int) : List LogLevel :=
  match intList.find? isSingleValue with
  | some n => if n = 0 then [] else if n = 7 then [.error, .critical, .info] else LogLevel.all
  | none => LogLevel.all.filter fun l => (l.number : Int) ∈ intList

/-- A call of `dleyna_log_update_type_level` with what was read from a configuration. -/
structure LogUpdate where
  logType : LogType
  /-- `prv_to_log_type` yields no other. -/
  type_ne_file : logType ≠ .file
  intList : List Int
  deriving DecidableEq, Repr

/-- `dleyna_log_init`, and then the updates. -/
def loggedRun (build : LogBuild) (w : LogWorld) (program version : String)
    (updates : List LogUpdate) : LogWorld :=
  updates.foldl (fun w u => dleynaLogUpdateTypeLevel build w u.logType (prvToLogLevel u.intList))
    (dleynaLogInit build w program version)

/-- The type of the last update. -/
def lastType (updates : List LogUpdate) : LogType :=
  (updates.getLast?.map LogUpdate.logType).getD dleynaLogType

/-- The levels that the last update selects; those that were compiled in, if there is none. -/
def lastLevels (build : LogBuild) (updates : List LogUpdate) : List LogLevel :=
  (updates.getLast?.map fun u => selectedLevels u.intList).getD (levels build.level)

/-- A message of the level, as `syslog` or `g_log_default_handler` gets it; GLib adds
`G_LOG_FLAG_FATAL` to an error message. -/
def LogLevel.output (level : LogLevel) (type : LogType) (message : String) : Output :=
  if type = .syslog then .syslog level.priority message
  else .handler (if level = .error then level.gFlag ||| gLogFlagFatal else level.gFlag) message

/-- What the log should do after a run with a message of the level (output it once, or not at all), and
when it is finalized. -/
structure FiltersExactly (build : LogBuild) (w0 : LogWorld) (program version : String)
    (updates : List LogUpdate) (level : LogLevel) (message : String) : Prop where
  output :
    let w := loggedRun build w0 program version updates
    (dleynaLogTrace w level.priority level.gFlag message).outputs = w.outputs ++
      if level ∈ lastLevels build updates ∧ level ∈ levels build.level then
        [level.output (lastType updates) message]
      else []
  restored : (dleynaLogFinalize build (loggedRun build w0 program version updates)).processMask =
    w0.processMask

/-- An error message for GLib whose level is not selected or not compiled in, while some levels are
selected and some are compiled in. -/
def FatalPasses (build : LogBuild) (updates : List LogUpdate) (level : LogLevel) : Prop :=
  lastType updates = .glib ∧ level = .error ∧
    ¬ (level ∈ lastLevels build updates ∧ level ∈ levels build.level) ∧
    lastLevels build updates ≠ [] ∧ levels build.level ≠ []

/-! ## Numbers of levels -/

/-- The values that select a level each. -/
def isLevelValue (n : Int) : Bool := 1 ≤ n ∧ n ≤ 6

/-- The entry of `log_level_array` at the index, if there is one. -/
def logLevelArray? (i : Int) : Option UInt32 :=
  if h : 0 ≤ i ∧ i < 9 then some (logLevelArray ⟨i.toNat, by omega⟩) else none

/-- The loop of `prv_to_log_level` without the knowledge that its indices are in bounds: it has no
result, if it reads outside the array. -/
def toLogLevelFrom? (logLevelValue : UInt32) : List Int → Option UInt32
  | [] => some logLevelValue
  | level :: intList =>
    if 0 < level ∧ level < 7 then
      (logLevelArray? level).bind fun mask => toLogLevelFrom? (logLevelValue ||| mask) intList
    else if level = 0 ∨ level = 7 ∨ level = 8 then logLevelArray? level
    else toLogLevelFrom? logLevelValue intList

/-- The mask of a value, empty for a value that is not valid. -/
def valueMask (n : Int) : UInt32 := (logLevelArray? n).getD 0

/-- The list has none of the values that select by themselves. -/
def NoSingle (intList : List Int) : Prop := ∀ n ∈ intList, ¬ isSingleValue n

/-- The comment of `prv_to_log_level`, and what it implies for lists without single values. -/
structure MeetsComment (toLogLevel : List Int → UInt32) : Prop where
  single : ∀ before n after, NoSingle before → isSingleValue n →
    toLogLevel (before ++ n :: after) = valueMask n
  levels : ∀ intList, NoSingle intList →
    toLogLevel intList = union ((intList.filter isLevelValue).map valueMask)
  permuted : ∀ intList intList', NoSingle intList → intList.Perm intList' →
    toLogLevel intList = toLogLevel intList'
  duplicated : ∀ before n after, NoSingle (before ++ after) → n ∈ before ++ after →
    toLogLevel (before ++ n :: after) = toLogLevel (before ++ after)
  invalid : ∀ before n after, NoSingle (before ++ after) → ¬ isSingleValue n → ¬ isLevelValue n →
    toLogLevel (before ++ n :: after) = toLogLevel (before ++ after)
  append : ∀ intList intList', NoSingle (intList ++ intList') →
    toLogLevel (intList ++ intList') = toLogLevel intList ||| toLogLevel intList'

end DleynaCore
