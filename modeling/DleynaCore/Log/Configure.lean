import DleynaCore.Log.Properties

/-!
# The level of a build

`m4/log.m4` and `configure.ac`: the check of `--with-log-level`, which also computes the mask
`DLEYNA_LOG_LEVEL`. It runs over the words between the commas.
-/

namespace DleynaCore

/-- The words that `[1-6]` matches. -/
def levelWords : List String := ["1", "2", "3", "4", "5", "6"]

/-- The words that `0|7|8` matches. -/
def singleWords : List String := ["0", "7", "8"]

/-- `LOG_LEVEL_0` to `LOG_LEVEL_8`. -/
def logLevelVariables : List (String × UInt32) :=
  [("0", 0x00), ("1", 0x01), ("2", 0x02), ("3", 0x04), ("4", 0x08), ("5", 0x10), ("6", 0x20),
    ("7", 0x13), ("8", 0x3F)]

/-- `log_value`. The check has left no word for which the variable is not set. -/
def logValue (word : String) : UInt32 := (logLevelVariables.lookup word).getD 0

/-- The variables of the check. -/
structure CheckState where
  /-- `log_unique`. -/
  logUnique : Bool
  /-- `log_level_count`. -/
  logLevelCount : Nat
  /-- `LOG_LEVEL`. -/
  logLevel : UInt32
  deriving DecidableEq, Repr

/-- `_DLEYNA_LOG_LEVEL_CHECK_VALUE`, which ends `configure` with a message if the word is wrong. -/
def dleynaLogLevelCheckValue (s : CheckState) (word : String) : Except String CheckState :=
  if word ∈ levelWords then
    if s.logUnique then .error "Log levels 0, 7 and 8 cannot be combined with other values"
    else .ok { s with logLevelCount := s.logLevelCount + 1 }
  else if word ∈ singleWords then
    if s.logLevelCount ≠ 0 then
      .error ("Log level " ++ word ++ " cannot be combined with other values")
    else .ok { s with logUnique := true }
  else .error (word ++ " is not a valid value")

/-- The loop of `DLEYNA_LOG_LEVEL_CHECK`, which ends with the mask. -/
def logLevelCheckFrom (s : CheckState) : List String → Except String UInt32
  | [] => .ok s.logLevel
  | word :: words =>
    match dleynaLogLevelCheckValue s word with
    | .error message => .error message
    | .ok s' => logLevelCheckFrom { s' with logLevel := s'.logLevel ||| logValue word } words

/-- `DLEYNA_LOG_LEVEL_CHECK`. -/
def dleynaLogLevelCheck (words : List String) : Except String UInt32 :=
  logLevelCheckFrom { logUnique := false, logLevelCount := 0, logLevel := 0 } words

/-! ## What the check should guarantee -/

/-- A list that is accepted selects the same levels in a configuration file, and no list is accepted
that combines a single value with another value. -/
structure ReadersAgree (words : List String) : Prop where
  mask : ∀ mask, dleynaLogLevelCheck words = .ok mask →
    (words.mapM FileValue.toInteger).map prvToLogLevel = some mask
  rejects : ∀ word ∈ words, word ∈ singleWords → ∀ other ∈ words, other ≠ word →
    ∃ message, dleynaLogLevelCheck words = .error message

/-- The list has single values only, and not always the same one. -/
def MixesSingles (words : List String) : Prop :=
  (∀ word ∈ words, word ∈ singleWords) ∧ ∃ word ∈ words, ∃ other ∈ words, other ≠ word

end DleynaCore
