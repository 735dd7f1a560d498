import DleynaCore.Library.Mask

/-!
# Logging

`log.c` and `log.h`: which traced messages reach `syslog` or the default handler of GLib. Of libc it is
assumed that `setlogmask(0)` leaves the mask as it is, and of GLib that `g_logv` adds
`G_LOG_FLAG_FATAL` to `G_LOG_LEVEL_ERROR` and to no other level before it calls the handler.
-/

namespace DleynaCore

/-! ## Levels -/

/-- The levels of importance. -/
inductive LogLevel where
  | error
  | critical
  | warning
  | message
  | info
  | debug
  deriving DecidableEq, Repr

namespace LogLevel

/-- The levels, in the order in which `prv_get_mf` looks at them. -/
def all : List LogLevel := [error, critical, warning, message, info, debug]

/-- The number of the level in a configuration. -/
def number : LogLevel → Nat
  | error => 1
  | critical => 2
  | warning => 3
  | message => 4
  | info => 5
  | debug => 6

/-- `DLEYNA_LOG_LEVEL_ERROR` and its companions. -/
def flag : LogLevel → UInt32
  | error => 0x01
  | critical => 0x02
  | warning => 0x04
  | message => 0x08
  | info => 0x10
  | debug => 0x20

/-- The priority of `syslog` for the level: `LOG_ERR`, `LOG_CRIT`, `LOG_WARNING`, `LOG_NOTICE`,
`LOG_INFO` and `LOG_DEBUG`. -/
def priority : LogLevel → UInt32
  | error => 3
  | critical => 2
  | warning => 4
  | message => 5
  | info => 6
  | debug => 7

/-- `G_LOG_LEVEL_ERROR` and its companions. -/
def gFlag : LogLevel → UInt32
  | error => (1 : UInt32) <<< (2 : UInt32)
  | critical => (1 : UInt32) <<< (3 : UInt32)
  | warning => (1 : UInt32) <<< (4 : UInt32)
  | message => (1 : UInt32) <<< (5 : UInt32)
  | info => (1 : UInt32) <<< (6 : UInt32)
  | debug => (1 : UInt32) <<< (7 : UInt32)

end LogLevel

/-- `DLEYNA_LOG_LEVEL_DISABLED`. -/
def dleynaLogLevelDisabled : UInt32 := 0x00

/-- `DLEYNA_LOG_LEVEL_DEFAULT`. -/
def dleynaLogLevelDefault : UInt32 := 0x13

/-- `DLEYNA_LOG_LEVEL_ALL`. -/
def dleynaLogLevelAll : UInt32 := 0x3F

/-- `LOG_MASK`. -/
def logMask (priority : UInt32) : UInt32 := 1 <<< priority

/-- `G_LOG_FLAG_RECURSION`. -/
def gLogFlagRecursion : UInt32 := (1 : UInt32) <<< (0 : UInt32)

/-- `G_LOG_FLAG_FATAL`. -/
def gLogFlagFatal : UInt32 := (1 : UInt32) <<< (1 : UInt32)

/-- `dleyna_log_type_t`. -/
inductive LogType where
  | syslog
  | glib
  | file
  deriving DecidableEq, Repr

/-- The value of the enumerator. -/
def LogType.value : LogType → Nat
  | syslog => 0
  | glib => 1
  | file => 2

/-- `DLEYNA_LOG_TYPE`. -/
def dleynaLogType : LogType := .syslog

/-- What the configuration of the build defines. -/
structure LogBuild where
  /-- `DLEYNA_LOG_LEVEL`. -/
  level : UInt32
  /-- `VERSION`. -/
  version : String

/-! ## State -/

/-- A `GLogFunc`. -/
inductive GLogFunc where
  | prvHandler
  /-- A handler of GLib or of another component. -/
  | other (handler : Nat)
  deriving DecidableEq, Repr

/-- `dleyna_log_t`. -/
structure LogContext where
  oldMask : UInt32
  mask : UInt32
  logType : LogType
  flags : UInt32
  oldHandler : Option GLogFunc
  logDomain : Option String
  deriving DecidableEq, Repr

/-- Zeroes, as `memset` leaves them. -/
def LogContext.zero : LogContext :=
  { oldMask := 0, mask := 0, logType := .syslog, flags := 0, oldHandler := none, logDomain := none }

/-- A message that is output. -/
inductive Output where
  /-- `syslog` passed it on. -/
  | syslog (priority : UInt32) (message : String)
  /-- It was handed to `g_log_default_handler`, or to another handler than `prv_handler`. -/
  | handler (level : UInt32) (message : String)
  deriving DecidableEq, Repr

/-- The mask of `syslog`. It is never empty, since `setlogmask(0)` changes nothing. -/
abbrev ProcessMask := { mask : UInt32 // mask ≠ 0 }

/-- The log context with what it uses of the process. -/
structure LogWorld where
  /-- `s_log_context`. -/
  context : LogContext
  processMask : ProcessMask
  /-- The default handler of GLib. -/
  defaultHandler : GLogFunc
  /-- What was output, latest message last. -/
  outputs : List Output

namespace LogWorld

/-- Append to the output. -/
def emit (w : LogWorld) (o : Output) : LogWorld := { w with outputs := w.outputs ++ [o] }

end LogWorld

/-! ## libc and GLib -/

/-- `setlogmask`. -/
def setlogmask (w : LogWorld) (mask : UInt32) : UInt32 × LogWorld :=
  (w.processMask, if h : mask ≠ 0 then { w with processMask := ⟨mask, h⟩ } else w)

/-- `vsyslog` and `syslog`. -/
def vsyslog (w : LogWorld) (priority : UInt32) (message : String) : LogWorld :=
  if hasFlag w.processMask (logMask priority) then w.emit (.syslog priority message) else w

/-- `g_log_default_handler`. -/
def gLogDefaultHandler (w : LogWorld) (level : UInt32) (message : String) : LogWorld :=
  w.emit (.handler level message)

/-- `prv_handler`, whose `data` is `s_log_context`. -/
def prvHandler (w : LogWorld) (logDomain : Option String) (level : UInt32) (message : String) :
    LogWorld :=
  if logDomain ≠ w.context.logDomain then w
  else if hasFlag w.context.flags level then gLogDefaultHandler w level message
  else w

/-- `g_logv`, for a single level. -/
def gLogv (w : LogWorld) (logDomain : Option String) (flags : UInt32) (message : String) : LogWorld :=
  let level := if hasFlag flags LogLevel.error.gFlag then flags ||| gLogFlagFatal else flags
  match w.defaultHandler with
  | .prvHandler => prvHandler w logDomain level message
  | .other _ => w.emit (.handler level message)

/-- `g_log_set_default_handler`. -/
def gLogSetDefaultHandler (w : LogWorld) (handler : GLogFunc) : GLogFunc × LogWorld :=
  (w.defaultHandler, { w with defaultHandler := handler })

/-! ## Functions of `log.c` -/

/-- `prv_get_mf`. -/
def prvGetMf (logLevel : UInt32) : UInt32 × UInt32 :=
  let r := LogLevel.all.foldl (fun r l =>
    if hasFlag logLevel l.flag then (r.1 ||| logMask l.priority, r.2 ||| l.gFlag) else r) (0, 0)
  if r.2 ≠ 0 then (r.1, r.2 ||| (gLogFlagRecursion ||| gLogFlagFatal)) else r

/-- `prv_set_flags_from_param`. -/
def prvSetFlagsFromParam (build : LogBuild) (w : LogWorld) : LogWorld :=
  let mf := prvGetMf build.level
  { w with context := { w.context with mask := mf.1, flags := mf.2, logType := dleynaLogType } }

/-- `dleyna_log_trace`, with the formatted message. -/
def dleynaLogTrace (w : LogWorld) (priority flags : UInt32) (message : String) : LogWorld :=
  match w.context.logType with
  | .syslog => if w.context.mask ≠ 0 then vsyslog w priority message else w
  | .glib => if w.context.flags ≠ 0 then gLogv w w.context.logDomain flags message else w
  | .file => w

/-- `DLEYNA_LOG_INFO`, which is empty when its level is not compiled in. -/
def dleynaLogInfo (build : LogBuild) (w : LogWorld) (message : String) : LogWorld :=
  if hasFlag build.level LogLevel.info.flag then
    dleynaLogTrace w LogLevel.info.priority LogLevel.info.gFlag message
  else w

/-- `%02X`. -/
def format02X (n : UInt32) : String :=
  let digits := (Nat.toDigits 16 n.toNat).map Char.toUpper
  String.ofList (if digits.length < 2 then '0' :: digits else digits)

/-- `dleyna_log_update_type_level`. -/
def dleynaLogUpdateTypeLevel (build : LogBuild) (w : LogWorld) (logType : LogType)
    (logLevel : UInt32) : LogWorld :=
  let mf := prvGetMf logLevel
  let compile := prvGetMf build.level
  let mask := mf.1 &&& compile.1
  let flags := mf.2 &&& compile.2
  let w1 := { w with context := { w.context with logType := logType, mask := mask, flags := flags } }
  let w2 := dleynaLogInfo build w1 ("Type[" ++ toString logType.value ++ "] Level[0x" ++
    format02X logLevel ++ "] Mask[0x" ++ format02X mask ++ "] Flags[0x" ++ format02X flags ++ "]")
  (setlogmask w2 mask).2

/-- `dleyna_log_init`. -/
def dleynaLogInit (build : LogBuild) (w : LogWorld) (program version : String) : LogWorld :=
  let w1 := { w with context := { LogContext.zero with logDomain := some program } }
  let w2 := prvSetFlagsFromParam build w1
  let (old, w3) := setlogmask w2 (logMask LogLevel.info.priority)
  let w4 := vsyslog w3 LogLevel.info.priority ("dLeyna core version " ++ build.version)
  let w5 := vsyslog w4 LogLevel.info.priority (program ++ " version " ++ version)
  let w6 := (setlogmask w5 w5.context.mask).2
  let (oldHandler, w7) := gLogSetDefaultHandler w6 .prvHandler
  let w8 := { w7 with context := { w7.context with oldMask := old, oldHandler := some oldHandler } }
  if w8.context.logType ≠ .syslog then
    dleynaLogInfo build
      (dleynaLogInfo build w8 ("dLeyna core version " ++ build.version))
      (program ++ " version " ++ version)
  else w8

/-- `dleyna_log_finalize`. -/
def dleynaLogFinalize (build : LogBuild) (w : LogWorld) : LogWorld :=
  let w1 := (setlogmask w (logMask LogLevel.info.priority)).2
  let w2 := vsyslog w1 LogLevel.info.priority "dLeyna: Exit"
  let w3 := if w2.context.logType ≠ .syslog then dleynaLogInfo build w2 "dLeyna: Exit" else w2
  let w4 := match w3.context.oldHandler with
    | some handler => (gLogSetDefaultHandler w3 handler).2
    | none => w3
  let w5 := (setlogmask w4 w4.context.oldMask).2
  { w5 with context := LogContext.zero }

end DleynaCore
