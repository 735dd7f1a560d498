import DleynaCore.Library.KeyFile
import DleynaCore.Library.Transition
import DleynaCore.Log.Log

/-!
# Settings

`settings.c`: the configuration of a server, which is read from a key file when the settings are
created, and written back to it by the setters. A setter gets a fresh `GError`, and whether its file is
written is the choice of the environment. GLib rejects a call whose key file, path or variant is
`NULL`: it does nothing, and the error stays `NULL`.
-/

namespace DleynaCore

/-- A key file in memory. -/
structure KeyFile (κ : Type) where
  data : κ
  /-- The separator of lists, `;` in a new file. -/
  listSeparator : Char
  deriving DecidableEq, Repr

/-- The path that `"%s/%s"` makes of a directory and a file name. -/
structure FilePath where
  dir : String
  file : String
  deriving DecidableEq, Repr

/-- The files with these contents `δ`, and the directories. A file that cannot be read has contents that
do not parse. -/
structure Disk (δ : Type) where
  files : FilePath → Option δ
  dirs : String → Bool

/-- Create the file, or replace it. -/
def Disk.write {δ : Type} (disk : Disk δ) (path : FilePath) (data : δ) : Disk δ :=
  { disk with files := fun p => if p = path then some data else disk.files p }

/-- What `g_file_set_contents` puts into its `GError`. -/
abbrev GError := String

/-- What the build defines. -/
structure SettingsBuild where
  /-- `SYS_CONFIG_DIR`. -/
  sysConfigDir : String
  /-- `DLEYNA_NEVER_QUIT`. -/
  neverQuit : Bool
  /-- `DLEYNA_CONNECTOR_NAME`. -/
  connectorName : String
  /-- `DLEYNA_LOG_LEVEL`. -/
  logLevel : UInt32

/-- `dleyna_settings_t`. -/
structure Settings (κ : Type) where
  keyfile : Option (KeyFile κ)
  fileName : String
  filePath : Option FilePath
  neverQuit : Bool
  connectorName : String
  port : UInt32
  pushHostPort : UInt32
  logType : LogType
  logLevel : UInt32
  netfEnabled : Bool
  /-- An array of strings. -/
  netfEntries : Option (List String)
  deriving DecidableEq, Repr

/-! ## Keys -/

/-- `DLEYNA_SETTINGS_GROUP_GENERAL`. -/
def groupGeneral : String := "general"

/-- `DLEYNA_SETTINGS_KEY_NEVER_QUIT`. -/
def keyNeverQuit : String := "never-quit"

/-- `DLEYNA_SETTINGS_KEY_CONNECTOR_NAME`. -/
def keyConnectorName : String := "connector-name"

/-- `DLEYNA_SETTINGS_KEY_PORT`. -/
def keyPort : String := "port"

/-- `DLEYNA_SETTINGS_KEY_PUSH_HOST_PORT`. -/
def keyPushHostPort : String := "push-host-port"

/-- `DLEYNA_SETTINGS_GROUP_LOG`. -/
def groupLog : String := "log"

/-- `DLEYNA_SETTINGS_KEY_LOG_TYPE`. -/
def keyLogType : String := "log-type"

/-- `DLEYNA_SETTINGS_KEY_LOG_LEVEL`. -/
def keyLogLevel : String := "log-level"

/-- `DLEYNA_SETTINGS_GROUP_NETF`. -/
def groupNetf : String := "netf"

/-- `DLEYNA_SETTINGS_KEY_NETF_ENABLED`. -/
def keyNetfEnabled : String := "netf-enabled"

/-- `DLEYNA_SETTINGS_KEY_NETF_LIST`. -/
def keyNetfList : String := "netf-list"

/-! ## Reading -/

/-- `prv_to_netf_entries`, for a list that is not `NULL`. -/
def prvToNetfEntries (list : List String) : Option (List String) :=
  if list = [] then none else some list

/-- `log_level_array`. -/
def logLevelArray : Fin 9 → UInt32
  | 0 => dleynaLogLevelDisabled
  | 1 => LogLevel.error.flag
  | 2 => LogLevel.critical.flag
  | 3 => LogLevel.warning.flag
  | 4 => LogLevel.message.flag
  | 5 => LogLevel.info.flag
  | 6 => LogLevel.debug.flag
  | 7 => dleynaLogLevelDefault
  | 8 => dleynaLogLevelAll

/-- The loop of `prv_to_log_level`. The index of the array is known to be in bounds. -/
def toLogLevelFrom (logLevelValue : UInt32) : List Int → UInt32
  | [] => logLevelValue
  | level :: intList =>
    if h : 0 < level ∧ level < 7 then
      toLogLevelFrom (logLevelValue ||| logLevelArray ⟨level.toNat, by omega⟩) intList
    else if h' : level = 0 ∨ level = 7 ∨ level = 8 then logLevelArray ⟨level.toNat, by omega⟩
    else toLogLevelFrom logLevelValue intList

/-- `prv_to_log_level`. -/
def prvToLogLevel (intList : List Int) : UInt32 := toLogLevelFrom 0 intList

/-- `prv_to_log_type`. -/
def prvToLogType (type : Int) : LogType :=
  if type = 0 then .syslog else if type = 1 then .glib else .syslog

/-- `if (error == NULL)` after a getter of the key file: the value is stored if it was read. -/
def Settings.store {κ α : Type} (settings : Settings κ) (value : Option α)
    (f : α → Settings κ → Settings κ) : Settings κ :=
  match value with
  | some a => f a settings
  | none => settings

section Functions

variable {κ δ : Type} (lib : KeyFileLib κ δ) (build : SettingsBuild)

/-- `prv_read_keys`, of the key file of the settings. -/
def prvReadKeys (settings : Settings κ) (keyfile : KeyFile κ) : Settings κ :=
  let s1 := settings.store (lib.getBoolean keyfile.data groupGeneral keyNeverQuit) fun b s =>
    { s with neverQuit := b }
  let s2 := s1.store (lib.getString keyfile.data groupGeneral keyConnectorName) fun v s =>
    { s with connectorName := v }
  let s3 := s2.store (lib.getUint64 keyfile.data groupGeneral keyPort) fun u s =>
    { s with port := u.toUInt32 }
  let s4 := s3.store (lib.getUint64 keyfile.data groupGeneral keyPushHostPort) fun u s =>
    { s with pushHostPort := u.toUInt32 }
  let s5 := s4.store (lib.getInteger keyfile.data groupLog keyLogType) fun n s =>
    { s with logType := prvToLogType n }
  -- `g_key_file_set_list_separator`
  let keyfile' := { keyfile with listSeparator := ',' }
  let s6 := s5.store (lib.getIntegerList keyfile'.listSeparator keyfile'.data groupLog keyLogLevel)
    fun l s => { s with logLevel := prvToLogLevel l }
  let s7 := s6.store (lib.getBoolean keyfile'.data groupNetf keyNetfEnabled) fun b s =>
    { s with netfEnabled := b }
  let s8 := s7.store (lib.getStringList keyfile'.listSeparator keyfile'.data groupNetf keyNetfList)
    fun l s => { s with netfEntries := prvToNetfEntries l }
  { s8 with keyfile := some keyfile' }

/-- `prv_init_default`. -/
def prvInitDefault (settings : Settings κ) : Settings κ :=
  { settings with
    neverQuit := build.neverQuit
    connectorName := build.connectorName
    port := 0
    pushHostPort := 0
    logType := dleynaLogType
    logLevel := build.logLevel
    netfEnabled := false
    netfEntries := none }

/-- `prv_load_keyfile`. -/
def prvLoadKeyfile (disk : Disk δ) (filepath : Option FilePath) : Option (KeyFile κ) :=
  ((filepath.bind disk.files).bind lib.loadFromData).map fun kf =>
    { data := kf, listSeparator := ';' }

/-- `prv_keyfile_init`, but for the call of `dleyna_log_update_type_level` with what was read. -/
def prvKeyfileInit (disk : Disk δ) (settings : Settings κ) (sysPath locPath : Option FilePath) :
    Settings κ :=
  let loc := prvLoadKeyfile lib disk locPath
  let path := if loc.isSome then locPath else sysPath
  let keyfile := if loc.isSome then loc else prvLoadKeyfile lib disk sysPath
  match keyfile with
  | some kf => { prvReadKeys lib { settings with keyfile := some kf } kf with filePath := path }
  | none => { settings with keyfile := none }

/-- What `dleyna_settings_new` finds, and what it succeeds in doing. -/
structure SettingsHost (δ : Type) where
  disk : Disk δ
  /-- `g_get_user_config_dir`. -/
  userConfigDir : Option String
  /-- `g_file_make_directory` succeeds. -/
  makeDirectory : Bool
  /-- `g_file_copy` succeeds, if there is a file to copy. -/
  copy : Bool

/-- `prv_get_keyfile_path`: the system path and the local path. -/
def prvGetKeyfilePath (userConfigDir : Option String) (file : String) :
    Option FilePath × Option FilePath :=
  (if build.sysConfigDir ≠ "" then some ⟨build.sysConfigDir, file⟩ else none,
    match userConfigDir with
    | some locDir => if locDir ≠ "" then some ⟨locDir, file⟩ else none
    | none => none)

/-- `prv_check_local_keyfile`. -/
def prvCheckLocalKeyfile (host : SettingsHost δ) (sysPath : Option FilePath) (locPath : FilePath) :
    Disk δ :=
  match host.disk.files locPath, sysPath with
  | some _, _ | _, none => host.disk
  | none, some sysPath =>
    if !host.disk.dirs locPath.dir && !host.makeDirectory then host.disk
    else
      let disk := { host.disk with dirs := fun d => d = locPath.dir || host.disk.dirs d }
      match disk.files sysPath with
      | some data => if host.copy then disk.write locPath data else disk
      | none => disk

/-- `strrchr(server, '/')`, and what follows it. -/
def serverName (server : String) : String :=
  String.ofList (server.toList.reverse.takeWhile (· ≠ '/')).reverse

/-- The settings as `g_malloc0` leaves them. -/
def Settings.zero : Settings κ :=
  { keyfile := none, fileName := "", filePath := none, neverQuit := false, connectorName := "",
    port := 0, pushHostPort := 0, logType := .syslog, logLevel := 0, netfEnabled := false,
    netfEntries := none }

/-- `dleyna_settings_new`, with what it leaves on the disk. -/
def dleynaSettingsNew (host : SettingsHost δ) (server : String) : Settings κ × Disk δ :=
  let settings := prvInitDefault build
    { (Settings.zero : Settings κ) with fileName := serverName server ++ ".conf" }
  let (sysPath, locPath) := prvGetKeyfilePath build host.userConfigDir settings.fileName
  let disk := match locPath with
    | some path => prvCheckLocalKeyfile host sysPath path
    | none => host.disk
  (if sysPath.isSome || locPath.isSome then prvKeyfileInit lib disk settings sysPath locPath
    else settings, disk)

end Functions

/-! ## Getters -/

/-- `dleyna_settings_port`. -/
def dleynaSettingsPort {κ : Type} (settings : Settings κ) : UInt32 := settings.port

/-- `dleyna_settings_push_host_port`. -/
def dleynaSettingsPushHostPort {κ : Type} (settings : Settings κ) : UInt32 := settings.pushHostPort

/-- `dleyna_settings_white_list_entries`. -/
def dleynaSettingsWhiteListEntries {κ : Type} (settings : Settings κ) : Option (List String) :=
  settings.netfEntries

/-! ## Writing -/

/-- The GLib functions that reject `NULL`, each for the argument that may be `NULL`. -/
inductive Critical where
  | gKeyFileSetBoolean
  | gKeyFileSetStringList
  | gKeyFileToData
  | gFileSetContents
  | gVariantUnref
  deriving DecidableEq, Repr

/-- Settings with the disk. -/
structure SettingsWorld (κ δ : Type) where
  settings : Settings κ
  disk : Disk δ
  /-- The calls that GLib has rejected, latest last. -/
  criticals : List Critical

section Setters

variable {κ δ : Type} (lib : KeyFileLib κ δ)

namespace SettingsWorld

/-- GLib rejects a call. -/
def critical (w : SettingsWorld κ δ) (c : Critical) : SettingsWorld κ δ :=
  { w with criticals := w.criticals ++ [c] }

/-- Change the settings. -/
def set (w : SettingsWorld κ δ) (f : Settings κ → Settings κ) : SettingsWorld κ δ :=
  { w with settings := f w.settings }

end SettingsWorld

/-- `g_key_file_set_boolean` on the key file of the settings. -/
def gKeyFileSetBoolean (w : SettingsWorld κ δ) (group key : String) (value : Bool) :
    SettingsWorld κ δ :=
  match w.settings.keyfile with
  | none => w.critical .gKeyFileSetBoolean
  | some kf =>
    let data := lib.setBoolean kf.data group key value
    w.set fun s => { s with keyfile := some { kf with data := data } }

/-- `g_key_file_set_string_list` on the key file of the settings. -/
def gKeyFileSetStringList (w : SettingsWorld κ δ) (group key : String) (list : List String) :
    SettingsWorld κ δ :=
  match w.settings.keyfile with
  | none => w.critical .gKeyFileSetStringList
  | some kf =>
    let data := lib.setStringList kf.listSeparator kf.data group key list
    w.set fun s => { s with keyfile := some { kf with data := data } }

/-- `g_key_file_to_data` of the key file of the settings. -/
def gKeyFileToData (w : SettingsWorld κ δ) : Option δ × SettingsWorld κ δ :=
  match w.settings.keyfile with
  | none => (none, w.critical .gKeyFileToData)
  | some kf => (some (lib.toData kf.data), w)

/-- `g_file_set_contents`. The file is replaced as a whole, or with the error `fault` not at all. -/
def gFileSetContents (w : SettingsWorld κ δ) (path : Option FilePath) (data : Option δ)
    (fault : Option GError) : Option GError × SettingsWorld κ δ :=
  match path, data, fault with
  | some path, some data, none => (none, { w with disk := w.disk.write path data })
  | some _, some _, some error => (some error, w)
  | _, _, _ => (none, w.critical .gFileSetContents)

/-- `g_variant_unref`, of the entries. -/
def gVariantUnref (w : SettingsWorld κ δ) : SettingsWorld κ δ :=
  if w.settings.netfEntries = none then w.critical .gVariantUnref else w

/-- `prv_save_settings_to_file`. -/
def prvSaveSettingsToFile (w : SettingsWorld κ δ) (fault : Option GError) :
    Option GError × SettingsWorld κ δ :=
  let (data, w1) := gKeyFileToData lib w
  gFileSetContents w1 w1.settings.filePath data fault

/-- `dleyna_settings_set_never_quit`, with the error it reports. -/
def dleynaSettingsSetNeverQuit (w : SettingsWorld κ δ) (neverQuit : Bool) (fault : Option GError) :
    Option GError × SettingsWorld κ δ :=
  let w1 := gKeyFileSetBoolean lib w groupGeneral keyNeverQuit neverQuit
  let (error, w2) := prvSaveSettingsToFile lib w1 fault
  (error, if error = none then w2.set fun s => { s with neverQuit := neverQuit } else w2)

/-- `dleyna_settings_set_white_list_enabled`, with the error it reports. -/
def dleynaSettingsSetWhiteListEnabled (w : SettingsWorld κ δ) (enabled : Bool)
    (fault : Option GError) : Option GError × SettingsWorld κ δ :=
  let w1 := gKeyFileSetBoolean lib w groupNetf keyNetfEnabled enabled
  let (error, w2) := prvSaveSettingsToFile lib w1 fault
  (error, if error = none then w2.set fun s => { s with netfEnabled := enabled } else w2)

/-- `prv_filter_null_str`. -/
def prvFilterNullStr (strv : List String) : List String := strv.filter (· ≠ "")

/-- `dleyna_settings_set_white_list_entries`, with the error it reports. -/
def dleynaSettingsSetWhiteListEntries (w : SettingsWorld κ δ) (entries : List String)
    (fault : Option GError) : Option GError × SettingsWorld κ δ :=
  let w1 := gKeyFileSetStringList lib w groupNetf keyNetfList (prvFilterNullStr entries)
  let (error, w2) := prvSaveSettingsToFile lib w1 fault
  (error, if error = none then
    (gVariantUnref w2).set fun s => { s with netfEntries := some entries } else w2)

/-! ## Runs of setter calls -/

/-- A setter. -/
inductive Setter where
  | neverQuit (neverQuit : Bool)
  | whiteListEnabled (enabled : Bool)
  | whiteListEntries (entries : List String)
  deriving DecidableEq, Repr

/-- A call of a setter, in which the file is written, or writing it fails with `fault`. -/
structure SetterCall where
  setter : Setter
  fault : Option GError
  deriving DecidableEq, Repr

/-- The call, with the error it reports. -/
def SetterCall.perform (call : SetterCall) (w : SettingsWorld κ δ) :
    Option GError × SettingsWorld κ δ :=
  match call.setter with
  | .neverQuit b => dleynaSettingsSetNeverQuit lib w b call.fault
  | .whiteListEnabled b => dleynaSettingsSetWhiteListEnabled lib w b call.fault
  | .whiteListEntries l => dleynaSettingsSetWhiteListEntries lib w l call.fault

/-- Calls of setters on settings that `dleyna_settings_new` has made. -/
def setters (build : SettingsBuild) (host : SettingsHost δ) (server : String) :
    System (SettingsWorld κ δ) SetterCall Empty where
  init :=
    { settings := (dleynaSettingsNew lib build host server).1
      disk := (dleynaSettingsNew lib build host server).2
      criticals := [] }
  guard _ _ := True
  step w call := .ok (call.perform lib w).2

end Setters

end DleynaCore
