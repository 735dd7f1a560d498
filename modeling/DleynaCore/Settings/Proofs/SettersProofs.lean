import DleynaCore.Settings.Properties

/-!
# What the setters do

With a loaded file a setter changes the key file in memory, and then its own value if the file is
written; without one GLib rejects every call that it makes.
-/

namespace DleynaCore

variable {κ δ : Type} {lib : KeyFileLib κ δ} {build : SettingsBuild} {host : SettingsHost δ}
  {server : String} {w w' : SettingsWorld κ δ} {call : SetterCall} {calls : List SetterCall}
  {kf : KeyFile κ} {path : FilePath}

/-! ## Reading -/

/-- Every value is read from its own key, or stays as it is. -/
theorem prvReadKeys_eq (s : Settings κ) (kf : KeyFile κ) :
    prvReadKeys lib s kf =
      { keyfile := some { kf with listSeparator := ',' }
        fileName := s.fileName
        filePath := s.filePath
        neverQuit := (lib.getBoolean kf.data groupGeneral keyNeverQuit).getD s.neverQuit
        connectorName := (lib.getString kf.data groupGeneral keyConnectorName).getD s.connectorName
        port := (lib.getUint64 kf.data groupGeneral keyPort).elim s.port UInt64.toUInt32
        pushHostPort :=
          (lib.getUint64 kf.data groupGeneral keyPushHostPort).elim s.pushHostPort UInt64.toUInt32
        logType := (lib.getInteger kf.data groupLog keyLogType).elim s.logType prvToLogType
        logLevel := (lib.getIntegerList ',' kf.data groupLog keyLogLevel).elim s.logLevel prvToLogLevel
        netfEnabled := (lib.getBoolean kf.data groupNetf keyNetfEnabled).getD s.netfEnabled
        netfEntries :=
          (lib.getStringList ',' kf.data groupNetf keyNetfList).elim s.netfEntries prvToNetfEntries } := by
  have neverQuit : ∀ (s : Settings κ) v, s.store v (fun b s => { s with neverQuit := b }) =
      { s with neverQuit := v.getD s.neverQuit } := fun s v => by cases v <;> rfl
  have connectorName : ∀ (s : Settings κ) v, s.store v (fun n s => { s with connectorName := n }) =
      { s with connectorName := v.getD s.connectorName } := fun s v => by cases v <;> rfl
  have port : ∀ (s : Settings κ) v, s.store v (fun u s => { s with port := UInt64.toUInt32 u }) =
      { s with port := v.elim s.port UInt64.toUInt32 } := fun s v => by cases v <;> rfl
  have pushHostPort : ∀ (s : Settings κ) v,
      s.store v (fun u s => { s with pushHostPort := UInt64.toUInt32 u }) =
        { s with pushHostPort := v.elim s.pushHostPort UInt64.toUInt32 } := fun s v => by
    cases v <;> rfl
  have logType : ∀ (s : Settings κ) v, s.store v (fun n s => { s with logType := prvToLogType n }) =
      { s with logType := v.elim s.logType prvToLogType } := fun s v => by cases v <;> rfl
  have logLevel : ∀ (s : Settings κ) v, s.store v (fun l s => { s with logLevel := prvToLogLevel l }) =
      { s with logLevel := v.elim s.logLevel prvToLogLevel } := fun s v => by cases v <;> rfl
  have netfEnabled : ∀ (s : Settings κ) v, s.store v (fun b s => { s with netfEnabled := b }) =
      { s with netfEnabled := v.getD s.netfEnabled } := fun s v => by cases v <;> rfl
  have netfEntries : ∀ (s : Settings κ) v,
      s.store v (fun l s => { s with netfEntries := prvToNetfEntries l }) =
        { s with netfEntries := v.elim s.netfEntries prvToNetfEntries } := fun s v => by
    cases v <;> rfl
  simp only [prvReadKeys, neverQuit, connectorName, port, pushHostPort, logType, logLevel,
    netfEnabled, netfEntries]

/-- A key file is loaded from a path. -/
theorem path_of_load {disk : Disk δ} {p : Option FilePath}
    (h : prvLoadKeyfile lib disk p = some kf) : ∃ path, p = some path := by
  cases p with
  | none => simp [prvLoadKeyfile] at h
  | some path => exact ⟨path, rfl⟩

/-- The settings have the values of a file whose path they keep. -/
def Loads (lib : KeyFileLib κ δ) (build : SettingsBuild) (s : Settings κ) : Prop :=
  ∃ s0 kf path, s = { prvReadKeys lib (prvInitDefault build s0) kf with filePath := some path }

theorem loads_prvKeyfileInit (lib : KeyFileLib κ δ) (build : SettingsBuild) (disk : Disk δ)
    (s : Settings κ) (sysPath locPath : Option FilePath) :
    prvKeyfileInit lib disk (prvInitDefault build s) sysPath locPath =
      { prvInitDefault build s with keyfile := none } ∨
    Loads lib build (prvKeyfileInit lib disk (prvInitDefault build s) sysPath locPath) := by
  cases hloc : prvLoadKeyfile lib disk locPath with
  | some kf =>
    obtain ⟨path, rfl⟩ := path_of_load hloc
    refine Or.inr ⟨{ s with keyfile := some kf }, kf, path, ?_⟩
    simp [prvKeyfileInit, hloc, prvInitDefault]
  | none =>
    cases hsys : prvLoadKeyfile lib disk sysPath with
    | some kf =>
      obtain ⟨path, rfl⟩ := path_of_load hsys
      refine Or.inr ⟨{ s with keyfile := some kf }, kf, path, ?_⟩
      simp [prvKeyfileInit, hloc, hsys, prvInitDefault]
    | none => exact Or.inl (by simp [prvKeyfileInit, hloc, hsys])

/-- New settings have loaded a file, or have neither a key file nor a path. -/
theorem loads_dleynaSettingsNew (lib : KeyFileLib κ δ) (build : SettingsBuild)
    (host : SettingsHost δ) (server : String) :
    ((dleynaSettingsNew lib build host server).1.keyfile = none ∧
      (dleynaSettingsNew lib build host server).1.filePath = none) ∨
    Loads lib build (dleynaSettingsNew lib build host server).1 := by
  simp only [dleynaSettingsNew]
  split
  · rcases loads_prvKeyfileInit lib build _ _ _ _ with h | h
    · exact Or.inl (by rw [h]; exact ⟨rfl, rfl⟩)
    · exact Or.inr h
  · exact Or.inl ⟨rfl, rfl⟩

/-- What a restart reads from a file that was written, which has the values of the key file. -/
theorem reread_written (build : SettingsBuild) {data : κ} (hpath : w.settings.filePath = some path)
    (hfile : w.disk.files path = some (lib.toData data)) :
    ∃ data', reread lib build w =
        some (prvReadKeys lib (prvInitDefault build w.settings) { data := data', listSeparator := ';' }) ∧
      ∀ group key, lib.Agree data' data group key := by
  obtain ⟨data', hload, hagree⟩ := lib.load_toData data
  refine ⟨data', ?_, hagree⟩
  simp [reread, prvLoadKeyfile, hpath, hfile, hload]

/-! ## Setters -/

namespace SettingsWorld

@[simp] theorem critical_settings (w : SettingsWorld κ δ) (c : Critical) :
    (w.critical c).settings = w.settings := rfl

@[simp] theorem critical_disk (w : SettingsWorld κ δ) (c : Critical) :
    (w.critical c).disk = w.disk := rfl

@[simp] theorem critical_criticals (w : SettingsWorld κ δ) (c : Critical) :
    (w.critical c).criticals = w.criticals ++ [c] := rfl

@[simp] theorem set_settings (w : SettingsWorld κ δ) (f : Settings κ → Settings κ) :
    (w.set f).settings = f w.settings := rfl

@[simp] theorem set_disk (w : SettingsWorld κ δ) (f : Settings κ → Settings κ) :
    (w.set f).disk = w.disk := rfl

@[simp] theorem set_criticals (w : SettingsWorld κ δ) (f : Settings κ → Settings κ) :
    (w.set f).criticals = w.criticals := rfl

end SettingsWorld

@[simp] theorem store_keyfile (setter : Setter) (s : Settings κ) :
    (setter.store s).keyfile = s.keyfile := by
  cases setter <;> rfl

@[simp] theorem store_filePath (setter : Setter) (s : Settings κ) :
    (setter.store s).filePath = s.filePath := by
  cases setter <;> rfl

/-- The new value in the key file of the settings. -/
theorem gKeyFileSetBoolean_eq (hkf : w.settings.keyfile = some kf) (group key : String) (b : Bool) :
    gKeyFileSetBoolean lib w group key b =
      w.set fun s =>
        { s with keyfile := some { kf with data := lib.setBoolean kf.data group key b } } := by
  simp [gKeyFileSetBoolean, hkf]

theorem gKeyFileSetStringList_eq (hkf : w.settings.keyfile = some kf) (group key : String)
    (list : List String) :
    gKeyFileSetStringList lib w group key list =
      w.set fun s =>
        { s with
          keyfile := some
            { kf with data := lib.setStringList kf.listSeparator kf.data group key list } } := by
  simp [gKeyFileSetStringList, hkf]

/-- The changed key file is written to its path, or the error is reported. -/
theorem prvSaveSettingsToFile_set (hpath : w.settings.filePath = some path) (kf : KeyFile κ)
    (fault : Option GError) :
    prvSaveSettingsToFile lib (w.set fun s => { s with keyfile := some kf }) fault =
      (fault, match fault with
        | none =>
          { settings := { w.settings with keyfile := some kf }
            disk := w.disk.write path (lib.toData kf.data)
            criticals := w.criticals }
        | some _ => w.set fun s => { s with keyfile := some kf }) := by
  cases fault <;>
    simp [prvSaveSettingsToFile, gKeyFileToData, gFileSetContents, SettingsWorld.set, hpath]

/-- A setter whose file is not written leaves its value in the key file. -/
theorem perform_failed {error : GError} (hkf : w.settings.keyfile = some kf)
    (hpath : w.settings.filePath = some path) (hf : call.fault = some error) :
    call.perform lib w =
      (some error, w.set fun s => { s with keyfile := some (call.setter.write lib kf) }) := by
  cases hset : call.setter <;>
    simp [SetterCall.perform, hset, dleynaSettingsSetNeverQuit, dleynaSettingsSetWhiteListEnabled,
      dleynaSettingsSetWhiteListEntries, gKeyFileSetBoolean_eq hkf, gKeyFileSetStringList_eq hkf,
      prvSaveSettingsToFile_set hpath, hf, Setter.write]

/-- A setter whose file is written keeps the value as its own too; to replace the entries it releases
those there are. -/
theorem perform_saved (lib : KeyFileLib κ δ) (hkf : w.settings.keyfile = some kf)
    (hpath : w.settings.filePath = some path) (hf : call.fault = none) :
    ∃ criticals, call.perform lib w =
      (none,
        { settings := call.setter.store { w.settings with keyfile := some (call.setter.write lib kf) }
          disk := w.disk.write path (lib.toData (call.setter.write lib kf).data)
          criticals := criticals }) ∧
      (criticals = w.criticals ↔
        ∀ l, call.setter = .whiteListEntries l → w.settings.netfEntries ≠ none) := by
  cases hset : call.setter with
  | neverQuit b =>
    refine ⟨w.criticals, ?_, by simp⟩
    simp only [SetterCall.perform, hset, dleynaSettingsSetNeverQuit, gKeyFileSetBoolean_eq hkf,
      prvSaveSettingsToFile_set hpath, hf]
    rfl
  | whiteListEnabled b =>
    refine ⟨w.criticals, ?_, by simp⟩
    simp only [SetterCall.perform, hset, dleynaSettingsSetWhiteListEnabled, gKeyFileSetBoolean_eq hkf,
      prvSaveSettingsToFile_set hpath, hf]
    rfl
  | whiteListEntries l =>
    simp only [SetterCall.perform, hset, dleynaSettingsSetWhiteListEntries,
      gKeyFileSetStringList_eq hkf, prvSaveSettingsToFile_set hpath, hf]
    by_cases hn : w.settings.netfEntries = none
    · refine ⟨w.criticals ++ [.gVariantUnref], ?_, by simp [hn]⟩
      simp [gVariantUnref, hn, Setter.write, Setter.store, SettingsWorld.set, SettingsWorld.critical]
    · refine ⟨w.criticals, ?_, by simp [hn]⟩
      simp [gVariantUnref, hn, Setter.write, Setter.store, SettingsWorld.set]

/-- Without a file no setter does anything, and each reports success. -/
theorem perform_unloaded (lib : KeyFileLib κ δ) (call : SetterCall)
    (hkf : w.settings.keyfile = none) (hpath : w.settings.filePath = none) :
    (call.perform lib w).1 = none ∧ (call.perform lib w).2.disk = w.disk ∧
      (call.perform lib w).2.settings = call.setter.store w.settings ∧
      (call.perform lib w).2.criticals ≠ w.criticals := by
  have hsave : ∀ (c : Critical) fault, prvSaveSettingsToFile lib (w.critical c) fault =
      (none, ((w.critical c).critical .gKeyFileToData).critical .gFileSetContents) := fun c fault => by
    simp [prvSaveSettingsToFile, gKeyFileToData, gFileSetContents, hkf, hpath]
  obtain ⟨setter, fault⟩ := call
  cases setter with
  | neverQuit b =>
    simp [SetterCall.perform, dleynaSettingsSetNeverQuit, gKeyFileSetBoolean, hkf, hsave, Setter.store]
  | whiteListEnabled b =>
    simp [SetterCall.perform, dleynaSettingsSetWhiteListEnabled, gKeyFileSetBoolean, hkf, hsave,
      Setter.store]
  | whiteListEntries l =>
    by_cases hn : w.settings.netfEntries = none <;>
      simp [SetterCall.perform, dleynaSettingsSetWhiteListEntries, gKeyFileSetStringList, hkf, hsave,
        Setter.store, gVariantUnref, hn]

/-! ## A server -/

/-- What a server is built with. -/
def sampleBuild : SettingsBuild :=
  { sysConfigDir := "", neverQuit := true, connectorName := "dbus",
    logLevel := dleynaLogLevelDefault }

/-- A user with an empty configuration file. -/
def sampleHost : SettingsHost FileValues where
  disk := { files := fun p => if p.dir = "/home" then some [] else none, dirs := fun _ => true }
  userConfigDir := some "/home"
  makeDirectory := true
  copy := true

end DleynaCore
