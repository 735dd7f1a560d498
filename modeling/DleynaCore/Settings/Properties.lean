import DleynaCore.Settings.Settings

/-!
# What the settings should guarantee

A file is read key by key. A setter saves its value or leaves everything as it is, and it succeeds only
when the value is on the disk.
-/

namespace DleynaCore

variable {κ δ : Type} (lib : KeyFileLib κ δ) (build : SettingsBuild)

/-! ## Reading a file -/

/-- The number in the file for the port with this key, or the default. -/
def portNumber (kf : κ) (key : String) : Nat :=
  (lib.getUint64 kf groupGeneral key).elim 0 UInt64.toNat

/-- Every setting has the value that its own key denotes, and the default without one. -/
structure ReadsFaithfully (kf : κ) (s : Settings κ) : Prop where
  neverQuit : s.neverQuit = (lib.getBoolean kf groupGeneral keyNeverQuit).getD build.neverQuit
  connectorName :
    s.connectorName = (lib.getString kf groupGeneral keyConnectorName).getD build.connectorName
  port : (dleynaSettingsPort s).toNat = portNumber lib kf keyPort
  pushHostPort : (dleynaSettingsPushHostPort s).toNat = portNumber lib kf keyPushHostPort
  logType : s.logType = (lib.getInteger kf groupLog keyLogType).elim dleynaLogType prvToLogType
  logLevel : s.logLevel = (lib.getIntegerList ',' kf groupLog keyLogLevel).elim build.logLevel prvToLogLevel
  netfEnabled : s.netfEnabled = (lib.getBoolean kf groupNetf keyNetfEnabled).getD false
  netfEntries : s.netfEntries = (lib.getStringList ',' kf groupNetf keyNetfList).bind prvToNetfEntries

/-- The key does not give the port a number of more than 32 bits. -/
def PortFits (kf : κ) (key : String) : Prop :=
  ∀ n, lib.getUint64 kf groupGeneral key = some n → n.toNat < 2 ^ 32

/-! ## The setters -/

/-- What the setter writes into the key file. -/
def Setter.write (kf : KeyFile κ) : Setter → KeyFile κ
  | .neverQuit b => { kf with data := lib.setBoolean kf.data groupGeneral keyNeverQuit b }
  | .whiteListEnabled b => { kf with data := lib.setBoolean kf.data groupNetf keyNetfEnabled b }
  | .whiteListEntries l =>
    let list := prvFilterNullStr l
    { kf with data := lib.setStringList kf.listSeparator kf.data groupNetf keyNetfList list }

/-- What the setter stores in the settings. -/
def Setter.store (s : Settings κ) : Setter → Settings κ
  | .neverQuit b => { s with neverQuit := b }
  | .whiteListEnabled b => { s with netfEnabled := b }
  | .whiteListEntries l => { s with netfEntries := some l }

/-! ## Failed saves -/

/-- The settings that a restart would read from the file. -/
def reread (w : SettingsWorld κ δ) : Option (Settings κ) :=
  (prvLoadKeyfile lib w.disk w.settings.filePath).map
    (prvReadKeys lib (prvInitDefault build w.settings))

/-- What a call of a setter should have done, with the error and the state it returns: with an error,
the values of the getters and the key file are those from before; without one, the two flags in the
file are those of the getters. -/
structure SavesOrKeeps (w : SettingsWorld κ δ) (r : Option GError × SettingsWorld κ δ) : Prop where
  kept : r.1 ≠ none → r.2.settings.neverQuit = w.settings.neverQuit ∧
    r.2.settings.netfEnabled = w.settings.netfEnabled ∧
    r.2.settings.netfEntries = w.settings.netfEntries ∧ r.2.settings.keyfile = w.settings.keyfile
  saved : r.1 = none → ∃ s, reread lib build r.2 = some s ∧
    s.neverQuit = r.2.settings.neverQuit ∧ s.netfEnabled = r.2.settings.netfEnabled

/-- The key of the setter has the value in the key file, in the text that the setter writes. -/
def Setter.Holds (kf : KeyFile κ) : Setter → Prop
  | .neverQuit b => lib.hasBoolean kf.data groupGeneral keyNeverQuit b = true
  | .whiteListEnabled b => lib.hasBoolean kf.data groupNetf keyNetfEnabled b = true
  | .whiteListEntries l =>
    lib.hasStringList kf.listSeparator kf.data groupNetf keyNetfList (prvFilterNullStr l) = true

/-- A call whose file is not written sets a value that the key file holds already. -/
def HoldsIfFailing (w : SettingsWorld κ δ) (call : SetterCall) : Prop :=
  call.fault ≠ none → ∀ kf, w.settings.keyfile = some kf → call.setter.Holds lib kf

/-- The key file after the calls that succeed. -/
def savedKeyFile (kf : KeyFile κ) (calls : List SetterCall) : KeyFile κ :=
  (calls.filter fun call => call.fault = none).foldl (fun kf call => call.setter.write lib kf) kf

/-- The key file in memory and the file on the disk hold the values of the calls that succeeded, and of
no others. -/
structure HoldsSaved (w0 : SettingsWorld κ δ) (calls : List SetterCall) (w : SettingsWorld κ δ) :
    Prop where
  memory : w.settings.keyfile = w0.settings.keyfile.map fun kf => savedKeyFile lib kf calls
  path : w.settings.filePath = w0.settings.filePath
  file : (∃ call ∈ calls, call.fault = none) →
    w.settings.filePath.bind w.disk.files = w.settings.keyfile.map fun kf => lib.toData kf.data

/-! ## Saves that succeed -/

/-- The key of the setter is read with the value that was set; of a list, the empty strings are left
out. -/
def Setter.ReadBack (kf : κ) : Setter → Prop
  | .neverQuit b => lib.getBoolean kf groupGeneral keyNeverQuit = some b
  | .whiteListEnabled b => lib.getBoolean kf groupNetf keyNetfEnabled = some b
  | .whiteListEntries l => lib.getStringList ',' kf groupNetf keyNetfList = some (prvFilterNullStr l)

/-- What a call of a setter should have done, with the error and the state it returns: without an error
the file was written and holds the new value; and GLib has rejected no call. -/
structure ReachesDisk (w : SettingsWorld κ δ) (setter : Setter)
    (r : Option GError × SettingsWorld κ δ) : Prop where
  written : r.1 = none → ∃ path data kf, r.2.settings.filePath = some path ∧
    r.2.disk = w.disk.write path data ∧ lib.loadFromData data = some kf ∧ setter.ReadBack lib kf
  accepted : r.2.criticals = w.criticals

/-- A file was loaded, and the entries are not replaced while there are none. -/
def Accepts (w : SettingsWorld κ δ) (call : SetterCall) : Prop :=
  w.settings.keyfile ≠ none ∧
    (call.fault = none → ∀ l, call.setter = .whiteListEntries l → w.settings.netfEntries ≠ none)

end DleynaCore
