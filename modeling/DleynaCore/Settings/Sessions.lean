import DleynaCore.Library.WriteBack
import DleynaCore.Settings.Properties

/-!
# Sessions

A server is started again and again, and each time it makes new settings from what it finds on the
disk. No one else writes its files. For the values of the settings the disk is a write-back store:
`Remembered` says what the server shows, and what it will have after a restart.
-/

namespace DleynaCore

variable {κ δ : Type} (lib : KeyFileLib κ δ) (build : SettingsBuild) (host : SettingsHost δ)
  (server : String)

/-- A call of a setter; or the settings are deleted and new ones are made, where a directory and a
copy of the file can be made or not. -/
inductive SessionOp where
  | call (call : SetterCall)
  | restart (makeDirectory copy : Bool)
  deriving DecidableEq, Repr

/-- The next session, on the disk of this one. -/
def SettingsWorld.restart (w : SettingsWorld κ δ) (makeDirectory copy : Bool) : SettingsWorld κ δ :=
  let host := { host with disk := w.disk, makeDirectory := makeDirectory, copy := copy }
  (setters lib build host server).init

/-- A server that is started again and again. -/
def sessions : System (SettingsWorld κ δ) SessionOp Empty where
  init := (setters lib build host server).init
  guard _ _ := True
  step w
    | .call call => .ok (call.perform lib w).2
    | .restart makeDirectory copy => .ok (w.restart lib build host server makeDirectory copy)

/-! ## The values of the settings -/

/-- What the getters show. -/
structure SettingsValues where
  neverQuit : Bool
  connectorName : String
  port : UInt32
  pushHostPort : UInt32
  logType : LogType
  logLevel : UInt32
  netfEnabled : Bool
  netfEntries : Option (List String)
  deriving DecidableEq, Repr

def Settings.values (s : Settings κ) : SettingsValues where
  neverQuit := s.neverQuit
  connectorName := s.connectorName
  port := s.port
  pushHostPort := s.pushHostPort
  logType := s.logType
  logLevel := s.logLevel
  netfEnabled := s.netfEnabled
  netfEntries := s.netfEntries

/-- What is shown after the setter has saved its value. -/
def Setter.show (v : SettingsValues) : Setter → SettingsValues
  | .neverQuit b => { v with neverQuit := b }
  | .whiteListEnabled b => { v with netfEnabled := b }
  | .whiteListEntries l => { v with netfEntries := some l }

/-- What a restart makes of the value that the setter has written. -/
def Setter.restore (v : SettingsValues) : Setter → SettingsValues
  | .neverQuit b => { v with neverQuit := b }
  | .whiteListEnabled b => { v with netfEnabled := b }
  | .whiteListEntries l => { v with netfEntries := prvToNetfEntries (prvFilterNullStr l) }

/-! ## What is remembered -/

/-- The values that are shown, and the setters whose values are on the disk or in the key file. -/
structure Remembered where
  shown : SettingsValues
  store : WriteBack Setter
  deriving DecidableEq, Repr

/-- The values after a restart, if `v` were those of the file at first. -/
def Remembered.restored (v : SettingsValues) (r : Remembered) : SettingsValues :=
  r.store.written.foldl Setter.restore v

/-- An operation on the store of the setters. -/
def SessionOp.onStore : SessionOp → WriteBackOp Setter
  | .call c => .put c.setter (c.fault = none)
  | .restart _ _ => .reload

def Remembered.next (v : SettingsValues) (r : Remembered) (op : SessionOp) : Remembered where
  shown :=
    match op with
    | .call c => if c.fault = none then c.setter.show r.shown else r.shown
    | .restart _ _ => r.restored v
  store := r.store.next op.onStore

/-- What is remembered after the operations. -/
def remembered (v : SettingsValues) (ops : List SessionOp) : Remembered :=
  ops.foldl (Remembered.next v) ⟨v, .empty⟩

/-- The getters show the values of the calls that succeeded, and any restart those that were written:
the disk is a write-back store. A call succeeds exactly if its file is written. -/
structure WritesBack (ops : List SessionOp) (w : SettingsWorld κ δ) : Prop where
  shown : w.settings.values =
    (remembered (sessions lib build host server).init.settings.values ops).shown
  restored : ∀ makeDirectory copy,
    (w.restart lib build host server makeDirectory copy).settings.keyfile ≠ none ∧
    (w.restart lib build host server makeDirectory copy).settings.values =
      (remembered (sessions lib build host server).init.settings.values ops).restored
        (sessions lib build host server).init.settings.values
  reported : ∀ call : SetterCall, (call.perform lib w).1 = call.fault

/-! ## Saved values -/

/-- The two setters write the same key. -/
def Setter.sameKey : Setter → Setter → Bool
  | .neverQuit _, .neverQuit _ => true
  | .whiteListEnabled _, .whiteListEnabled _ => true
  | .whiteListEntries _, .whiteListEntries _ => true
  | _, _ => false

/-- The values have the one of the setter. -/
def Setter.Restored (v : SettingsValues) : Setter → Prop
  | .neverQuit b => v.neverQuit = b
  | .whiteListEnabled b => v.netfEnabled = b
  | .whiteListEntries l => v.netfEntries = prvToNetfEntries (prvFilterNullStr l)

end DleynaCore
