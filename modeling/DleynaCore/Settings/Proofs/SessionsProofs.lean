import DleynaCore.Settings.Proofs.SettersProofs
import DleynaCore.Settings.Sessions

/-!
# What a restart reads

The file that a session reads is the one that the session before has written, under whatever path: a
copy of the system file has its contents, and the system file is read only while the local one is not
loaded. So the values of the disk are those of the setters that were written, and the key file has
those that are staged on top of them.
-/

namespace DleynaCore

variable {κ δ : Type} {lib : KeyFileLib κ δ} {build : SettingsBuild} {host : SettingsHost δ}
  {server : String} {w : SettingsWorld κ δ} {disk : Disk δ} {sysPath locPath : Option FilePath}
  {path : FilePath} {file data : κ} {v : SettingsValues} {r : Remembered} {ops later : List SessionOp}

/-! ## The file of a server -/

/-- The file that is loaded, with its contents: the local one, or else that of the system. -/
inductive Current (lib : KeyFileLib κ δ) (disk : Disk δ) (sysPath locPath : Option FilePath) :
    FilePath → κ → Prop where
  | loc {path : FilePath} {file : κ} (hp : locPath = some path)
    (h : (disk.files path).bind lib.loadFromData = some file) : Current lib disk sysPath locPath path file
  | sys {path : FilePath} {file : κ}
    (hl : (locPath.bind disk.files).bind lib.loadFromData = none) (hp : sysPath = some path)
    (h : (disk.files path).bind lib.loadFromData = some file) : Current lib disk sysPath locPath path file

/-- Which file is loaded, if any is. -/
theorem current_or_none (lib : KeyFileLib κ δ) (disk : Disk δ) (sysPath locPath : Option FilePath) :
    (∃ path file, Current lib disk sysPath locPath path file) ∨
      prvLoadKeyfile lib disk locPath = none ∧ prvLoadKeyfile lib disk sysPath = none := by
  have hload : ∀ p, prvLoadKeyfile lib disk p = none ∨
      ∃ path file, p = some path ∧ (disk.files path).bind lib.loadFromData = some file := by
    intro p
    cases p with
    | none => exact Or.inl rfl
    | some path =>
      cases h : (disk.files path).bind lib.loadFromData with
      | none => exact Or.inl (by simp [prvLoadKeyfile, h])
      | some file => exact Or.inr ⟨path, file, rfl, h⟩
  rcases hload locPath with hl | ⟨path, file, hp, h⟩
  · rcases hload sysPath with hs | ⟨path, file, hp, h⟩
    · exact Or.inr ⟨hl, hs⟩
    · exact Or.inl ⟨path, file, .sys (by simpa [prvLoadKeyfile] using hl) hp h⟩
  · exact Or.inl ⟨path, file, .loc hp h⟩

/-- New settings have the values of the file, and keep its path. -/
theorem prvKeyfileInit_current (h : Current lib disk sysPath locPath path file) (s : Settings κ) :
    prvKeyfileInit lib disk s sysPath locPath =
      { prvReadKeys lib { s with keyfile := some ⟨file, ';'⟩ } ⟨file, ';'⟩ with filePath := some path } := by
  cases h with
  | loc hp h => simp [prvKeyfileInit, prvLoadKeyfile, hp, h]
  | sys hl hp h => simp [prvKeyfileInit, prvLoadKeyfile, hl, hp, h]

/-- To write the file changes its contents, and not which one is loaded. -/
theorem Current.write {contents : δ} {file' : κ} (h : Current lib disk sysPath locPath path file)
    (hc : lib.loadFromData contents = some file') :
    Current lib (disk.write path contents) sysPath locPath path file' := by
  have hfile : ((disk.write path contents).files path).bind lib.loadFromData = some file' := by
    simpa [Disk.write] using hc
  cases h with
  | loc hp _ => exact .loc hp hfile
  | sys hl hp h =>
    refine .sys ?_ hp hfile
    cases locPath with
    | none => rfl
    | some p =>
      -- the file that is loaded is not the one that is not
      have hne : p ≠ path := by
        rintro rfl
        rw [Option.bind_some, h] at hl
        cases hl
      simpa [Disk.write, hne] using hl

/-- A copy of the system file is loaded in its place. -/
theorem Current.check {loc : FilePath} (h : Current lib host.disk sysPath (some loc) path file) :
    ∃ path', Current lib (prvCheckLocalKeyfile host sysPath loc) sysPath (some loc) path' file := by
  unfold prvCheckLocalKeyfile
  split
  · exact ⟨path, h⟩
  · exact ⟨path, h⟩
  · next sysFile hnone =>
    cases h with
    | loc hp h =>
      obtain rfl := Option.some.inj hp
      rw [hnone] at h
      cases h
    | sys hl hp h =>
      obtain rfl := Option.some.inj hp
      obtain ⟨contents, hc, hload⟩ := Option.bind_eq_some_iff.mp h
      simp only [hc]
      split
      · exact ⟨_, .sys hl rfl h⟩
      · split
        · exact ⟨loc, .loc rfl (by simp [Disk.write, hload])⟩
        · exact ⟨_, .sys hl rfl h⟩

/-- Where the settings of a server are. -/
abbrev keyfilePaths (build : SettingsBuild) (host : SettingsHost δ) (server : String) :
    Option FilePath × Option FilePath :=
  prvGetKeyfilePath build host.userConfigDir (serverName server ++ ".conf")

/-- The file that is loaded on the disk of a server. -/
abbrev CurrentFile (lib : KeyFileLib κ δ) (build : SettingsBuild) (host : SettingsHost δ)
    (server : String) (disk : Disk δ) : FilePath → κ → Prop :=
  Current lib disk (keyfilePaths build host server).1 (keyfilePaths build host server).2

theorem dleynaSettingsNew_disk (lib : KeyFileLib κ δ) (build : SettingsBuild) (host : SettingsHost δ)
    (server : String) :
    (dleynaSettingsNew lib build host server).2 = (keyfilePaths build host server).2.elim host.disk
      (prvCheckLocalKeyfile host (keyfilePaths build host server).1) := by
  cases h : (keyfilePaths build host server).2 <;>
    · simp only [dleynaSettingsNew, keyfilePaths] at h ⊢
      simp [prvInitDefault, h]

theorem dleynaSettingsNew_settings (lib : KeyFileLib κ δ) (build : SettingsBuild)
    (host : SettingsHost δ) (server : String) :
    (dleynaSettingsNew lib build host server).1 =
      (let (sysPath, locPath) := keyfilePaths build host server
       let settings := prvInitDefault build
         { (Settings.zero : Settings κ) with fileName := serverName server ++ ".conf" }
       if sysPath.isSome || locPath.isSome then
         prvKeyfileInit lib (dleynaSettingsNew lib build host server).2 settings sysPath locPath
       else settings) := rfl

/-- New settings read the file that is loaded. -/
theorem dleynaSettingsNew_current
    (h : CurrentFile lib build host server (dleynaSettingsNew lib build host server).2 path file) :
    ∃ s, (dleynaSettingsNew lib build host server).1 =
      { prvReadKeys lib (prvInitDefault build s) ⟨file, ';'⟩ with filePath := some path } := by
  have hpath : ((keyfilePaths build host server).1.isSome ||
      (keyfilePaths build host server).2.isSome) = true := by
    cases h with
    | loc hp _ => simp [hp]
    | sys _ hp _ => simp [hp]
  refine ⟨{ (Settings.zero : Settings κ) with
    fileName := serverName server ++ ".conf", keyfile := some ⟨file, ';'⟩ }, ?_⟩
  rw [dleynaSettingsNew_settings]
  simp only [hpath, if_true]
  exact prvKeyfileInit_current h _

/-- What is on the disk is loaded again, whatever a new session does to the files. -/
theorem current_dleynaSettingsNew (host : SettingsHost δ)
    (h : CurrentFile lib build host server host.disk path file) :
    ∃ path', CurrentFile lib build host server (dleynaSettingsNew lib build host server).2 path' file := by
  rw [dleynaSettingsNew_disk]
  unfold CurrentFile at h ⊢
  cases hloc : (keyfilePaths build host server).2 with
  | none =>
    rw [hloc] at h
    exact ⟨path, h⟩
  | some loc =>
    rw [hloc] at h
    exact h.check

/-- New settings with a key file have loaded it. -/
theorem current_of_loaded (hload : (dleynaSettingsNew lib build host server).1.keyfile ≠ none) :
    ∃ path file,
      CurrentFile lib build host server (dleynaSettingsNew lib build host server).2 path file := by
  rcases current_or_none lib (dleynaSettingsNew lib build host server).2
    (keyfilePaths build host server).1 (keyfilePaths build host server).2 with h | ⟨hl, hs⟩
  · exact h
  · refine absurd ?_ hload
    rw [dleynaSettingsNew_settings]
    simp only
    split
    · simp [prvKeyfileInit, hl, hs]
    · rfl

/-! ## The values of a file -/

/-- The values that new settings have of a file. -/
def fileValues (lib : KeyFileLib κ δ) (build : SettingsBuild) (file : κ) : SettingsValues :=
  (prvReadKeys lib (prvInitDefault build Settings.zero) ⟨file, ';'⟩).values

theorem values_prvReadKeys (lib : KeyFileLib κ δ) (build : SettingsBuild) (s : Settings κ) (file : κ) :
    (prvReadKeys lib (prvInitDefault build s) ⟨file, ';'⟩).values = fileValues lib build file := by
  rw [fileValues, prvReadKeys_eq, prvReadKeys_eq]
  rfl

theorem fileValues_congr (build : SettingsBuild)
    (h : ∀ group key, lib.Agree file data group key) :
    fileValues lib build file = fileValues lib build data := by
  rw [fileValues, fileValues, prvReadKeys_eq, prvReadKeys_eq]
  simp only [Settings.values, (h groupGeneral keyNeverQuit).boolean,
    (h groupGeneral keyConnectorName).string, (h groupGeneral keyPort).uint64,
    (h groupGeneral keyPushHostPort).uint64, (h groupLog keyLogType).integer,
    (h groupLog keyLogLevel).integerList, (h groupNetf keyNetfEnabled).boolean,
    (h groupNetf keyNetfList).stringList]

/-- A setter gives its own key the value that is read again, and leaves the others. -/
theorem fileValues_write (build : SettingsBuild) (setter : Setter) (data : κ) :
    fileValues lib build (setter.write lib ⟨data, ','⟩).data =
      setter.restore (fileValues lib build data) := by
  rw [fileValues, fileValues, prvReadKeys_eq, prvReadKeys_eq]
  cases setter with
  | neverQuit b =>
    have hother := fun group key => lib.setBoolean_other data groupGeneral keyNeverQuit b group key
    simp only [Settings.values, Setter.write, Setter.restore, lib.getBoolean_setBoolean,
      (hother groupGeneral keyConnectorName (by decide)).string,
      (hother groupGeneral keyPort (by decide)).uint64,
      (hother groupGeneral keyPushHostPort (by decide)).uint64,
      (hother groupLog keyLogType (by decide)).integer,
      (hother groupLog keyLogLevel (by decide)).integerList,
      (hother groupNetf keyNetfEnabled (by decide)).boolean,
      (hother groupNetf keyNetfList (by decide)).stringList, Option.getD_some]
  | whiteListEnabled b =>
    have hother := fun group key => lib.setBoolean_other data groupNetf keyNetfEnabled b group key
    simp only [Settings.values, Setter.write, Setter.restore, lib.getBoolean_setBoolean,
      (hother groupGeneral keyNeverQuit (by decide)).boolean,
      (hother groupGeneral keyConnectorName (by decide)).string,
      (hother groupGeneral keyPort (by decide)).uint64,
      (hother groupGeneral keyPushHostPort (by decide)).uint64,
      (hother groupLog keyLogType (by decide)).integer,
      (hother groupLog keyLogLevel (by decide)).integerList,
      (hother groupNetf keyNetfList (by decide)).stringList, Option.getD_some]
  | whiteListEntries l =>
    have hother := fun group key =>
      lib.setStringList_other ',' data groupNetf keyNetfList (prvFilterNullStr l) group key
    simp only [Settings.values, Setter.write, Setter.restore, lib.getStringList_setStringList,
      (hother groupGeneral keyNeverQuit (by decide)).boolean,
      (hother groupGeneral keyConnectorName (by decide)).string,
      (hother groupGeneral keyPort (by decide)).uint64,
      (hother groupGeneral keyPushHostPort (by decide)).uint64,
      (hother groupLog keyLogType (by decide)).integer,
      (hother groupLog keyLogLevel (by decide)).integerList,
      (hother groupNetf keyNetfEnabled (by decide)).boolean, Option.elim_some]

/-! ## The store -/

/-- The file has the values that were written, and the key file those that are staged as well. -/
structure Stores (lib : KeyFileLib κ δ) (build : SettingsBuild) (host : SettingsHost δ)
    (server : String) (v : SettingsValues) (r : Remembered) (w : SettingsWorld κ δ)
    (path : FilePath) (file data : κ) : Prop where
  current : CurrentFile lib build host server w.disk path file
  path : w.settings.filePath = some path
  keyfile : w.settings.keyfile = some ⟨data, ','⟩
  written : fileValues lib build file = r.restored v
  staged : fileValues lib build data = r.store.staged.foldl Setter.restore (r.restored v)
  shown : w.settings.values = r.shown

theorem stores_dleynaSettingsNew
    (h : CurrentFile lib build host server (dleynaSettingsNew lib build host server).2 path file) :
    Stores lib build host server (fileValues lib build file) ⟨fileValues lib build file, .empty⟩
      (setters lib build host server).init path file file := by
  obtain ⟨s, hs⟩ := dleynaSettingsNew_current h
  refine ⟨h, ?_, ?_, rfl, rfl, ?_⟩
  · simp only [setters, hs]
  · simp only [setters, hs, prvReadKeys_eq]
  · simp only [setters, hs]
    exact values_prvReadKeys lib build s file

theorem write_listSeparator (setter : Setter) (data : κ) :
    setter.write lib ⟨data, ','⟩ = ⟨(setter.write lib ⟨data, ','⟩).data, ','⟩ := by
  cases setter <;> rfl

theorem values_store (setter : Setter) (s : Settings κ) :
    (setter.store s).values = setter.show s.values := by
  cases setter <;> rfl

/-- A call puts its setter into the store. -/
theorem Stores.call (h : Stores lib build host server v r w path file data) (call : SetterCall) :
    (call.perform lib w).1 = call.fault ∧
      ∃ file', Stores lib build host server v (r.next v (.call call)) (call.perform lib w).2 path file'
        (call.setter.write lib ⟨data, ','⟩).data := by
  have hstaged : fileValues lib build (call.setter.write lib ⟨data, ','⟩).data =
      (r.store.staged ++ [call.setter]).foldl Setter.restore (r.restored v) := by
    rw [fileValues_write, h.staged, List.foldl_append, List.foldl_cons, List.foldl_nil]
  cases hf : call.fault with
  | some error =>
    rw [perform_failed h.keyfile h.path hf]
    refine ⟨rfl, file, h.current, h.path, ?_, ?_, ?_, ?_⟩
    · exact congrArg some (write_listSeparator call.setter data)
    · simpa [Remembered.next, Remembered.restored, SessionOp.onStore, hf, WriteBack.next] using h.written
    · simpa [Remembered.next, Remembered.restored, SessionOp.onStore, hf, WriteBack.next] using hstaged
    · show w.settings.values = _
      simpa [Remembered.next, hf] using h.shown
  | none =>
    obtain ⟨criticals, heq, -⟩ := perform_saved lib h.keyfile h.path hf
    obtain ⟨file', hload, hagree⟩ := lib.load_toData (call.setter.write lib ⟨data, ','⟩).data
    -- the file has all that was staged
    have hwritten : fileValues lib build (call.setter.write lib ⟨data, ','⟩).data =
        (r.next v (.call call)).restored v := by
      rw [hstaged]
      simp [Remembered.next, Remembered.restored, SessionOp.onStore, hf, WriteBack.next,
        List.foldl_append]
    rw [heq]
    refine ⟨rfl, file', h.current.write hload, ?_, ?_, ?_, ?_, ?_⟩
    · simpa using h.path
    · rw [store_keyfile]
      exact congrArg some (write_listSeparator call.setter data)
    · rw [fileValues_congr build hagree, hwritten]
    · rw [hwritten]
      simp [Remembered.next, SessionOp.onStore, hf, WriteBack.next]
    · show (call.setter.store { w.settings with keyfile := _ }).values = _
      rw [values_store]
      simp only [Remembered.next, hf, if_true, ← h.shown]
      rfl

/-- A restart goes on with what was written. -/
theorem Stores.restart (h : Stores lib build host server v r w path file data)
    (makeDirectory copy : Bool) :
    ∃ path', Stores lib build host server v (r.next v (.restart makeDirectory copy))
      (w.restart lib build host server makeDirectory copy) path' file file := by
  obtain ⟨path', hcur⟩ := current_dleynaSettingsNew
    { host with disk := w.disk, makeDirectory := makeDirectory, copy := copy } h.current
  have hnew := stores_dleynaSettingsNew hcur
  refine ⟨path', hcur, hnew.path, hnew.keyfile, ?_, ?_, ?_⟩
  · simpa [Remembered.next, Remembered.restored, SessionOp.onStore, WriteBack.next] using h.written
  · simpa [Remembered.next, Remembered.restored, SessionOp.onStore, WriteBack.next] using h.written
  · exact hnew.shown.trans h.written

/-! ## Runs -/

theorem stores_run (h : (sessions lib build host server).Run (fun _ _ => True) ops w)
    (hload : (dleynaSettingsNew lib build host server).1.keyfile ≠ none) :
    ∃ path file data, Stores lib build host server (sessions lib build host server).init.settings.values
      (remembered (sessions lib build host server).init.settings.values ops) w path file data := by
  induction h with
  | nil =>
    obtain ⟨path, file, hcur⟩ := current_of_loaded hload
    have hnew := stores_dleynaSettingsNew hcur
    have hv : (sessions lib build host server).init.settings.values = fileValues lib build file :=
      hnew.shown
    exact ⟨path, file, file, hv ▸ hnew⟩
  | @snoc ops w w' op h _ _ hs ih =>
    obtain ⟨path, file, data, hst⟩ := ih
    simp only [remembered, List.foldl_append, List.foldl_cons, List.foldl_nil] at hst ⊢
    cases op with
    | call call =>
      obtain rfl := Except.ok.inj hs
      obtain ⟨-, file', hst'⟩ := hst.call call
      exact ⟨path, file', _, hst'⟩
    | restart makeDirectory copy =>
      obtain rfl := Except.ok.inj hs
      obtain ⟨path', hst'⟩ := hst.restart makeDirectory copy
      exact ⟨path', file, file, hst'⟩

/-- In any number of sessions a server shows the values that it has saved, and starts with those that
are on the disk: of the calls that failed, the ones before a call of the same session that succeeded. -/
theorem writesBack_run (hload : (dleynaSettingsNew lib build host server).1.keyfile ≠ none)
    (h : (sessions lib build host server).Run (fun _ _ => True) ops w) :
    WritesBack lib build host server ops w := by
  obtain ⟨path, file, data, hst⟩ := stores_run h hload
  refine ⟨hst.shown, fun makeDirectory copy => ?_, fun call => (hst.call call).1⟩
  obtain ⟨path', hnext⟩ := hst.restart makeDirectory copy
  exact ⟨by simp [hnext.keyfile], hnext.shown⟩

/-- A server that is built with a system file, which its users do not have at first. -/
def systemBuild : SettingsBuild := { sampleBuild with sysConfigDir := "/etc" }

def systemHost : SettingsHost FileValues where
  disk := { files := fun p => if p.dir = "/etc" then some [] else none, dirs := fun _ => false }
  userConfigDir := some "/home"
  makeDirectory := false
  copy := false

/-- The white list is saved in the system file, together with a flag that could not be saved; another
flag is lost by the restart, which copies the file. -/
theorem writesBack_copied :
    ∃ w : SettingsWorld FileValues FileValues,
      WritesBack FileValues.lib systemBuild systemHost "server"
        [.call ⟨.neverQuit false, some "no space"⟩, .call ⟨.whiteListEntries ["eth0", ""], none⟩,
          .call ⟨.whiteListEnabled true, some "no space"⟩, .restart true true] w ∧
      w.settings.values.neverQuit = false ∧ w.settings.values.netfEntries = some ["eth0"] ∧
      w.settings.values.netfEnabled = false ∧
      w.settings.filePath = some ⟨"/home", "server.conf"⟩ := by
  have hload :
      (dleynaSettingsNew FileValues.lib systemBuild systemHost "server").1.keyfile ≠ none := by
    decide
  refine ⟨_, writesBack_run hload ((((System.Run.nil.snoc trivial trivial rfl).snoc trivial trivial
    rfl).snoc trivial trivial rfl).snoc trivial trivial rfl), ?_, ?_, ?_, ?_⟩ <;> decide

/-! ## Saved values -/

theorem remembered_store (v : SettingsValues) (r : Remembered) (ops : List SessionOp) :
    (ops.foldl (Remembered.next v) r).store = r.store.after (ops.map SessionOp.onStore) := by
  induction ops generalizing r with
  | nil => rfl
  | cons op ops ih => exact ih _

/-- A setter of another key leaves the value. -/
theorem restored_other {setter other : Setter} (h : other.sameKey setter = false)
    (hv : setter.Restored v) : setter.Restored (other.restore v) := by
  cases setter <;> cases other <;> first | exact hv | simp [Setter.sameKey] at h

theorem restored_foldl {setter : Setter} {setters : List Setter}
    (h : ∀ other ∈ setters, other.sameKey setter = false) (hv : setter.Restored v) :
    setter.Restored (setters.foldl Setter.restore v) := by
  induction setters generalizing v with
  | nil => exact hv
  | cons other setters ih =>
    refine ih (fun o ho => h o (List.mem_cons_of_mem _ ho)) ?_
    exact restored_other (h other List.mem_cons_self) hv

theorem restored_restore (v : SettingsValues) (setter : Setter) :
    setter.Restored (setter.restore v) := by
  cases setter <;> rfl

/-- A value that was reported as saved is there after every restart, until its setter is called
again. -/
theorem durable_run {setter : Setter}
    (hload : (dleynaSettingsNew lib build host server).1.keyfile ≠ none)
    (h : (sessions lib build host server).Run (fun _ _ => True) (ops ++ .call ⟨setter, none⟩ :: later) w)
    (hlater : ∀ call, .call call ∈ later → call.setter.sameKey setter = false)
    (makeDirectory copy : Bool) :
    setter.Restored (w.restart lib build host server makeDirectory copy).settings.values := by
  obtain ⟨path, file, data, hst⟩ := stores_run h hload
  obtain ⟨path', hnext⟩ := hst.restart makeDirectory copy
  rw [hnext.shown]
  show setter.Restored (Remembered.restored _ _)
  rw [Remembered.restored, remembered, remembered_store, List.map_append, WriteBack.after_append]
  have hops : ∀ s saved, .put s saved ∈ later.map SessionOp.onStore → s.sameKey setter = false := by
    intro s saved hm
    obtain ⟨op, hop, hput⟩ := List.mem_map.mp hm
    cases op with
    | call call =>
      cases hput
      exact hlater call hop
    | restart makeDirectory copy => cases hput
  obtain ⟨front, l, hl, hother⟩ := WriteBack.written_saved (a := setter)
    (WriteBack.empty.after (ops.map SessionOp.onStore)) (fun s => s.sameKey setter = false) hops
  rw [List.map_cons, WriteBack.after_cons]
  show setter.Restored (List.foldl _ _ ((WriteBack.next _ (.put setter true)).after _).written)
  rw [hl, List.foldl_append, List.foldl_cons]
  exact restored_foldl hother (restored_restore _ setter)

/-- A server with this build on this host. -/
abbrev systemSessions : System (SettingsWorld FileValues FileValues) SessionOp Empty :=
  sessions FileValues.lib systemBuild systemHost "server"

/-- The entries are kept over a restart and a call of another setter. -/
theorem durable_otherKey :
    ∃ w, systemSessions.Run (fun _ _ => True)
        ([] ++ .call ⟨.whiteListEntries ["eth0", ""], none⟩ ::
          [.restart false false, .call ⟨.neverQuit false, none⟩]) w ∧
      (Setter.whiteListEntries ["eth0", ""]).Restored
        (w.restart FileValues.lib systemBuild systemHost "server" true true).settings.values := by
  have hload :
      (dleynaSettingsNew FileValues.lib systemBuild systemHost "server").1.keyfile ≠ none := by
    decide
  have hrun : systemSessions.Run (fun _ _ => True)
      ([] ++ .call ⟨.whiteListEntries ["eth0", ""], none⟩ ::
        [.restart false false, .call ⟨.neverQuit false, none⟩]) _ :=
    ((System.Run.nil.snoc trivial trivial rfl).snoc trivial trivial rfl).snoc trivial trivial rfl
  refine ⟨_, hrun, durable_run hload hrun ?_ true true⟩
  intro call hc
  rcases List.mem_cons.mp hc with h | h
  · cases h
  · obtain rfl := SessionOp.call.inj (List.mem_singleton.mp h)
    rfl

end DleynaCore
