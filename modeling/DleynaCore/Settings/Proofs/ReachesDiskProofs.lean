import DleynaCore.Settings.Proofs.SettersProofs

/-!
# Saves that succeed

A setter reports success when its error stays `NULL`, which it also does when GLib rejects the calls
of the setter. The value is on the disk, and no call is rejected, exactly if a file was loaded and the
entries are not replaced while there are none.
-/

namespace DleynaCore

variable {κ δ : Type} {lib : KeyFileLib κ δ} {build : SettingsBuild} {host : SettingsHost δ}
  {server : String} {s : Settings κ} {w w' : SettingsWorld κ δ} {call : SetterCall}
  {calls : List SetterCall} {data : κ} {path : FilePath}

/-! ## Key file and path -/

/-- The key file separates lists by commas, and has a path; or there is neither a file nor a path. -/
inductive FileOk : Option (KeyFile κ) → Option FilePath → Prop where
  | unloaded : FileOk none none
  | loaded (data : κ) (path : FilePath) :
    FileOk (some { data := data, listSeparator := ',' }) (some path)

theorem fileOk_dleynaSettingsNew :
    FileOk (dleynaSettingsNew lib build host server).1.keyfile
      (dleynaSettingsNew lib build host server).1.filePath := by
  rcases loads_dleynaSettingsNew lib build host server with ⟨hkf, hpath⟩ | ⟨s0, kf, path, hs⟩
  · rw [hkf, hpath]
    exact .unloaded
  · rw [hs]
    exact .loaded kf.data path

theorem fileOk_write (setter : Setter) (data : κ) (path : FilePath) :
    FileOk (some (setter.write lib { data := data, listSeparator := ',' })) (some path) := by
  cases setter <;> exact .loaded _ path

theorem FileOk.perform (h : FileOk w.settings.keyfile w.settings.filePath) (call : SetterCall) :
    FileOk (call.perform lib w).2.settings.keyfile (call.perform lib w).2.settings.filePath := by
  generalize hkf : w.settings.keyfile = keyfile at h
  generalize hpath : w.settings.filePath = filePath at h
  cases h with
  | unloaded =>
    obtain ⟨-, -, hs, -⟩ := perform_unloaded lib call hkf hpath
    rw [hs, store_keyfile, store_filePath, hkf, hpath]
    exact .unloaded
  | loaded data path =>
    cases hf : call.fault with
    | some error =>
      rw [perform_failed hkf hpath hf]
      simpa [hpath] using fileOk_write call.setter data path
    | none =>
      obtain ⟨criticals, heq, -⟩ := perform_saved lib hkf hpath hf
      rw [heq]
      simpa [hpath] using fileOk_write call.setter data path

theorem fileOk_run {P : SettingsWorld κ δ → SetterCall → Prop}
    (h : (setters lib build host server).Run P calls w) :
    FileOk w.settings.keyfile w.settings.filePath := by
  refine h.invariant (I := fun w => FileOk w.settings.keyfile w.settings.filePath)
    fileOk_dleynaSettingsNew ?_
  rintro _ w call w' - hok - - hs
  cases hs
  exact hok.perform call

/-! ## Single calls -/

/-- The value is read back from the file that was written. -/
theorem readBack_write {kf : κ} (setter : Setter)
    (hagree : ∀ group key, lib.Agree kf
      (setter.write lib { data := data, listSeparator := ',' }).data group key) :
    setter.ReadBack lib kf := by
  cases setter with
  | neverQuit b =>
    rw [Setter.ReadBack, (hagree groupGeneral keyNeverQuit).boolean]
    exact lib.getBoolean_setBoolean _ _ _ _
  | whiteListEnabled b =>
    rw [Setter.ReadBack, (hagree groupNetf keyNetfEnabled).boolean]
    exact lib.getBoolean_setBoolean _ _ _ _
  | whiteListEntries l =>
    rw [Setter.ReadBack, (hagree groupNetf keyNetfList).stringList]
    exact lib.getStringList_setStringList _ _ _ _ _

/-- A call is as it should be exactly if GLib can accept its arguments. -/
theorem reachesDisk_call (h : FileOk w.settings.keyfile w.settings.filePath) (call : SetterCall) :
    ReachesDisk lib w call.setter (call.perform lib w) ↔ Accepts w call := by
  generalize hkf : w.settings.keyfile = keyfile at h
  generalize hpath : w.settings.filePath = filePath at h
  cases h with
  | unloaded =>
    obtain ⟨-, -, -, hcrit⟩ := perform_unloaded lib call hkf hpath
    exact ⟨fun hr => absurd hr.accepted hcrit, fun ha => absurd hkf ha.1⟩
  | loaded data path =>
    cases hf : call.fault with
    | some error =>
      rw [perform_failed hkf hpath hf]
      exact ⟨fun _ => ⟨by simp [hkf], by simp [hf]⟩, fun _ => ⟨by simp, rfl⟩⟩
    | none =>
      obtain ⟨criticals, heq, hcrit⟩ := perform_saved lib hkf hpath hf
      rw [heq]
      constructor
      · exact fun hr => ⟨by simp [hkf], fun _ => hcrit.mp hr.accepted⟩
      · refine fun ha => ⟨fun _ => ?_, hcrit.mpr (ha.2 hf)⟩
        obtain ⟨kf, hload, hagree⟩ := lib.load_toData
          (call.setter.write lib { data := data, listSeparator := ',' }).data
        exact ⟨path, _, kf, by simp [hpath], rfl, hload,
          readBack_write call.setter hagree⟩

/-! ## Runs -/

/-- The setters of a run save what they report as saved, and pass nothing that GLib rejects, exactly if
a file was loaded and the entries are never replaced while there are none. -/
theorem reachesDisk_iff (calls : List SetterCall) (w : SettingsWorld κ δ) :
    (setters lib build host server).Run
        (fun w call => ReachesDisk lib w call.setter (call.perform lib w)) calls w ↔
      (setters lib build host server).Run Accepts calls w :=
  ⟨fun h => h.mono_reached fun _ _ call hrun _ hr => (reachesDisk_call (fileOk_run hrun) call).mp hr,
    fun h => h.mono_reached fun _ _ call hrun _ ha =>
      (reachesDisk_call (fileOk_run hrun) call).mpr ha⟩

/-- Two setters that save what they are given, the second one after it has failed. -/
theorem reachesDisk_saved :
    ∃ w, (setters FileValues.lib sampleBuild sampleHost "server").Run
      (fun w call => ReachesDisk FileValues.lib w call.setter (call.perform FileValues.lib w))
      [⟨.neverQuit false, none⟩, ⟨.whiteListEnabled true, some "no space"⟩,
        ⟨.whiteListEnabled true, none⟩] w := by
  refine ⟨_, (reachesDisk_iff _ _).mpr
    (((System.Run.nil.snoc trivial ?_ rfl).snoc trivial ?_ rfl).snoc trivial ?_ rfl)⟩
  · exact ⟨by decide, by simp⟩
  · exact ⟨by decide, by simp⟩
  · exact ⟨by decide, by simp⟩

/-- A user without a configuration file. -/
def emptyHost : SettingsHost FileValues :=
  { sampleHost with disk := { files := fun _ => none, dirs := fun _ => true } }

/-- Without a loaded file a setter reports success and writes nothing; and the first entries of a
server are saved, with a call that GLib rejects. -/
theorem rejectedCall_reachable :
    (∃ w, (setters FileValues.lib sampleBuild emptyHost "server").Run (fun _ _ => True) [] w ∧
      ((⟨.neverQuit false, none⟩ : SetterCall).perform FileValues.lib w).1 = none ∧
      ((⟨.neverQuit false, none⟩ : SetterCall).perform FileValues.lib w).2.disk = w.disk ∧
      ¬ ReachesDisk FileValues.lib w (.neverQuit false)
        ((⟨.neverQuit false, none⟩ : SetterCall).perform FileValues.lib w)) ∧
    ∃ w, (setters FileValues.lib sampleBuild sampleHost "server").Run (fun _ _ => True) [] w ∧
      ((⟨.whiteListEntries ["eth0"], none⟩ : SetterCall).perform FileValues.lib w).2.criticals =
        [.gVariantUnref] ∧
      ¬ ReachesDisk FileValues.lib w (.whiteListEntries ["eth0"])
        ((⟨.whiteListEntries ["eth0"], none⟩ : SetterCall).perform FileValues.lib w) := by
  refine ⟨⟨_, .nil, rfl, rfl, fun h => ?_⟩, _, .nil, rfl, fun h => ?_⟩
  · exact absurd h.accepted (by decide)
  · exact absurd h.accepted (by decide)

end DleynaCore
