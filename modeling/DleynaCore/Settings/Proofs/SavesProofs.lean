import DleynaCore.Settings.Proofs.SettersProofs

/-!
# Failed saves

A setter changes the key file in memory before it knows whether the file can be written, and does not
take that back. Failed saves leave no trace exactly if they set values that the key file holds already.
-/

namespace DleynaCore

variable {κ δ : Type} {lib : KeyFileLib κ δ} {build : SettingsBuild} {host : SettingsHost δ}
  {server : String} {s : Settings κ} {w w' : SettingsWorld κ δ} {setter : Setter} {call : SetterCall}
  {calls : List SetterCall} {kf : KeyFile κ} {path : FilePath}

/-! ## The flags and the key file -/

/-- The settings have the flags of the key file, and the defaults of those that it lacks. -/
structure InSync (lib : KeyFileLib κ δ) (build : SettingsBuild) (s : Settings κ) (kf : KeyFile κ) :
    Prop where
  keyfile : s.keyfile = some kf
  neverQuit : s.neverQuit =
    (lib.getBoolean kf.data groupGeneral keyNeverQuit).getD build.neverQuit
  netfEnabled : s.netfEnabled = (lib.getBoolean kf.data groupNetf keyNetfEnabled).getD false

/-- Settings that have read a key file have its flags. -/
theorem inSync_prvReadKeys (lib : KeyFileLib κ δ) (build : SettingsBuild) (s : Settings κ)
    (kf : KeyFile κ) :
    InSync lib build (prvReadKeys lib (prvInitDefault build s) kf)
      { kf with listSeparator := ',' } := by
  rw [prvReadKeys_eq]
  exact ⟨rfl, rfl, rfl⟩

/-- A value that is set in the settings and in their key file keeps the two in step. -/
theorem InSync.store (h : InSync lib build s kf) (setter : Setter) :
    InSync lib build (setter.store { s with keyfile := some (setter.write lib kf) })
      (setter.write lib kf) := by
  cases setter with
  | neverQuit b =>
    refine ⟨rfl, ?_, ?_⟩
    · simp [Setter.store, Setter.write, lib.getBoolean_setBoolean]
    · have hother := (lib.setBoolean_other kf.data groupGeneral keyNeverQuit b groupNetf keyNetfEnabled
        (by decide)).boolean
      simpa [Setter.store, Setter.write, hother] using h.netfEnabled
  | whiteListEnabled b =>
    refine ⟨rfl, ?_, ?_⟩
    · have hother := (lib.setBoolean_other kf.data groupNetf keyNetfEnabled b groupGeneral keyNeverQuit
        (by decide)).boolean
      simpa [Setter.store, Setter.write, hother] using h.neverQuit
    · simp [Setter.store, Setter.write, lib.getBoolean_setBoolean]
  | whiteListEntries l =>
    have hother := fun group key hne => (lib.setStringList_other kf.listSeparator kf.data groupNetf
      keyNetfList (prvFilterNullStr l) group key hne).boolean
    refine ⟨rfl, ?_, ?_⟩
    · have hq := hother groupGeneral keyNeverQuit (by decide)
      simpa [Setter.store, Setter.write, hq] using h.neverQuit
    · have hn := hother groupNetf keyNetfEnabled (by decide)
      simpa [Setter.store, Setter.write, hn] using h.netfEnabled

/-- The flags of a key file are read again from the file that was written. -/
theorem InSync.reread (h : InSync lib build w.settings kf) (hpath : w.settings.filePath = some path)
    (hfile : w.disk.files path = some (lib.toData kf.data)) :
    ∃ s, reread lib build w = some s ∧ s.neverQuit = w.settings.neverQuit ∧
      s.netfEnabled = w.settings.netfEnabled := by
  obtain ⟨data, hread, hagree⟩ := reread_written build hpath hfile
  refine ⟨_, hread, ?_, ?_⟩
  · rw [h.neverQuit, ← (hagree groupGeneral keyNeverQuit).boolean,
      (inSync_prvReadKeys _ _ _ _).neverQuit]
  · rw [h.netfEnabled, ← (hagree groupNetf keyNetfEnabled).boolean,
      (inSync_prvReadKeys _ _ _ _).netfEnabled]

/-! ## Single calls -/

/-- A setter leaves the key file as it is exactly if that holds the value already. -/
theorem write_eq_iff (setter : Setter) (kf : KeyFile κ) :
    setter.write lib kf = kf ↔ setter.Holds lib kf := by
  obtain ⟨data, separator⟩ := kf
  cases setter with
  | neverQuit b | whiteListEnabled b =>
    simp [Setter.write, Setter.Holds, lib.setBoolean_eq_iff]
  | whiteListEntries l => simp [Setter.write, Setter.Holds, lib.setStringList_eq_iff]

/-- What a call leaves as it was before it failed, or saves. -/
theorem savesOrKeeps_iff (h : InSync lib build w.settings kf)
    (hpath : w.settings.filePath = some path) :
    SavesOrKeeps lib build w (call.perform lib w) ↔ HoldsIfFailing lib w call := by
  cases hf : call.fault with
  | some error =>
    rw [perform_failed h.keyfile hpath hf]
    constructor
    · rintro ⟨hkept, -⟩ - kf' hkf'
      obtain rfl : kf = kf' := Option.some.inj (h.keyfile.symm.trans hkf')
      obtain ⟨-, -, -, hkf⟩ := hkept (by simp)
      exact (write_eq_iff _ _).mp (by simpa [h.keyfile] using hkf)
    · intro hholds
      have hwrite := (write_eq_iff _ _).mpr (hholds (by simp [hf]) kf h.keyfile)
      refine ⟨fun _ => ⟨rfl, rfl, rfl, ?_⟩, by simp⟩
      simp [hwrite, h.keyfile]
  | none =>
    obtain ⟨criticals, heq, -⟩ := perform_saved lib h.keyfile hpath hf
    rw [heq]
    constructor
    · exact fun _ hne => absurd hf hne
    · refine fun _ => ⟨fun hne => absurd rfl hne, fun _ => ?_⟩
      exact (h.store call.setter).reread (by simpa using hpath) (by simp [Disk.write])

/-- A call that may fail only if it changes nothing keeps the flags in step. -/
theorem InSync.perform (h : InSync lib build w.settings kf)
    (hpath : w.settings.filePath = some path) (hcall : HoldsIfFailing lib w call) :
    ∃ kf', InSync lib build (call.perform lib w).2.settings kf' ∧
      (call.perform lib w).2.settings.filePath = some path := by
  cases hf : call.fault with
  | some error =>
    have hwrite := (write_eq_iff _ _).mpr (hcall (by simp [hf]) kf h.keyfile)
    rw [perform_failed h.keyfile hpath hf, hwrite]
    exact ⟨kf, ⟨rfl, h.neverQuit, h.netfEnabled⟩, hpath⟩
  | none =>
    obtain ⟨criticals, heq, -⟩ := perform_saved lib h.keyfile hpath hf
    rw [heq]
    exact ⟨_, h.store call.setter, by simpa using hpath⟩

/-! ## Runs -/

/-- New settings that have loaded a file have its flags. -/
theorem inSync_dleynaSettingsNew (h : (dleynaSettingsNew lib build host server).1.keyfile ≠ none) :
    ∃ kf path, InSync lib build (dleynaSettingsNew lib build host server).1 kf ∧
      (dleynaSettingsNew lib build host server).1.filePath = some path := by
  rcases loads_dleynaSettingsNew lib build host server with ⟨hnone, -⟩ | ⟨s0, kf, path, hs⟩
  · exact absurd hnone h
  · rw [hs]
    have hread := inSync_prvReadKeys lib build s0 kf
    exact ⟨_, path, ⟨hread.keyfile, hread.neverQuit, hread.netfEnabled⟩, rfl⟩

theorem inSync_run (hload : (dleynaSettingsNew lib build host server).1.keyfile ≠ none)
    (h : (setters lib build host server).Run (HoldsIfFailing lib) calls w) :
    ∃ kf path, InSync lib build w.settings kf ∧ w.settings.filePath = some path := by
  refine h.invariant (I := fun w => ∃ kf path, InSync lib build w.settings kf ∧
    w.settings.filePath = some path) (inSync_dleynaSettingsNew hload) ?_
  rintro _ w call w' - ⟨kf, path, hsync, hpath⟩ - hcall hs
  cases hs
  obtain ⟨kf', hsync', hpath'⟩ := hsync.perform hpath hcall
  exact ⟨kf', path, hsync', hpath'⟩

theorem savedKeyFile_concat (kf : KeyFile κ) (calls : List SetterCall) (call : SetterCall) :
    savedKeyFile lib kf (calls ++ [call]) =
      if call.fault = none then call.setter.write lib (savedKeyFile lib kf calls)
      else savedKeyFile lib kf calls := by
  by_cases hf : call.fault = none <;> simp [savedKeyFile, List.filter_append, hf]

/-- The next call writes its value to both copies, or to neither. -/
theorem HoldsSaved.perform {w0 : SettingsWorld κ δ} (h : HoldsSaved lib w0 calls w)
    (hkf : w.settings.keyfile = some kf) (hpath : w.settings.filePath = some path)
    (hcall : HoldsIfFailing lib w call) :
    HoldsSaved lib w0 (calls ++ [call]) (call.perform lib w).2 := by
  obtain ⟨kf0, hkf0, rfl⟩ := Option.map_eq_some_iff.mp (h.memory.symm.trans hkf)
  cases hf : call.fault with
  | some error =>
    have hwrite := (write_eq_iff _ _).mpr (hcall (by simp [hf]) _ hkf)
    rw [perform_failed hkf hpath hf, hwrite]
    refine ⟨?_, h.path, ?_⟩
    · simp [hkf0, savedKeyFile_concat, hf]
    · rintro ⟨c, hc, hnone⟩
      have hmem : c ∈ calls := by
        rcases List.mem_append.mp hc with hc | hc
        · exact hc
        · obtain rfl := List.mem_singleton.mp hc
          simp [hnone] at hf
      simpa [hkf] using h.file ⟨c, hmem, hnone⟩
  | none =>
    obtain ⟨criticals, heq, -⟩ := perform_saved lib hkf hpath hf
    rw [heq]
    refine ⟨?_, ?_, fun _ => ?_⟩
    · simp [hkf0, savedKeyFile_concat, hf]
    · simpa using h.path
    · simp [hpath, Disk.write]

/-- Failed saves leave no trace exactly if each sets a value that the key file holds already; then the
key file and the file hold what was saved, and nothing else. -/
theorem saves_iff (hload : (dleynaSettingsNew lib build host server).1.keyfile ≠ none)
    (calls : List SetterCall) (w : SettingsWorld κ δ) :
    ((setters lib build host server).Run
        (fun w call => SavesOrKeeps lib build w (call.perform lib w)) calls w ↔
      (setters lib build host server).Run (HoldsIfFailing lib) calls w) ∧
    ((setters lib build host server).Run (HoldsIfFailing lib) calls w →
      HoldsSaved lib (setters lib build host server).init calls w) := by
  refine ⟨⟨fun h => ?_, fun h => ?_⟩, fun h => ?_⟩
  · refine h.mono_reached fun _ w call _ hrun hsaves => ?_
    obtain ⟨kf, path, hsync, hpath⟩ := inSync_run hload hrun
    exact (savesOrKeeps_iff hsync hpath).mp hsaves
  · refine h.mono_reached fun _ w call hrun _ hholds => ?_
    obtain ⟨kf, path, hsync, hpath⟩ := inSync_run hload hrun
    exact (savesOrKeeps_iff hsync hpath).mpr hholds
  · induction h with
    | nil =>
      obtain ⟨kf, path, hsync, -⟩ := inSync_dleynaSettingsNew hload
      have hkf : (setters lib build host server).init.settings.keyfile = some kf := hsync.keyfile
      exact ⟨by simp [hkf, savedKeyFile], rfl, by simp⟩
    | snoc hrun _ hcall hs ih =>
      cases hs
      obtain ⟨kf, path, hsync, hpath⟩ := inSync_run hload hrun
      exact ih.perform hsync.keyfile hpath hcall

/-- The setters of such a server. -/
abbrev sampleSetters : System (SettingsWorld FileValues FileValues) SetterCall Empty :=
  setters FileValues.lib sampleBuild sampleHost "server"

/-- Two calls, of which one fails to save the value that the other has saved. -/
theorem saves_repeated :
    ∃ w, sampleSetters.Run
        (fun w call => SavesOrKeeps FileValues.lib sampleBuild w (call.perform FileValues.lib w))
        [⟨.neverQuit false, none⟩, ⟨.neverQuit false, some "no space"⟩] w ∧
      HoldsSaved FileValues.lib sampleSetters.init
        [⟨.neverQuit false, none⟩, ⟨.neverQuit false, some "no space"⟩] w := by
  have hload :
      (dleynaSettingsNew FileValues.lib sampleBuild sampleHost "server").1.keyfile ≠ none := by
    decide
  obtain ⟨hiff, hsaved⟩ := saves_iff hload
    [⟨.neverQuit false, none⟩, ⟨.neverQuit false, some "no space"⟩] _
  have hrun : sampleSetters.Run (HoldsIfFailing FileValues.lib)
      [⟨.neverQuit false, none⟩, ⟨.neverQuit false, some "no space"⟩] _ :=
    (System.Run.nil.snoc trivial (by simp [HoldsIfFailing]) rfl).snoc trivial
      (fun _ kf hkf => by cases hkf; rfl) rfl
  exact ⟨_, hiff.mpr hrun, hsaved hrun⟩

/-- A value that was not saved is written to the file by the next setter, which leaves the getter with
the old one. -/
theorem unsavedValue_reachable :
    (dleynaSettingsNew FileValues.lib sampleBuild sampleHost "server").1.keyfile ≠ none ∧
    ∃ w, sampleSetters.Run (fun _ _ => True) [⟨.neverQuit false, some "no space"⟩] w ∧
      ¬ SavesOrKeeps FileValues.lib sampleBuild w
        ((⟨.whiteListEnabled true, none⟩ : SetterCall).perform FileValues.lib w) ∧
      (reread FileValues.lib sampleBuild
        ((⟨.whiteListEnabled true, none⟩ : SetterCall).perform FileValues.lib w).2).map
        Settings.neverQuit = some false := by
  refine ⟨by decide, _, System.Run.nil.snoc trivial trivial rfl, fun h => ?_, by decide⟩
  obtain ⟨s, hs, hquit, -⟩ := h.saved (by decide)
  have hfile : s.neverQuit = false := by
    have hmap := congrArg (Option.map Settings.neverQuit) hs
    exact (Option.some.inj hmap).symm
  rw [hfile] at hquit
  exact absurd hquit (by decide)

end DleynaCore
