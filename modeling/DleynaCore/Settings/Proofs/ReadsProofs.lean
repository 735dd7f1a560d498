import Mathlib
import DleynaCore.Settings.Proofs.ReachesDiskProofs

/-!
# What is read from a file

The keys are read one by one, and no key spoils another. But a port is cut to 32 bits; and entries of
the white list that are empty strings are not in the file, nor is an empty list told from none.
-/

namespace DleynaCore

variable {κ δ : Type} {lib : KeyFileLib κ δ} {build : SettingsBuild} {host : SettingsHost δ}
  {server : String} {w : SettingsWorld κ δ} {calls : List SetterCall} {entries : List String}
  {fault : Option GError}

/-! ## Ports -/

/-- The port that is stored is the number in the file exactly if that has no more than 32 bits. -/
theorem port_eq_iff (kf : κ) (key : String) :
    ((lib.getUint64 kf groupGeneral key).elim 0 UInt64.toUInt32).toNat = portNumber lib kf key ↔
      PortFits lib kf key := by
  unfold portNumber PortFits
  cases lib.getUint64 kf groupGeneral key with
  | none => simp
  | some n => simp

/-- A file is read faithfully exactly if it gives no port a number of more than 32 bits. -/
theorem readsFaithfully_iff (lib : KeyFileLib κ δ) (build : SettingsBuild) (s : Settings κ)
    (kf : KeyFile κ) :
    ReadsFaithfully lib build kf.data (prvReadKeys lib (prvInitDefault build s) kf) ↔
      PortFits lib kf.data keyPort ∧ PortFits lib kf.data keyPushHostPort := by
  rw [prvReadKeys_eq]
  constructor
  · intro h
    exact ⟨(port_eq_iff kf.data keyPort).mp h.port, (port_eq_iff kf.data keyPushHostPort).mp h.pushHostPort⟩
  · rintro ⟨hport, hpush⟩
    refine ⟨rfl, rfl, (port_eq_iff kf.data keyPort).mpr hport,
      (port_eq_iff kf.data keyPushHostPort).mpr hpush, rfl, rfl, rfl, ?_⟩
    cases lib.getStringList ',' kf.data groupNetf keyNetfList <;> rfl

/-- A file with a port that has 33 bits. -/
def largePortFile : FileValues := [((groupGeneral, keyPort), .text (Nat.repr 4294967297))]

/-- Its lowest bit is left. -/
theorem largePort_truncated :
    (dleynaSettingsPort (prvReadKeys FileValues.lib (prvInitDefault sampleBuild Settings.zero)
      { data := largePortFile, listSeparator := ';' })).toNat = 1 ∧
    ¬ ReadsFaithfully FileValues.lib sampleBuild largePortFile
      (prvReadKeys FileValues.lib (prvInitDefault sampleBuild Settings.zero)
        { data := largePortFile, listSeparator := ';' }) := by
  have hread : FileValues.lib.getUint64 largePortFile groupGeneral keyPort = some 4294967297 := by
    have hvalue : largePortFile.value groupGeneral keyPort = some (.text (Nat.repr 4294967297)) := rfl
    show (largePortFile.value groupGeneral keyPort).bind FileValue.uint64 = _
    rw [hvalue, Option.bind_some, FileValue.uint64, FileValue.single, Option.bind_some, Nat.toNat?_repr]
    rfl
  rw [prvReadKeys_eq]
  constructor
  · rw [dleynaSettingsPort, hread]
    rfl
  · intro h
    have hport := h.port
    rw [dleynaSettingsPort, portNumber, hread] at hport
    exact absurd hport (by decide)

/-! ## The white list -/

theorem filter_eq_self_iff (entries : List String) :
    entries.filter (· ≠ "") = entries ↔ "" ∉ entries := by
  rw [List.filter_eq_self]
  constructor
  · intro h hmem
    exact absurd rfl (of_decide_eq_true (h "" hmem))
  · intro h entry hmem
    exact decide_eq_true fun heq => h (heq ▸ hmem)

/-- The entries that a restart reads are those of the process exactly if there are entries, and none is
empty. -/
theorem rebuilt_eq_iff (entries : List String) :
    prvToNetfEntries (prvFilterNullStr entries) = some entries ↔ entries ≠ [] ∧ "" ∉ entries := by
  unfold prvToNetfEntries prvFilterNullStr
  rw [← filter_eq_self_iff]
  split
  · next hnil =>
    constructor
    · intro h
      cases h
    · rintro ⟨hne, hself⟩
      exact absurd (hself.symm.trans hnil) hne
  · next hnil =>
    rw [Option.some_inj]
    constructor
    · intro hself
      exact ⟨fun h => hnil (by rw [h]; rfl), hself⟩
    · exact And.right

/-- After the setter has saved the entries, a restart reads them without the empty ones. -/
theorem reread_whiteListEntries (build : SettingsBuild) {data : κ} {path : FilePath}
    (hkf : w.settings.keyfile = some { data := data, listSeparator := ',' })
    (hpath : w.settings.filePath = some path)
    (hsaved : (dleynaSettingsSetWhiteListEntries lib w entries fault).1 = none) :
    (dleynaSettingsSetWhiteListEntries lib w entries fault).2.settings.netfEntries = some entries ∧
      ∃ s, reread lib build (dleynaSettingsSetWhiteListEntries lib w entries fault).2 = some s ∧
        s.netfEntries = prvToNetfEntries (prvFilterNullStr entries) := by
  cases fault with
  | some error =>
    have hfault : (SetterCall.mk (.whiteListEntries entries) (some error)).fault = some error := rfl
    have hfailed : dleynaSettingsSetWhiteListEntries lib w entries (some error) = _ :=
      perform_failed hkf hpath hfault
    rw [hfailed] at hsaved
    cases hsaved
  | none =>
    have hfault : (SetterCall.mk (.whiteListEntries entries) none).fault = none := rfl
    obtain ⟨criticals, heq, -⟩ := perform_saved lib hkf hpath hfault
    have hset : dleynaSettingsSetWhiteListEntries lib w entries none = _ := heq
    have hpath' : (dleynaSettingsSetWhiteListEntries lib w entries none).2.settings.filePath =
        some path := by
      rw [hset]
      exact hpath
    have hfile : (dleynaSettingsSetWhiteListEntries lib w entries none).2.disk.files path =
        some (lib.toData
          (lib.setStringList ',' data groupNetf keyNetfList (prvFilterNullStr entries))) := by
      rw [hset]
      exact if_pos rfl
    refine ⟨by rw [hset]; rfl, ?_⟩
    obtain ⟨data', hread, hagree⟩ := reread_written build hpath' hfile
    refine ⟨_, hread, ?_⟩
    have hlist : lib.getStringList ',' data' groupNetf keyNetfList = some (prvFilterNullStr entries) := by
      rw [(hagree groupNetf keyNetfList).stringList, lib.getStringList_setStringList]
    rw [prvReadKeys_eq, hlist]
    rfl

/-- A restart reads the entries that are not empty, and no list if there are none. That is the list of
the process exactly if there are entries, and none is empty. -/
theorem whiteListEntries_survive
    (h : (setters lib build host server).Run (fun _ _ => True) calls w)
    (hkf : w.settings.keyfile ≠ none)
    (hsaved : (dleynaSettingsSetWhiteListEntries lib w entries fault).1 = none) :
    ∃ s, reread lib build (dleynaSettingsSetWhiteListEntries lib w entries fault).2 = some s ∧
      s.netfEntries =
        (if ∀ entry ∈ entries, entry = "" then none else some (entries.filter (· ≠ ""))) ∧
      (s.netfEntries = dleynaSettingsWhiteListEntries
          (dleynaSettingsSetWhiteListEntries lib w entries fault).2.settings ↔
        entries ≠ [] ∧ "" ∉ entries) := by
  have hok := fileOk_run h
  generalize hk : w.settings.keyfile = keyfile at hok hkf
  generalize hp : w.settings.filePath = filePath at hok
  cases hok with
  | unloaded => exact absurd rfl hkf
  | loaded data path =>
    obtain ⟨hget, s, hs, hread⟩ := reread_whiteListEntries build hk hp hsaved
    refine ⟨s, hs, ?_, ?_⟩
    · rw [hread, prvToNetfEntries, prvFilterNullStr]
      refine if_congr ?_ rfl rfl
      simp [List.filter_eq_nil_iff]
    · rw [hread, dleynaSettingsWhiteListEntries, hget]
      exact rebuilt_eq_iff entries

/-- A user with a white list in the configuration file. -/
def whiteListHost : SettingsHost FileValues :=
  { sampleHost with
    disk :=
      { files := fun p =>
          if p.dir = "/home" then some [((groupNetf, keyNetfList), .list ',' ["eth0"])] else none
        dirs := fun _ => true } }

/-- Entries that a restart reads back. -/
theorem whiteListEntries_kept :
    let w := (setters FileValues.lib sampleBuild whiteListHost "server").init
    ∃ s, reread FileValues.lib sampleBuild
        (dleynaSettingsSetWhiteListEntries FileValues.lib w ["wlan0", "eth1"] none).2 = some s ∧
      s.netfEntries = some ["wlan0", "eth1"] := by
  intro w
  have hsaved : (dleynaSettingsSetWhiteListEntries FileValues.lib w ["wlan0", "eth1"] none).1 = none :=
    rfl
  obtain ⟨s, hs, hread, -⟩ := whiteListEntries_survive .nil (by decide) hsaved
  refine ⟨s, hs, ?_⟩
  rw [hread]
  decide

/-- An empty string is lost, and so is an empty list. -/
theorem emptyEntries_lost :
    ∃ w, (setters FileValues.lib sampleBuild whiteListHost "server").Run (fun _ _ => True) [] w ∧
      w.settings.keyfile ≠ none ∧ w.settings.netfEntries = some ["eth0"] ∧
      ∀ entries ∈ [["eth0", ""], []],
        (dleynaSettingsSetWhiteListEntries FileValues.lib w entries none).1 = none ∧
        (reread FileValues.lib sampleBuild
            (dleynaSettingsSetWhiteListEntries FileValues.lib w entries none).2).map
            Settings.netfEntries ≠
          some (dleynaSettingsWhiteListEntries
            (dleynaSettingsSetWhiteListEntries FileValues.lib w entries none).2.settings) := by
  exact ⟨_, .nil, by decide, by decide, by decide⟩

end DleynaCore
