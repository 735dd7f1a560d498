import Mathlib
import DleynaCore.ServiceTask.Source
import DleynaCore.TaskProcessor.Proofs.AddQueueProofs

/-!
# Names are not used twice

The counter wraps around after all its values, and `%d` prints each of them in another way, in at most
eleven characters.
-/

namespace DleynaCore

variable {m n cpt : UInt32} {k : Nat} {ops : List SourceOp} {w : SourceWorld}

/-! ## The text -/

/-- Reading the number as signed loses nothing, and neither does printing it. -/
theorem formatD_injective (h : formatD m = formatD n) : m = n := by
  have hsigned : m.toInt32 = n.toInt32 := Int32.toInt_inj.mp (Int.repr_injective h)
  rw [← UInt32.toUInt32_toInt32 m, hsigned, UInt32.toUInt32_toInt32]

theorem sourceText_injective (h : sourceText m = sourceText n) : m = n :=
  formatD_injective ((String.append_right_inj "source-").mp h)

theorem length_repr_le {a : Nat} (h : a < 10 ^ 10) : a.repr.length ≤ 10 := by
  rw [← String.length_toList, Nat.toList_repr]
  exact (Nat.length_toDigits_le_iff (by omega) (by omega)).mpr h

/-- A number of 32 bits with its sign. -/
theorem length_formatD_le (n : UInt32) : (formatD n).length ≤ 11 := by
  have hlow : -2 ^ 31 ≤ n.toInt32.toInt := Int32.le_toInt _
  have hhigh : n.toInt32.toInt < 2 ^ 31 := Int32.toInt_lt _
  rw [formatD, Int.repr_eq_if]
  split
  · have hdigits := length_repr_le (a := n.toInt32.toInt.toNat) (by omega)
    omega
  · have hdigits := length_repr_le (a := (-n.toInt32.toInt).toNat) (by omega)
    have hsign : ("-" : String).length = 1 := rfl
    rw [String.length_append, hsign]
    omega

theorem length_sourceText_lt (cpt : UInt32) : (sourceText cpt).length < 20 := by
  have hprefix : ("source-" : String).length = 7 := rfl
  have hnumber := length_formatD_le cpt
  rw [sourceText, String.length_append, hprefix]
  omega

/-- The buffer holds the whole text. -/
theorem createSource_eq (cpt : UInt32) :
    dleynaServiceTaskCreateSource cpt = (sourceText cpt, cpt + 1) := by
  have hlen : (sourceText cpt).toList.length ≤ 20 - 1 := by
    have hlt := length_sourceText_lt cpt
    rw [String.length_toList]
    omega
  rw [dleynaServiceTaskCreateSource, gSnprintfString, List.take_of_length_le hlen,
    String.ofList_toList]

/-! ## Many calls -/

theorem createdSources_eq (cpt : UInt32) (k : Nat) :
    createdSources cpt k = (List.range k).map fun i => sourceText (cpt + UInt32.ofNat i) := by
  induction k generalizing cpt with
  | zero => rfl
  | succ k ih =>
    have hcons : createdSources cpt (k + 1) = sourceText cpt :: createdSources (cpt + 1) k := by
      rw [createdSources, createSource_eq]
    have hnext : ∀ i, cpt + 1 + UInt32.ofNat i = cpt + UInt32.ofNat (i + 1) := by
      intro i
      rw [UInt32.add_assoc, UInt32.add_comm 1, UInt32.ofNat_add]
      rfl
    rw [hcons, ih, List.range_succ_eq_map, List.map_cons, List.map_map]
    refine congrArg₂ List.cons (congrArg sourceText (UInt32.add_zero cpt).symm) ?_
    exact List.map_congr_left fun i _ => congrArg sourceText (hnext i)

/-- The counter does not come back to a value within `2 ^ 32` calls. -/
theorem add_ofNat_injective {i j : Nat} (hi : i < 2 ^ 32) (hj : j < 2 ^ 32)
    (h : cpt + UInt32.ofNat i = cpt + UInt32.ofNat j) : i = j := by
  have hofNat : UInt32.ofNat i = UInt32.ofNat j := (UInt32.add_right_inj cpt).mp h
  have htoNat := congrArg UInt32.toNat hofNat
  rwa [UInt32.toNat_ofNat_of_lt' hi, UInt32.toNat_ofNat_of_lt' hj] at htoNat

theorem sourcesFresh (cpt : UInt32) (hk : k ≤ 2 ^ 32) : SourcesFresh cpt k where
  distinct := by
    rw [createdSources_eq]
    refine List.Nodup.map_on ?_ List.nodup_range
    intro i hi j hj heq
    have hi' := List.mem_range.mp hi
    have hj' := List.mem_range.mp hj
    exact add_ofNat_injective (by omega) (by omega) (sourceText_injective heq)
  whole := createdSources_eq cpt k
  fits := by
    intro source hsource
    rw [createdSources_eq] at hsource
    obtain ⟨i, -, rfl⟩ := List.mem_map.mp hsource
    exact length_sourceText_lt (cpt + UInt32.ofNat i)

/-! ## Queues -/

/-- A new queue leaves those of other sources as they are, whether its own pair had a queue or not. -/
theorem unchanged_addQueue_of_source {w : World} {k key : TaskQueueKey} (flags : UInt32)
    (h : k.source ≠ key.source) : Unchanged k w (dleynaTaskProcessorAddQueue w key flags) := by
  have hkey : k ≠ key := fun heq => h (congrArg TaskQueueKey.source heq)
  cases hl : w.taskQueues.lookup key.pair with
  | none => exact unchanged_addQueue hl hkey
  | some entry =>
    obtain ⟨oldKey, oldQueue⟩ := entry
    have hpair : oldKey.pair = key.pair := (HashTable.of_lookup_eq_some hl).2
    have hold : k ≠ oldKey := by
      intro heq
      rw [heq] at h
      exact h (congrArg Prod.fst hpair)
    rw [addQueue_registered hl]
    have hemit := unchanged_emit w (ownedBy_singleton (e := .addQueue key flags) rfl) hkey
    have hset := unchanged_setQueue (w.emit [.addQueue key flags]) (.new flags) hold
    exact (hemit.trans hset).trans (unchanged_emit _ (ownedBy_freeCalls oldKey oldQueue) hold)

/-! ## Runs -/

/-- The queues that were added with new names have the names of the calls so far. -/
structure Named (ops : List SourceOp) (w : SourceWorld) : Prop where
  cpt : w.cpt = 1 + UInt32.ofNat (ops.countP SourceOp.isAdd)
  added : ∀ k ∈ w.added, ∃ i < ops.countP SourceOp.isAdd, k.source = sourceText (1 + UInt32.ofNat i)

theorem Named.addQueue (h : Named ops w) (addr : Nat) (sink : String) (flags : UInt32) :
    Named (ops ++ [.addQueue addr sink flags]) (w.addQueue addr sink flags) := by
  have hcount : (ops ++ [SourceOp.addQueue addr sink flags]).countP SourceOp.isAdd =
      ops.countP SourceOp.isAdd + 1 := by
    rw [List.countP_append]
    rfl
  have hcreate := createSource_eq w.cpt
  constructor
  case cpt =>
    rw [SourceWorld.addQueue, hcreate, hcount, h.cpt, UInt32.ofNat_add, UInt32.add_assoc]
    rfl
  case added =>
    intro k hk
    rw [hcount]
    rcases List.mem_append.mp hk with hk | hk
    · obtain ⟨i, hi, hsource⟩ := h.added k hk
      exact ⟨i, by omega, hsource⟩
    · refine ⟨ops.countP SourceOp.isAdd, by omega, ?_⟩
      rw [List.mem_singleton.mp hk, SourceWorld.nextKey, hcreate, h.cpt]

theorem Named.other (h : Named ops w) (op : Op) (world : World) :
    Named (ops ++ [.other op]) { w with world := world } := by
  have hcount : (ops ++ [SourceOp.other op]).countP SourceOp.isAdd = ops.countP SourceOp.isAdd := by
    rw [List.countP_append]
    rfl
  constructor
  case cpt =>
    rw [hcount]
    exact h.cpt
  case added =>
    intro k hk
    rw [hcount]
    exact h.added k hk

theorem named_run (h : sourcedProcessor.Run (fun _ _ => True) ops w) : Named ops w := by
  induction h with
  | nil => exact ⟨rfl, by simp [sourcedProcessor]⟩
  | @snoc ops w w' op _ _ _ hs ih =>
    cases op with
    | addQueue addr sink flags =>
      cases hs
      exact ih.addQueue addr sink flags
    | other op =>
      have hs : (step w.world op).map (fun world => { w with world := world }) = .ok w' := hs
      cases hstep : step w.world op with
      | error fault =>
        rw [hstep] at hs
        cases hs
      | ok world =>
        rw [hstep] at hs
        cases hs
        exact ih.other op world

/-- Fewer than `2 ^ 32` names were made, so the next one is new. -/
theorem Named.keepsAdded (h : Named ops w) (hk : ops.countP SourceOp.isAdd < 2 ^ 32) : KeepsAdded w := by
  intro addr sink flags k hadded
  obtain ⟨i, hi, hsource⟩ := h.added k hadded
  refine unchanged_addQueue_of_source flags ?_
  have hnext : (w.nextKey addr sink).source =
      sourceText (1 + UInt32.ofNat (ops.countP SourceOp.isAdd)) := by
    rw [SourceWorld.nextKey, createSource_eq, h.cpt]
  rw [hsource, hnext]
  intro heq
  have hcount := add_ofNat_injective (by omega) hk (sourceText_injective heq)
  omega

/-- Up to `2 ^ 32` names are different and whole, and a queue that is added with one of them replaces
no queue that was added so before. -/
theorem sources_neverCollide (hk : k ≤ 2 ^ 32) :
    (∀ cpt, SourcesFresh cpt k) ∧
      ∀ ops w, sourcedProcessor.Run (fun _ _ => True) ops w → ops.countP SourceOp.isAdd < k →
        KeepsAdded w :=
  ⟨fun cpt => sourcesFresh cpt hk,
    fun _ _ hrun hcount => (named_run hrun).keepsAdded (Nat.lt_of_lt_of_le hcount hk)⟩

/-- Two names, one on each side of the change of sign, and two queues for one sink. -/
theorem sources_neverCollide_two :
    createdSources 0x7FFFFFFF 2 = ["source-2147483647", "source--2147483648"] ∧
      SourcesFresh 0x7FFFFFFF 2 ∧
      KeepsAdded (SourceWorld.addQueue sourcedProcessor.init 1 "sink" 0) := by
  obtain ⟨hfresh, hkeeps⟩ := sources_neverCollide (k := 2) (by decide)
  refine ⟨by decide, hfresh _, hkeeps [.addQueue 1 "sink" 0] _ ?_ (by decide)⟩
  exact System.Run.nil.snoc (a := SourceOp.addQueue 1 "sink" 0) trivial trivial rfl

end DleynaCore
