import DleynaCore.TaskProcessor.Proofs.QueuesProofs
import DleynaCore.TaskProcessor.Proofs.UnchangedProofs

/-!
# The key of a new queue

For a pair that has a queue already, `g_hash_table_insert` keeps the registered key and frees the new
one, which `dleyna_task_processor_add_queue` returns all the same.
-/

namespace DleynaCore

variable {w : World} {key k : TaskQueueKey} {flags : UInt32} {ops : List Op}

theorem find?_addQueue (hl : w.taskQueues.lookup key.pair = none) (k : TaskQueueKey) :
    (dleynaTaskProcessorAddQueue w key flags).taskQueues.find? k =
      if k = key then some (.new flags) else w.taskQueues.find? k := by
  rw [addQueue_new hl]
  exact HashTable.find?_insertNew _ _ _ _ hl

theorem sources_addQueue : (dleynaTaskProcessorAddQueue w key flags).sources = w.sources := by
  unfold dleynaTaskProcessorAddQueue
  split <;> rfl

/-- The keys in the table stay when the pair has a queue. -/
theorem keys_addQueue (hl : w.taskQueues.lookup key.pair ≠ none) :
    (dleynaTaskProcessorAddQueue w key flags).taskQueues.keys = w.taskQueues.keys := by
  obtain ⟨⟨oldKey, oldQueue⟩, hentry⟩ := Option.ne_none_iff_exists'.mp hl
  rw [addQueue_registered hentry]
  exact HashTable.keys_modify _ _ _

theorem unchanged_addQueue (hl : w.taskQueues.lookup key.pair = none) (hk : k ≠ key) :
    Unchanged k w (dleynaTaskProcessorAddQueue w key flags) where
  queue := by rw [find?_addQueue hl, if_neg hk]
  pending := pendingOf_congr sources_addQueue k
  log := by
    rw [addQueue_new hl]
    exact (World.logOf_emit_owned _ (ownedBy_singleton rfl) k).trans (by rw [if_neg hk]; simp; rfl)

/-- A key that is not in the history is neither registered nor named by a pending dispatch. -/
theorem fresh_of_logOf (hS : SourcesOk w) (hk : w.logOf key = []) :
    w.taskQueues.find? key = none ∧ IdleSource.processTask key ∉ w.sources.map Prod.snd := by
  constructor
  · by_contra hne
    exact hS.known key (Or.inl (Option.ne_none_iff_exists'.mp hne)) hk
  · intro hm
    obtain ⟨⟨id, s⟩, hs, rfl⟩ := List.mem_map.mp hm
    exact hS.known key (Or.inr (List.ne_nil_of_mem (mem_pendingOf.mpr hs))) hk

/-- The key that is returned is the registered one exactly if the pair had no queue. -/
theorem addsQueue_iff (h : processor.Run Any ops w) (hk : w.logOf key = []) (flags : UInt32) :
    AddsQueue w key (dleynaTaskProcessorAddQueue w key flags) ↔
      w.taskQueues.lookup key.pair = none ∧ DispatchesReady w := by
  obtain ⟨hfind, hpend⟩ := fresh_of_logOf (inv_run h).sources hk
  have hready : w.taskQueues.lookup key.pair = none →
      (DispatchesReady (dleynaTaskProcessorAddQueue w key flags) ↔ DispatchesReady w) := by
    intro hl
    refine forall_congr' fun k => ?_
    rw [sources_addQueue]
    refine imp_congr_right fun hm => ?_
    have hne : k ≠ key := fun he => hpend (he ▸ hm)
    rw [find?_addQueue hl, if_neg hne]
  constructor
  · intro hA
    have hl : w.taskQueues.lookup key.pair = none := by
      by_contra hne
      have hm := HashTable.mem_keys.mpr hA.live
      rw [keys_addQueue hne] at hm
      exact HashTable.find?_eq_none.mp hfind hm
    exact ⟨hl, (hready hl).mp hA.ready⟩
  · rintro ⟨hl, hr⟩
    refine ⟨⟨.new flags, by rw [find?_addQueue hl, if_pos rfl]⟩, ?_, fun k q hq => Or.inl ?_,
      (hready hl).mpr hr⟩
    · rw [dleynaTaskProcessorLookupQueue, addQueue_new hl]
      show Option.map Prod.fst ((w.taskQueues.insertNew key (.new flags) hl).lookup key.pair) = _
      rw [HashTable.lookup_insertNew]
      rfl
    · refine unchanged_addQueue hl fun he => ?_
      rw [he, hfind] at hq
      simp at hq

/-- A second queue, for another pair. -/
theorem addsQueue_second :
    AddsQueue (processor.final Any [.addQueue ⟨1, "a", "b"⟩ 0]) ⟨2, "a", "c"⟩
        (dleynaTaskProcessorAddQueue (processor.final Any [.addQueue ⟨1, "a", "b"⟩ 0]) ⟨2, "a", "c"⟩
          0) ↔
      (processor.final Any [.addQueue ⟨1, "a", "b"⟩ 0]).taskQueues.lookup ("a", "c") = none ∧
        DispatchesReady (processor.final Any [.addQueue ⟨1, "a", "b"⟩ 0]) :=
  addsQueue_iff (System.run_final (by decide)) (by decide) 0

/-- A second queue for the same pair: the key that is returned is not in the table. -/
theorem freedKey_reachable :
    processor.Run Any [.addQueue ⟨1, "a", "b"⟩ 0] (processor.final Any [.addQueue ⟨1, "a", "b"⟩ 0]) ∧
      ¬ AddsQueue (processor.final Any [.addQueue ⟨1, "a", "b"⟩ 0]) ⟨2, "a", "b"⟩
        (dleynaTaskProcessorAddQueue (processor.final Any [.addQueue ⟨1, "a", "b"⟩ 0]) ⟨2, "a", "b"⟩
          0) ∧
      dleynaTaskProcessorLookupQueue (dleynaTaskProcessorAddQueue
        (processor.final Any [.addQueue ⟨1, "a", "b"⟩ 0]) ⟨2, "a", "b"⟩ 0) "a" "b" =
          some ⟨1, "a", "b"⟩ := by
  refine ⟨System.run_final (by decide), fun hA => ?_, by decide⟩
  have hf := hA.found
  have hl : dleynaTaskProcessorLookupQueue (dleynaTaskProcessorAddQueue
      (processor.final Any [.addQueue ⟨1, "a", "b"⟩ 0]) ⟨2, "a", "b"⟩ 0) "a" "b" =
        some ⟨1, "a", "b"⟩ := by decide
  rw [hl] at hf
  exact absurd hf (by decide)

end DleynaCore
