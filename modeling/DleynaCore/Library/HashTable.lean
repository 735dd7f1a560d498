import Mathlib.Data.List.Nodup
import Mathlib.Data.List.Perm.Basic
import Mathlib.Data.List.Perm.Subperm

/-!
# Hash tables with a traversal order

A finite map whose stored keys are compared through an index `idx` (what the equality callback of
the table looks at), kept in the order in which a traversal visits its entries. Changing a value
leaves the entry in its place, which is why this is not `AList`.
-/

namespace DleynaCore

/-- A table of `(key, value)` entries, no two of whose keys have the same index. -/
@[ext]
structure HashTable (κ ι ν : Type) (idx : κ → ι) where
  /-- The entries, in traversal order. -/
  entries : List (κ × ν)
  /-- No two keys compare equal. -/
  nodup : (entries.map fun e => idx e.1).Nodup

namespace HashTable

variable {κ ι ν : Type} {idx : κ → ι}

/-- The empty table. -/
def empty : HashTable κ ι ν idx := ⟨[], by simp⟩

/-- The keys, in traversal order. -/
def keys (T : HashTable κ ι ν idx) : List κ := T.entries.map Prod.fst

/-- The number of entries. -/
def size (T : HashTable κ ι ν idx) : Nat := T.entries.length

theorem keys_nodup (T : HashTable κ ι ν idx) : T.keys.Nodup := by
  have h := T.nodup
  rw [show (fun e : κ × ν => idx e.1) = idx ∘ Prod.fst from rfl, ← List.map_map] at h
  exact h.of_map idx

variable [DecidableEq κ]

/-- The value stored under exactly the key `k`. -/
def find? (T : HashTable κ ι ν idx) (k : κ) : Option ν :=
  (T.entries.find? fun e => decide (e.1 = k)).map Prod.snd

/-- Change the value stored under `k`, in place. -/
def modify (T : HashTable κ ι ν idx) (k : κ) (f : ν → ν) : HashTable κ ι ν idx where
  entries := T.entries.map fun e => if e.1 = k then (e.1, f e.2) else e
  nodup := by
    have h : ((T.entries.map fun e => if e.1 = k then (e.1, f e.2) else e).map fun e => idx e.1)
        = T.entries.map fun e => idx e.1 := by
      rw [List.map_map]
      refine List.map_congr_left fun e _ => ?_
      simp only [Function.comp]
      split <;> rfl
    rw [h]
    exact T.nodup

/-- Drop the entry of `k`. -/
def erase (T : HashTable κ ι ν idx) (k : κ) : HashTable κ ι ν idx where
  entries := T.entries.filter fun e => decide (e.1 ≠ k)
  nodup := T.nodup.sublist (List.filter_sublist.map _)

/-- The entry whose key has index `i`. -/
def lookup [DecidableEq ι] (T : HashTable κ ι ν idx) (i : ι) : Option (κ × ν) :=
  T.entries.find? fun e => decide (idx e.1 = i)

omit [DecidableEq κ] in
theorem lookup_eq_none [DecidableEq ι] {T : HashTable κ ι ν idx} {i : ι} :
    T.lookup i = none ↔ i ∉ T.entries.map fun e => idx e.1 := by
  simp [lookup]

/-- Insert `v` under a key equal to no stored one, at the end of the traversal order. -/
def insertNew [DecidableEq ι] (T : HashTable κ ι ν idx) (k : κ) (v : ν)
    (h : T.lookup (idx k) = none) : HashTable κ ι ν idx where
  entries := T.entries ++ [(k, v)]
  nodup := by
    rw [List.map_append, List.nodup_append]
    refine ⟨T.nodup, by simp, fun i hi j hj => ?_⟩
    have hj' : j = idx k := by simpa using hj
    rintro rfl
    exact lookup_eq_none.mp h (hj' ▸ hi)

/-! ## Lookup -/

omit [DecidableEq κ] in
/-- The entry that is found is in the table, and its key compares equal. -/
theorem of_lookup_eq_some [DecidableEq ι] {T : HashTable κ ι ν idx} {i : ι} {e : κ × ν}
    (h : T.lookup i = some e) : e ∈ T.entries ∧ idx e.1 = i := by
  unfold lookup at h
  have hindex := List.find?_some h
  exact ⟨List.mem_of_find?_eq_some h, of_decide_eq_true hindex⟩

theorem find?_eq_some {T : HashTable κ ι ν idx} {k : κ} {v : ν} :
    T.find? k = some v ↔ (k, v) ∈ T.entries := by
  constructor
  · intro h
    obtain ⟨⟨k', v'⟩, he, rfl⟩ := Option.map_eq_some_iff.mp h
    have hk : k' = k := by simpa using List.find?_some he
    exact hk ▸ List.mem_of_find?_eq_some he
  · intro h
    cases hf : T.entries.find? fun e => decide (e.1 = k) with
    | none => exact absurd (List.find?_eq_none.mp hf _ h) (by simp)
    | some e =>
      have hk : e.1 = k := by simpa using List.find?_some hf
      have : e = (k, v) :=
        List.inj_on_of_nodup_map T.keys_nodup (List.mem_of_find?_eq_some hf) h (by simpa using hk)
      simp [find?, hf, this]

theorem find?_eq_none {T : HashTable κ ι ν idx} {k : κ} : T.find? k = none ↔ k ∉ T.keys := by
  simp only [find?, Option.map_eq_none_iff, List.find?_eq_none, decide_eq_true_eq, keys,
    List.mem_map, not_exists, not_and]

theorem mem_keys {T : HashTable κ ι ν idx} {k : κ} : k ∈ T.keys ↔ ∃ v, T.find? k = some v := by
  simp [keys, find?_eq_some]

@[simp] theorem find?_empty (k : κ) : (empty : HashTable κ ι ν idx).find? k = none := rfl

theorem find?_modify (T : HashTable κ ι ν idx) (k k' : κ) (f : ν → ν) :
    (T.modify k f).find? k' = if k' = k then (T.find? k).map f else T.find? k' := by
  unfold find? modify
  simp only [List.find?_map]
  split
  · next h =>
    subst h
    rw [show ((fun e : κ × ν => decide (e.1 = k')) ∘
        fun e => if e.1 = k' then (e.1, f e.2) else e) = fun e => decide (e.1 = k') by
      funext e; simp only [Function.comp]; split <;> simp_all]
    cases hf : T.entries.find? fun e => decide (e.1 = k') with
    | none => rfl
    | some e => simp [show e.1 = k' by simpa using List.find?_some hf]
  · next h =>
    rw [show ((fun e : κ × ν => decide (e.1 = k')) ∘
        fun e => if e.1 = k then (e.1, f e.2) else e) = fun e => decide (e.1 = k') by
      funext e; simp only [Function.comp]; split <;> rfl]
    cases hf : T.entries.find? fun e => decide (e.1 = k') with
    | none => rfl
    | some e =>
      have hk : e.1 = k' := by simpa using List.find?_some hf
      simp [hk, h]

theorem find?_erase (T : HashTable κ ι ν idx) (k k' : κ) :
    (T.erase k).find? k' = if k' = k then none else T.find? k' := by
  split
  · next h =>
    subst h
    rw [find?_eq_none]
    simp [keys, erase]
  · next h =>
    apply Option.ext
    intro v
    rw [find?_eq_some, find?_eq_some]
    simp [erase, h]

theorem find?_erase_of_ne (T : HashTable κ ι ν idx) {k k' : κ} (h : k' ≠ k) :
    (T.erase k).find? k' = T.find? k' := by
  simp [find?_erase, h]

theorem find?_insertNew [DecidableEq ι] (T : HashTable κ ι ν idx) (k k' : κ) (v : ν)
    (h : T.lookup (idx k) = none) :
    (T.insertNew k v h).find? k' = if k' = k then some v else T.find? k' := by
  have hk : k ∉ T.keys := fun hm => by
    obtain ⟨e, he, rfl⟩ := List.mem_map.mp hm
    exact lookup_eq_none.mp h (List.mem_map.mpr ⟨e, he, rfl⟩)
  split
  · next hkk =>
    subst hkk
    exact find?_eq_some.mpr (by simp [insertNew])
  · next hkk =>
    apply Option.ext
    intro w
    rw [find?_eq_some, find?_eq_some]
    simp [insertNew, hkk]

omit [DecidableEq κ] in
theorem lookup_insertNew [DecidableEq ι] (T : HashTable κ ι ν idx) (k : κ) (v : ν)
    (h : T.lookup (idx k) = none) : (T.insertNew k v h).lookup (idx k) = some (k, v) := by
  show (T.entries ++ [(k, v)]).find? (fun e => decide (idx e.1 = idx k)) = _
  have h : T.entries.find? (fun e => decide (idx e.1 = idx k)) = none := h
  rw [List.find?_append, h]
  simp

/-- Insert `v`, under the stored key if one compares equal to `k`. -/
def insert [DecidableEq ι] (T : HashTable κ ι ν idx) (k : κ) (v : ν) : HashTable κ ι ν idx :=
  match h : T.lookup (idx k) with
  | none => T.insertNew k v h
  | some e => T.modify e.1 fun _ => v

/-- Where only equal keys compare equal, the value is found under its own key. -/
theorem find?_insert [DecidableEq ι] (hidx : Function.Injective idx) (T : HashTable κ ι ν idx) (k k' : κ)
    (v : ν) : (T.insert k v).find? k' = if k' = k then some v else T.find? k' := by
  unfold insert
  split
  · next h => exact find?_insertNew T k k' v h
  · next e h =>
    obtain ⟨hmem, hindex⟩ := of_lookup_eq_some h
    have hk : e.1 = k := hidx hindex
    have hstored : T.find? k = some e.2 := find?_eq_some.mpr (hk ▸ hmem)
    rw [hk, find?_modify, hstored, Option.map_some]

theorem size_eq_zero {T : HashTable κ ι ν idx} : T.size = 0 ↔ ∀ k, T.find? k = none := by
  rw [size, List.length_eq_zero_iff]
  constructor
  · intro h k
    rw [find?_eq_none, keys, h]
    simp
  · intro h
    refine List.eq_nil_iff_forall_not_mem.mpr fun e he => ?_
    have hsome : T.find? e.1 = some e.2 := find?_eq_some.mpr he
    rw [h] at hsome
    cases hsome

theorem keys_modify (T : HashTable κ ι ν idx) (k : κ) (f : ν → ν) :
    (T.modify k f).keys = T.keys := by
  unfold keys modify
  rw [List.map_map]
  refine List.map_congr_left fun e _ => ?_
  simp only [Function.comp]
  split <;> rfl

theorem find?_perm {T T' : HashTable κ ι ν idx} (h : T'.entries.Perm T.entries) (k : κ) :
    T'.find? k = T.find? k := by
  apply Option.ext
  intro v
  rw [find?_eq_some, find?_eq_some, h.mem_iff]

/-! ## Counting entries -/

/-- The number of values that satisfy `p`. -/
def count (T : HashTable κ ι ν idx) (p : ν → Bool) : Nat := T.entries.countP fun e => p e.2

omit [DecidableEq κ] in
theorem count_le_size (T : HashTable κ ι ν idx) (p : ν → Bool) : T.count p ≤ T.size :=
  List.countP_le_length

/-- The entries split around the one of `k`. -/
theorem entries_split {T : HashTable κ ι ν idx} {k : κ} {v : ν} (h : T.find? k = some v) :
    ∃ pre post, T.entries = pre ++ (k, v) :: post ∧ k ∉ pre.map Prod.fst ∧
      k ∉ post.map Prod.fst := by
  obtain ⟨pre, post, he⟩ := List.append_of_mem (find?_eq_some.mp h)
  have hn := T.keys_nodup
  unfold keys at hn
  rw [he, List.map_append, List.map_cons, List.nodup_append, List.nodup_cons] at hn
  exact ⟨pre, post, he, fun hm => hn.2.2 k hm k (by simp) rfl, hn.2.1.1⟩

/-- Dropping an entry takes its value out of the count. -/
theorem count_erase {T : HashTable κ ι ν idx} {k : κ} {v : ν} (h : T.find? k = some v)
    (p : ν → Bool) : (T.erase k).count p + (p v).toNat = T.count p := by
  obtain ⟨pre, post, he, h1, h2⟩ := entries_split h
  have hf : ∀ l : List (κ × ν), k ∉ l.map Prod.fst → l.filter (fun e => decide (e.1 ≠ k)) = l := by
    intro l hl
    refine List.filter_eq_self.mpr fun e he => ?_
    simpa using fun hk : e.1 = k => hl (hk ▸ List.mem_map_of_mem he)
  unfold count erase
  simp only [he, List.filter_append, List.filter_cons, hf pre h1, hf post h2, ne_eq, not_true,
    decide_false, Bool.false_eq_true, if_false, List.countP_append, List.countP_cons]
  cases p v <;> simp
  omega

theorem count_eq_zero {T : HashTable κ ι ν idx} {p : ν → Bool} :
    T.count p = 0 ↔ ∀ k v, T.find? k = some v → p v = false := by
  simp only [count, List.countP_eq_zero, find?_eq_some]
  exact ⟨fun h k v hm => by simpa using h _ hm, fun h e he => by simpa using h e.1 e.2 he⟩

/-- The keys whose values satisfy `p`. -/
def keysWhere (T : HashTable κ ι ν idx) (p : ν → Bool) : List κ :=
  (T.entries.filter fun e => p e.2).map Prod.fst

omit [DecidableEq κ] in
theorem length_keysWhere (T : HashTable κ ι ν idx) (p : ν → Bool) :
    (T.keysWhere p).length = T.count p := by
  simp [keysWhere, count, List.countP_eq_length_filter]

omit [DecidableEq κ] in
theorem keysWhere_nodup (T : HashTable κ ι ν idx) (p : ν → Bool) : (T.keysWhere p).Nodup :=
  T.keys_nodup.sublist (List.filter_sublist.map _)

theorem mem_keysWhere {T : HashTable κ ι ν idx} {p : ν → Bool} {k : κ} :
    k ∈ T.keysWhere p ↔ (T.find? k).any p = true := by
  simp only [keysWhere, List.mem_map, List.mem_filter, Option.any_eq_true, find?_eq_some]
  constructor
  · rintro ⟨⟨k', v⟩, ⟨hm, hp⟩, rfl⟩
    exact ⟨v, hm, hp⟩
  · rintro ⟨v, hm, hp⟩
    exact ⟨(k, v), ⟨hm, hp⟩, rfl⟩

/-- When every other key keeps its standing, the count changes by the key alone. -/
theorem count_eq_of_find?_ne {T T' : HashTable κ ι ν idx} {p : ν → Bool} (k : κ)
    (h : ∀ k', k' ≠ k → (T'.find? k').any p = (T.find? k').any p) :
    T'.count p + ((T.find? k).any p).toNat = T.count p + ((T'.find? k).any p).toNat := by
  have hperm : ((T'.keysWhere p).erase k).Perm ((T.keysWhere p).erase k) := by
    refine (List.perm_ext_iff_of_nodup ((T'.keysWhere_nodup p).erase k)
      ((T.keysWhere_nodup p).erase k)).mpr fun k' => ?_
    rw [(T'.keysWhere_nodup p).mem_erase_iff, (T.keysWhere_nodup p).mem_erase_iff, mem_keysWhere,
      mem_keysWhere]
    exact and_congr_right fun hk => by rw [h k' hk]
  have hlen : ∀ T : HashTable κ ι ν idx,
      ((T.keysWhere p).erase k).length + ((T.find? k).any p).toNat = T.count p := by
    intro T
    rw [← length_keysWhere, List.length_erase]
    cases hk : (T.find? k).any p with
    | true =>
      have hm := mem_keysWhere.mpr hk
      have := List.length_pos_of_mem hm
      rw [if_pos hm, Bool.toNat_true]
      omega
    | false =>
      have hm : k ∉ T.keysWhere p := fun hm => by simp [mem_keysWhere, hk] at hm
      rw [if_neg hm, Bool.toNat_false, Nat.add_zero]
  have h1 := hlen T
  have h2 := hlen T'
  have h3 := hperm.length_eq
  omega

theorem count_eq_of_find? {T T' : HashTable κ ι ν idx} {p : ν → Bool}
    (h : ∀ k, (T'.find? k).any p = (T.find? k).any p) : T'.count p = T.count p := by
  have hperm : (T'.keysWhere p).Perm (T.keysWhere p) :=
    (List.perm_ext_iff_of_nodup (T'.keysWhere_nodup p) (T.keysWhere_nodup p)).mpr fun k => by
      rw [mem_keysWhere, mem_keysWhere, h k]
  rw [← length_keysWhere, ← length_keysWhere, hperm.length_eq]

/-- A table with fewer keys is smaller. -/
theorem size_le_of_find? {T T' : HashTable κ ι ν idx}
    (h : ∀ k, T.find? k = none → T'.find? k = none) : T'.size ≤ T.size := by
  have hsub : T'.keys ⊆ T.keys := by
    intro k hk
    by_contra hn
    exact find?_eq_none.mp (h k (find?_eq_none.mpr hn)) hk
  have := (T'.keys_nodup.subperm hsub).length_le
  simpa [keys, size] using this

/-! ## Adding up values -/

/-- The sum of `f` over the values. -/
def total (T : HashTable κ ι ν idx) (f : ν → Nat) : Nat := T.entries.foldr (fun e n => f e.2 + n) 0

omit [DecidableEq κ] in
theorem foldr_append_add (f : ν → Nat) (pre post : List (κ × ν)) :
    (pre ++ post).foldr (fun e n => f e.2 + n) 0 =
      pre.foldr (fun e n => f e.2 + n) 0 + post.foldr (fun e n => f e.2 + n) 0 := by
  induction pre with
  | nil => simp
  | cons e pre ih => rw [List.cons_append, List.foldr_cons, ih, List.foldr_cons, Nat.add_assoc]

/-- The sum depends only on what `f` makes of the values. -/
theorem total_eq_of_find? {T T' : HashTable κ ι ν idx} {f : ν → Nat}
    (h : ∀ k, (T'.find? k).map f = (T.find? k).map f) : T'.total f = T.total f := by
  have hkeys : ∀ T : HashTable κ ι ν idx,
      ((T.entries.map fun e => (e.1, f e.2)).map Prod.fst).Nodup := by
    intro T
    rw [List.map_map]
    exact T.keys_nodup
  have hmem : ∀ T : HashTable κ ι ν idx, ∀ x : κ × Nat,
      x ∈ T.entries.map (fun e => (e.1, f e.2)) ↔ (T.find? x.1).map f = some x.2 := by
    rintro T ⟨k, n⟩
    simp only [List.mem_map, Prod.mk.injEq, Option.map_eq_some_iff, find?_eq_some]
    constructor
    · rintro ⟨⟨k', v⟩, hv, rfl, rfl⟩
      exact ⟨v, hv, rfl⟩
    · rintro ⟨v, hv, rfl⟩
      exact ⟨(k, v), hv, rfl, rfl⟩
  have hperm : (T'.entries.map fun e => (e.1, f e.2)).Perm (T.entries.map fun e => (e.1, f e.2)) :=
    (List.perm_ext_iff_of_nodup (hkeys T').of_map (hkeys T).of_map).mpr fun x => by
      rw [hmem, hmem, h]
  have hsum : ∀ l : List (κ × ν),
      l.foldr (fun e n => f e.2 + n) 0 = ((l.map fun e => (e.1, f e.2)).map Prod.snd).sum := by
    intro l
    induction l with
    | nil => rfl
    | cons e l ih => rw [List.foldr_cons, ih, List.map_cons, List.map_cons, List.sum_cons]
  rw [total, total, hsum, hsum]
  exact List.Perm.sum_nat (hperm.map Prod.snd)

/-- The sum, the value of one key taken out. -/
theorem total_erase (T : HashTable κ ι ν idx) (k : κ) (f : ν → Nat) :
    (T.erase k).total f + ((T.find? k).map f).getD 0 = T.total f := by
  cases hk : T.find? k with
  | none =>
    have hsame : (T.erase k).total f = T.total f := by
      refine total_eq_of_find? fun k' => ?_
      rw [find?_erase]
      split
      · next h => rw [h, hk]
      · rfl
    simpa using hsame
  | some v =>
    obtain ⟨pre, post, he, h1, h2⟩ := entries_split hk
    have hf : ∀ l : List (κ × ν), k ∉ l.map Prod.fst →
        l.filter (fun e => decide (e.1 ≠ k)) = l := by
      intro l hl
      refine List.filter_eq_self.mpr fun e he => ?_
      simpa using fun hk : e.1 = k => hl (hk ▸ List.mem_map_of_mem he)
    unfold total erase
    simp only [he, List.filter_append, List.filter_cons, hf pre h1, hf post h2, ne_eq, not_true,
      decide_false, Bool.false_eq_true, if_false, foldr_append_add, List.foldr_cons, Option.map_some,
      Option.getD_some]
    omega

/-- When every other key keeps its value, the sum changes by the key alone. -/
theorem total_eq_of_find?_ne {T T' : HashTable κ ι ν idx} {f : ν → Nat} (k : κ)
    (h : ∀ k', k' ≠ k → (T'.find? k').map f = (T.find? k').map f) :
    T'.total f + ((T.find? k).map f).getD 0 = T.total f + ((T'.find? k).map f).getD 0 := by
  have hrest : (T'.erase k).total f = (T.erase k).total f := by
    refine total_eq_of_find? fun k' => ?_
    rw [find?_erase, find?_erase]
    split
    · rfl
    · next hk => exact h k' hk
  have h1 := total_erase T k f
  have h2 := total_erase T' k f
  omega

end HashTable

end DleynaCore
