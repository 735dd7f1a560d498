import Mathlib.Data.List.Basic

/-!
# Key files

Files of keys with values, in named groups, as `GKeyFile` reads and writes them. What the library does
with the text of a file is left open: `KeyFileOps` are its functions, and `KeyFileLib` adds what they
are documented to do.
-/

namespace DleynaCore

/-- The functions of `GKeyFile`, on parsed files `κ` and on the contents `δ` of files. A getter yields
`none` when it sets its error: the key is missing, or its value does not parse. Lists are read and
written with a separator. `hasBoolean` and `hasStringList` tell whether the text that
`g_key_file_get_value` finds for the key is the one that is written for the value. -/
structure KeyFileOps (κ δ : Type) where
  getBoolean : κ → String → String → Option Bool
  getString : κ → String → String → Option String
  getUint64 : κ → String → String → Option UInt64
  getInteger : κ → String → String → Option Int
  getIntegerList : Char → κ → String → String → Option (List Int)
  getStringList : Char → κ → String → String → Option (List String)
  hasBoolean : κ → String → String → Bool → Bool
  hasStringList : Char → κ → String → String → List String → Bool
  setBoolean : κ → String → String → Bool → κ
  setStringList : Char → κ → String → String → List String → κ
  toData : κ → δ
  loadFromData : δ → Option κ

/-- Every getter reads the same value of the key in both files. -/
structure KeyFileOps.Agree {κ δ : Type} (ops : KeyFileOps κ δ) (kf kf' : κ) (group key : String) :
    Prop where
  boolean : ops.getBoolean kf group key = ops.getBoolean kf' group key
  string : ops.getString kf group key = ops.getString kf' group key
  uint64 : ops.getUint64 kf group key = ops.getUint64 kf' group key
  integer : ops.getInteger kf group key = ops.getInteger kf' group key
  integerList : ∀ c, ops.getIntegerList c kf group key = ops.getIntegerList c kf' group key
  stringList : ∀ c, ops.getStringList c kf group key = ops.getStringList c kf' group key

/-- The functions with their documented behaviour: a value that was set is read back, the other keys
keep theirs, a value that the key has already changes nothing, and a file that was written is loaded
with all its values. -/
structure KeyFileLib (κ δ : Type) extends KeyFileOps κ δ where
  getBoolean_setBoolean : ∀ kf group key b, getBoolean (setBoolean kf group key b) group key = some b
  setBoolean_other : ∀ kf group key b group' key', (group', key') ≠ (group, key) →
    toKeyFileOps.Agree (setBoolean kf group key b) kf group' key'
  getStringList_setStringList : ∀ c kf group key l,
    getStringList c (setStringList c kf group key l) group key = some l
  setStringList_other : ∀ c kf group key l group' key', (group', key') ≠ (group, key) →
    toKeyFileOps.Agree (setStringList c kf group key l) kf group' key'
  hasBoolean_setBoolean : ∀ kf group key b, hasBoolean (setBoolean kf group key b) group key b = true
  setBoolean_of_hasBoolean : ∀ kf group key b, hasBoolean kf group key b = true →
    setBoolean kf group key b = kf
  hasStringList_setStringList : ∀ c kf group key l,
    hasStringList c (setStringList c kf group key l) group key l = true
  setStringList_of_hasStringList : ∀ c kf group key l, hasStringList c kf group key l = true →
    setStringList c kf group key l = kf
  load_toData : ∀ kf, ∃ kf', loadFromData (toData kf) = some kf' ∧
    ∀ group key, toKeyFileOps.Agree kf' kf group key

namespace KeyFileLib

variable {κ δ : Type} (lib : KeyFileLib κ δ)

/-- Setting a boolean leaves the file as it is exactly if the key has its text. -/
theorem setBoolean_eq_iff (kf : κ) (group key : String) (b : Bool) :
    lib.setBoolean kf group key b = kf ↔ lib.hasBoolean kf group key b = true := by
  refine ⟨fun h => ?_, lib.setBoolean_of_hasBoolean kf group key b⟩
  rw [← h]
  exact lib.hasBoolean_setBoolean kf group key b

/-- Setting a list leaves the file as it is exactly if the key has its text. -/
theorem setStringList_eq_iff (c : Char) (kf : κ) (group key : String) (l : List String) :
    lib.setStringList c kf group key l = kf ↔ lib.hasStringList c kf group key l = true := by
  refine ⟨fun h => ?_, lib.setStringList_of_hasStringList c kf group key l⟩
  rw [← h]
  exact lib.hasStringList_setStringList c kf group key l

end KeyFileLib

/-! ## Files of separate values -/

/-- The text of a value in a file. A list is kept as its elements, with the separator that is written
between them. -/
inductive FileValue where
  | text (s : String)
  | list (separator : Char) (l : List String)
  deriving DecidableEq, Repr

namespace FileValue

/-- The elements of a list that is read with this separator. -/
def elements (separator : Char) : FileValue → Option (List String)
  | text s => some (if s = "" then [] else [s])
  | list c l => if c = separator then some l else none

/-- The text that is read as a single value. -/
def single : FileValue → Option String
  | text s => some s
  | list _ _ => none

/-- `true` and `1` are true, `false` and `0` are false. -/
def boolean (v : FileValue) : Option Bool :=
  v.single.bind fun s =>
    if s = "true" ∨ s = "1" then some true else if s = "false" ∨ s = "0" then some false else none

/-- A number that fits in 64 bits. -/
def uint64 (v : FileValue) : Option UInt64 :=
  (v.single.bind String.toNat?).bind fun n => if n ≤ 0xFFFFFFFFFFFFFFFF then some (UInt64.ofNat n) else none

/-- The text of a number that fits in a `gint`. -/
def toInteger (s : String) : Option Int :=
  s.toInt?.bind fun n => if -0x80000000 ≤ n ∧ n ≤ 0x7FFFFFFF then some n else none

end FileValue

/-- The values of a file. -/
abbrev FileValues := List ((String × String) × FileValue)

namespace FileValues

/-- The value of the key. -/
def value (kf : FileValues) (group key : String) : Option FileValue := kf.lookup (group, key)

/-- Give the key this value, in its place if the file has the key. -/
def setValue (group key : String) (v : FileValue) : FileValues → FileValues
  | [] => [((group, key), v)]
  | e :: kf => if e.1 = (group, key) then ((group, key), v) :: kf else e :: setValue group key v kf

theorem value_setValue (kf : FileValues) (group key : String) (v : FileValue) :
    (kf.setValue group key v).value group key = some v := by
  induction kf with
  | nil => simp [value, setValue]
  | cons e kf ih =>
    obtain ⟨k, v'⟩ := e
    unfold setValue
    split
    · simp [value]
    · next hne =>
      have hb : ((group, key) == k) = false := by simpa using Ne.symm hne
      simpa [value, List.lookup_cons, hb] using ih

theorem value_setValue_other (kf : FileValues) {group key group' key' : String} (v : FileValue)
    (h : (group', key') ≠ (group, key)) :
    (kf.setValue group key v).value group' key' = kf.value group' key' := by
  have hne : ((group', key') == (group, key)) = false := by simpa using h
  induction kf with
  | nil => simp [value, setValue, List.lookup_cons, hne]
  | cons e kf ih =>
    obtain ⟨k, v'⟩ := e
    unfold setValue
    split
    · next hk =>
      have hk : k = (group, key) := hk
      simp [value, List.lookup_cons, hk, hne]
    · simp only [value, List.lookup_cons] at ih ⊢
      split
      · rfl
      · exact ih

/-- A value that the key has already is set in its place. -/
theorem setValue_of_value {kf : FileValues} {group key : String} {v : FileValue}
    (h : kf.value group key = some v) : kf.setValue group key v = kf := by
  induction kf with
  | nil => cases h
  | cons e kf ih =>
    obtain ⟨k, v'⟩ := e
    unfold setValue
    split
    · next hk =>
      have hk : k = (group, key) := hk
      subst hk
      obtain rfl : v' = v := by simpa [value] using h
      rfl
    · next hne =>
      have hb : ((group, key) == k) = false := by simpa using Ne.symm hne
      rw [ih (by simpa [value, List.lookup_cons, hb] using h)]

/-- The text of a boolean. -/
def booleanValue (b : Bool) : FileValue := .text (if b then "true" else "false")

/-- Files that are loaded and written as their values. -/
def ops : KeyFileOps FileValues FileValues where
  getBoolean kf group key := (kf.value group key).bind FileValue.boolean
  getString kf group key := (kf.value group key).bind FileValue.single
  getUint64 kf group key := (kf.value group key).bind FileValue.uint64
  getInteger kf group key :=
    ((kf.value group key).bind FileValue.single).bind FileValue.toInteger
  getIntegerList c kf group key :=
    ((kf.value group key).bind (FileValue.elements c)).bind fun l => l.mapM FileValue.toInteger
  getStringList c kf group key := (kf.value group key).bind (FileValue.elements c)
  hasBoolean kf group key b := kf.value group key = some (booleanValue b)
  hasStringList c kf group key l := kf.value group key = some (.list c l)
  setBoolean kf group key b := kf.setValue group key (booleanValue b)
  setStringList c kf group key l := kf.setValue group key (.list c l)
  toData kf := kf
  loadFromData kf := some kf

theorem agree_of_value {kf kf' : FileValues} {group key : String}
    (h : kf.value group key = kf'.value group key) : ops.Agree kf kf' group key := by
  constructor <;> simp [ops, h]

/-- Such files are key files. -/
def lib : KeyFileLib FileValues FileValues where
  toKeyFileOps := ops
  getBoolean_setBoolean kf group key b := by
    cases b <;> simp [ops, value_setValue, booleanValue, FileValue.boolean, FileValue.single]
  setBoolean_other kf group key b group' key' h := agree_of_value (value_setValue_other kf _ h)
  getStringList_setStringList c kf group key l := by
    simp [ops, value_setValue, FileValue.elements]
  setStringList_other c kf group key l group' key' h := agree_of_value (value_setValue_other kf _ h)
  hasBoolean_setBoolean kf group key b := by simp [ops, value_setValue]
  setBoolean_of_hasBoolean kf group key b h := setValue_of_value (of_decide_eq_true h)
  hasStringList_setStringList c kf group key l := by simp [ops, value_setValue]
  setStringList_of_hasStringList c kf group key l h := setValue_of_value (of_decide_eq_true h)
  load_toData kf := ⟨kf, rfl, fun _ _ => agree_of_value rfl⟩

end FileValues

end DleynaCore
