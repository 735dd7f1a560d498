import DleynaCore.Udn.Proofs.ConvertProofs

/-!
# What the conversion writes

When all characters fit, the string left in the buffer is the concatenation of their conversions.
Reading the escapes in it does not give back the string, which may have contained escapes itself: it
gives the string with those read too, and that determines the conversion.
-/

namespace DleynaCore

variable {n i j : Nat} {c : UInt8} {cs text udn out : List UInt8} {stores written : List (Nat × UInt8)}

/-! ## Reading the buffer -/

theorem byteAt?_append : byteAt? (stores ++ written) j = (byteAt? written j).or (byteAt? stores j) := by
  unfold byteAt?
  rw [List.reverse_append, List.find?_append]
  cases List.find? (fun s => decide (s.1 = j)) written.reverse <;> rfl

theorem byteAt?_storesAt : byteAt? (storesAt i text) j = if i ≤ j then text[j - i]? else none := by
  induction text generalizing i with
  | nil => simp [storesAt, byteAt?]
  | cons c cs ih =>
    rw [storesAt, ← List.singleton_append, byteAt?_append, ih]
    rcases Nat.lt_trichotomy i j with h | rfl | h
    · rw [if_pos (Nat.succ_le_of_lt h), if_pos h.le, show j - i = (j - (i + 1)) + 1 by omega,
        List.getElem?_cons_succ]
      simp [byteAt?, h.ne]
    · rw [if_neg (Nat.not_succ_le_self i), if_pos (le_refl i)]
      simp [byteAt?]
    · rw [if_neg (by omega), if_neg (by omega)]
      simp [byteAt?, h.ne']

/-- The bytes stored below the index `i` are `out`. -/
structure Holds (stores : List (Nat × UInt8)) (i : Nat) (out : List UInt8) : Prop where
  length : out.length = i
  bytes : ∀ j < i, byteAt? stores j = out[j]?

/-- Text written at the index, whatever is stored behind it. -/
theorem Holds.write (h : Holds stores i out) (text rest : List UInt8) :
    Holds (stores ++ storesAt i (text ++ rest)) (i + text.length) (out ++ text) where
  length := by rw [List.length_append, h.length]
  bytes := by
    intro j hj
    rw [byteAt?_append, byteAt?_storesAt]
    by_cases hij : i ≤ j
    · have hlt : j - i < text.length := by omega
      rw [if_pos hij, List.getElem?_append_left hlt,
        List.getElem?_append_right (by rw [h.length]; exact hij), h.length,
        List.getElem?_eq_getElem hlt]
      rfl
    · rw [if_neg hij, List.getElem?_append_left (by rw [h.length]; omega)]
      exact h.bytes j (by omega)

/-- The loop writes the conversions of the characters one behind the other. -/
theorem convertLoop_holds (destLen : Nat) (udn : List UInt8) (h : Holds stores i out) (hw : i + width udn ≤ destLen) :
    ∃ stores', convertLoop destLen udn i stores = (i + width udn, stores') ∧
      Holds stores' (i + width udn) (out ++ udn.flatMap convertChar) := by
  induction udn generalizing i stores out with
  | nil => exact ⟨stores, rfl, by simpa using h⟩
  | cons c udn ih =>
    have hpos := charWidth_pos c
    rw [width_cons, ← Nat.add_assoc] at hw ⊢
    rw [convertLoop, if_pos (by omega), List.flatMap_cons, ← List.append_assoc]
    cases hc : copied c with
    | true =>
      have hcw : charWidth c = 1 := by simp [charWidth, hc]
      rw [hcw] at hw ⊢
      have h1 : Holds (stores ++ [(i, c)]) (i + 1) (out ++ convertChar c) := by
        have hw := h.write [c] []
        simpa [convertChar, hc, storesAt] using hw
      exact ih h1 hw
    | false =>
      have hcw := charWidth_escape hc
      rw [← hcw] at hw ⊢
      have htake : (escape c).take destLen = escape c := List.take_of_length_le (by omega)
      have h1 : Holds (stores ++ (gSnprintf i (destLen + 1) (escape c)).1) (i + (escape c).length)
          (out ++ convertChar c) := by
        rw [gSnprintf, if_neg (by omega), Nat.add_sub_cancel, htake, convertChar, hc]
        exact h.write (escape c) [0]
      exact ih h1 hw

theorem convertChar_ne_zero_lt : ∀ n < 256, n ≠ 0 → 0 ∉ convertChar n.toUInt8 := by
  decide +kernel

theorem convertChar_ne_zero (h : c ≠ 0) : 0 ∉ convertChar c := by
  have := convertChar_ne_zero_lt c.toNat (UInt8.toNat_lt_size c)
    fun h0 => h (UInt8.toNat_inj.mp (by simpa using h0))
  rwa [show c.toNat.toUInt8 = c from UInt8.ofNat_toNat] at this

/-- Reading the buffer gives what was stored before the terminator. -/
theorem readFrom_eq {b : Buffer} (h0 : 0 ∉ cs) (hb : ∀ m < cs.length, b.byte? (j + m) = cs[m]?)
    (hend : b.byte? (j + cs.length) = some 0) (hn : cs.length < n) : b.readFrom n j = cs := by
  induction cs generalizing n j with
  | nil =>
    cases n with
    | zero => rfl
    | succ n =>
      rw [List.length_nil, Nat.add_zero] at hend
      simp [Buffer.readFrom, hend]
  | cons c cs ih =>
    obtain ⟨hc, h0⟩ := not_or.mp (mt List.mem_cons.mpr h0)
    cases n with
    | zero => omega
    | succ n =>
      have hj : b.byte? j = some c := by simpa using hb 0 (by simp)
      have hrest : b.readFrom n (j + 1) = cs := by
        refine ih h0 (fun m hm => ?_) ?_ (by simpa using hn)
        · rw [Nat.add_assoc, Nat.add_comm 1 m]
          exact (hb (m + 1) (by simpa using hm)).trans List.getElem?_cons_succ
        · rw [Nat.add_assoc, Nat.add_comm 1]
          exact hend
      simp only [Buffer.readFrom, hj, if_neg (Ne.symm hc), hrest]

/-- The string in the buffer, when the loop has converted the characters `p` and they fit. -/
theorem string_of_loop {udn : CString} {p : List UInt8} (hp : p <+: udn.bytes)
    (hl : convertLoop (destLen udn) udn.bytes 0 [] = (width p, stores))
    (hh : Holds stores (width p) (p.flatMap convertChar)) (hw : width p ≤ destLen udn) :
    (dleynaCorePrvConvertUdnToPath udn).string = p.flatMap convertChar := by
  have hbyte : ∀ j, (dleynaCorePrvConvertUdnToPath udn).byte? j =
      byteAt? (stores ++ [(width p, 0)]) j := by
    intro j
    rw [dleynaCorePrvConvertUdnToPath, hl]
    rfl
  have h0 : 0 ∉ p.flatMap convertChar := by
    intro hm
    obtain ⟨c, hc, hm⟩ := List.mem_flatMap.mp hm
    exact convertChar_ne_zero (fun h => udn.noNul (h ▸ hp.subset hc)) hm
  have hlen := hh.length
  refine readFrom_eq h0 (fun m hm => ?_) ?_ ?_
  · have hne : ¬ width p = m := by omega
    rw [Nat.zero_add, hbyte, byteAt?_append, ← hh.bytes m (by omega)]
    simp [byteAt?, hne]
  · rw [Nat.zero_add, hbyte, byteAt?_append, hlen]
    simp [byteAt?]
  · rw [hlen]
    exact Nat.lt_succ_of_le hw

theorem holds_nil : Holds [] 0 [] := ⟨rfl, fun j hj => absurd hj (Nat.not_lt_zero j)⟩

/-- When all characters fit, the string in the buffer is the concatenation of their conversions. -/
theorem convert_string {udn : CString} (h : width udn.bytes ≤ destLen udn) :
    (dleynaCorePrvConvertUdnToPath udn).string = udn.bytes.flatMap convertChar := by
  obtain ⟨stores, hl, hh⟩ := convertLoop_holds (destLen udn) udn.bytes holds_nil (by simpa using h)
  rw [List.nil_append, Nat.zero_add] at hh
  rw [Nat.zero_add] at hl
  exact string_of_loop (List.prefix_refl _) hl hh h

/-! ## Unique decoding -/

theorem width_le (h : ∀ c ∈ cs, c < 128) : width cs ≤ cs.length * 3 := by
  induction cs with
  | nil => simp
  | cons c cs ih =>
    have h1 := ih fun c' hc' => h c' (List.mem_cons_of_mem _ hc')
    have h2 : charWidth c ≤ 3 := by
      unfold charWidth
      rw [if_pos (h c List.mem_cons_self)]
      split <;> omega
    rw [width_cons, List.length_cons]
    omega

/-- The path of a string of 7-bit characters. -/
theorem convert_ascii {udn : CString} (h : udn.IsAscii) (hf : udn.Fits) :
    (dleynaCorePrvConvertUdnToPath udn).string = udn.bytes.flatMap convertChar := by
  refine convert_string ((width_le h).trans ?_)
  rw [destLen, Nat.min_eq_left hf]
  exact le_refl _

/-- The two digits of a 7-bit character are copied themselves, and are not `_`. -/
theorem escape_ascii_lt : ∀ n < 128, (escape n.toUInt8).length = 3 ∧
    ∀ d ∈ (escape n.toUInt8).tail, copied d = true ∧ d ≠ underscore := by
  decide +kernel

theorem escaped?_escape_lt : ∀ n < 128, copied n.toUInt8 = false →
    escaped? (escape n.toUInt8) = some n.toUInt8 := by
  decide +kernel

theorem escaped?_escape (h : c < 128) (hc : copied c = false) : escaped? (escape c) = some c := by
  have hn : c.toNat.toUInt8 = c := UInt8.ofNat_toNat
  have h1 := escaped?_escape_lt c.toNat (UInt8.lt_iff_toNat_lt.mp h)
  rw [hn] at h1
  exact h1 hc

theorem escaped?_eq_some (h : escaped? text = some c) :
    c < 128 ∧ copied c = false ∧ escape c = text := by
  obtain ⟨n, hn, rfl⟩ := List.mem_map.mp (List.mem_of_find?_eq_some h)
  have hp := List.find?_some h
  simp only [Bool.and_eq_true, Bool.not_eq_true', beq_iff_eq] at hp
  refine ⟨UInt8.lt_iff_toNat_lt.mpr ?_, hp⟩
  have := List.mem_range.mp hn
  rw [Nat.toUInt8, UInt8.toNat_ofNat']
  exact lt_of_le_of_lt (Nat.mod_le _ _) this

/-- The escape of a 7-bit character. -/
theorem escape_ascii (h : c < 128) : ∃ x y, escape c = [underscore, x, y] ∧
    (copied x = true ∧ x ≠ underscore) ∧ copied y = true ∧ y ≠ underscore := by
  obtain ⟨hlen, hd⟩ := escape_ascii_lt c.toNat (UInt8.lt_iff_toNat_lt.mp h)
  rw [show c.toNat.toUInt8 = c from UInt8.ofNat_toNat] at hlen hd
  obtain ⟨x, y, hxy⟩ := List.length_eq_two.mp (Nat.succ.inj hlen : (formatHex (promote c)).length = 2)
  refine ⟨x, y, by rw [escape, hxy], hd x ?_, hd y ?_⟩ <;> simp [escape, hxy]

/-- No escape is written out at the front of the string `a :: cs`. -/
def NoEscape (a : UInt8) (cs : List UInt8) : Prop :=
  ∀ b c cs', cs = b :: c :: cs' → escaped? [a, b, c] = none

/-- A string is read from the front: an escape, or a character that begins none. -/
theorem readEscapes_induction {P : List UInt8 → Prop} (nil : P [])
    (esc : ∀ c cs, c < 128 → copied c = false → P cs → P (escape c ++ cs))
    (other : ∀ a cs, NoEscape a cs → P cs → P (a :: cs)) (cs : List UInt8) : P cs := by
  induction hn : cs.length using Nat.strong_induction_on generalizing cs with
  | _ n ih =>
    cases cs with
    | nil => exact nil
    | cons a cs =>
      rw [List.length_cons] at hn
      by_cases h : NoEscape a cs
      · exact other a cs h (ih cs.length (by omega) cs rfl)
      · simp only [NoEscape, not_forall] at h
        obtain ⟨b, c, cs', rfl, h⟩ := h
        obtain ⟨d, hd⟩ := Option.ne_none_iff_exists'.mp h
        obtain ⟨hd7, hdc, he⟩ := escaped?_eq_some hd
        rw [List.length_cons, List.length_cons] at hn
        have h1 := esc d cs' hd7 hdc (ih cs'.length (by omega) cs' rfl)
        rwa [he] at h1

theorem readEscapes_escape (h : c < 128) (hc : copied c = false) :
    readEscapes (escape c ++ cs) = c :: readEscapes cs := by
  obtain ⟨x, y, he, -⟩ := escape_ascii h
  have hd := escaped?_escape h hc
  rw [he] at hd ⊢
  simp [readEscapes, hd]

theorem readEscapes_cons {a : UInt8} (h : NoEscape a cs) :
    readEscapes (a :: cs) = a :: readEscapes cs := by
  match cs, h with
  | [], _ => rfl
  | [_], _ => rfl
  | b :: c :: cs, h => rw [readEscapes, h b c cs rfl]

/-- A conversion that begins with a copied character other than `_` is that of a string that does. -/
theorem head_of_flatMap {x : UInt8} (hx : x ≠ underscore)
    (h : cs.flatMap convertChar = x :: out) :
    ∃ cs', cs = x :: cs' ∧ cs'.flatMap convertChar = out := by
  cases cs with
  | nil => simp at h
  | cons c cs =>
    rw [List.flatMap_cons, convertChar] at h
    split at h
    · obtain ⟨rfl, ht⟩ := List.cons.inj h
      exact ⟨cs, rfl, ht⟩
    · exact absurd (List.cons.inj h).1.symm hx

/-- The conversion of what follows a character does not complete an escape. -/
theorem NoEscape.flatMap {a : UInt8} (h : NoEscape a cs) :
    NoEscape a (cs.flatMap convertChar) := by
  intro b c out hout
  by_contra hne
  obtain ⟨d, hd⟩ := Option.ne_none_iff_exists'.mp hne
  obtain ⟨hd7, -, he⟩ := escaped?_eq_some hd
  obtain ⟨x, y, hesc, ⟨-, hx⟩, -, hy⟩ := escape_ascii hd7
  rw [hesc] at he
  obtain ⟨-, rfl, rfl⟩ : _ ∧ x = b ∧ y = c := by simpa using he
  obtain ⟨cs1, rfl, h1⟩ := head_of_flatMap hx hout
  obtain ⟨cs2, rfl, -⟩ := head_of_flatMap hy h1
  exact hne (h x y cs2 rfl)

theorem flatMap_escape (h : c < 128) :
    (escape c ++ cs).flatMap convertChar = escape c ++ cs.flatMap convertChar := by
  obtain ⟨x, y, he, ⟨hx, -⟩, hy, -⟩ := escape_ascii h
  have hu : copied underscore = true := rfl
  simp [he, convertChar, hx, hy, hu]

/-- The conversion of a string has the same reading as the string. -/
theorem readEscapes_flatMap (h : ∀ c ∈ cs, c < 128) :
    readEscapes (cs.flatMap convertChar) = readEscapes cs := by
  induction cs using readEscapes_induction with
  | nil => rfl
  | esc c cs hc hcop ih =>
    rw [flatMap_escape hc, readEscapes_escape hc hcop, readEscapes_escape hc hcop,
      ih fun d hd => h d (List.mem_append_right _ hd)]
  | other a cs ha ih =>
    have ha7 := h a List.mem_cons_self
    have ih := ih fun d hd => h d (List.mem_cons_of_mem _ hd)
    rw [readEscapes_cons ha, List.flatMap_cons, convertChar]
    cases hcop : copied a with
    | true =>
      rw [if_pos rfl, List.singleton_append, readEscapes_cons ha.flatMap, ih]
    | false =>
      rw [if_neg Bool.false_ne_true, readEscapes_escape ha7 hcop, ih]

/-- A string and its reading have the same conversion. -/
theorem flatMap_readEscapes : (readEscapes cs).flatMap convertChar = cs.flatMap convertChar := by
  induction cs using readEscapes_induction with
  | nil => rfl
  | esc c cs hc hcop ih =>
    rw [readEscapes_escape hc hcop, flatMap_escape hc, List.flatMap_cons, ih, convertChar, hcop]
    rfl
  | other a cs ha ih => rw [readEscapes_cons ha, List.flatMap_cons, List.flatMap_cons, ih]

/-- Two strings of 7-bit characters have different paths exactly if they are different with the
escapes that are written out in them read. -/
theorem convert_ne_iff {u v : CString} (hu : u.IsAscii) (hv : v.IsAscii) (hfu : u.Fits)
    (hfv : v.Fits) :
    (dleynaCorePrvConvertUdnToPath u).string ≠ (dleynaCorePrvConvertUdnToPath v).string ↔
      readEscapes u.bytes ≠ readEscapes v.bytes := by
  rw [convert_ascii hu hfu, convert_ascii hv hfv]
  refine not_congr ⟨fun h => ?_, fun h => ?_⟩
  · rw [← readEscapes_flatMap hu, ← readEscapes_flatMap hv, h]
  · rw [← flatMap_readEscapes, h, flatMap_readEscapes]

/-- `uuid:1` and `uuid-1`. -/
theorem convert_colon_dash :
    (dleynaCorePrvConvertUdnToPath ⟨[117, 117, 105, 100, 58, 49], by decide⟩).string ≠
      (dleynaCorePrvConvertUdnToPath ⟨[117, 117, 105, 100, 45, 49], by decide⟩).string :=
  (convert_ne_iff (u := ⟨[117, 117, 105, 100, 58, 49], by decide⟩)
    (v := ⟨[117, 117, 105, 100, 45, 49], by decide⟩) (by decide) (by decide) (by decide)
    (by decide)).mpr (by decide +kernel)

/-- `:` and `_3a` have the same path. -/
theorem convert_collision :
    ([58] : List UInt8) ≠ [95, 51, 97] ∧
      CString.IsAscii ⟨[58], by decide⟩ ∧ CString.IsAscii ⟨[95, 51, 97], by decide⟩ ∧
      CString.Fits ⟨[58], by decide⟩ ∧ CString.Fits ⟨[95, 51, 97], by decide⟩ ∧
      (dleynaCorePrvConvertUdnToPath ⟨[58], by decide⟩).string =
        (dleynaCorePrvConvertUdnToPath ⟨[95, 51, 97], by decide⟩).string := by
  refine ⟨by decide, ?_, ?_, ?_, ?_, by decide⟩ <;> decide

end DleynaCore
