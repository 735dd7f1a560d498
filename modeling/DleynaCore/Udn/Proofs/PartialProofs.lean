import DleynaCore.Udn.Proofs.EscapeProofs

/-!
# Partial paths

The loop looks at the limit between two characters only. So a string that is too long loses its last
characters, but what is left of it is converted as it would be alone.
-/

namespace DleynaCore

variable {p : List UInt8} {u : CString} {c : UInt8}

theorem isPathChar_copied_lt : ∀ n < 256, copied n.toUInt8 = true → isPathChar n.toUInt8 = true := by
  decide +kernel

theorem isPathChar_copied (h : copied c = true) : isPathChar c = true := by
  have hn := isPathChar_copied_lt c.toNat (UInt8.toNat_lt_size c)
  rw [show c.toNat.toUInt8 = c from UInt8.ofNat_toNat] at hn
  exact hn h

theorem isPathChar_hexDigit : ∀ n < 16, isPathChar (hexDigit n) = true := by
  decide

/-- The digits of an escape are path characters, however many there are. -/
theorem isPathChar_formatHex (n : Nat) : ∀ d ∈ formatHex n, isPathChar d = true := by
  intro d hd
  obtain ⟨m, hm, rfl⟩ := List.mem_map.mp hd
  refine isPathChar_hexDigit m ?_
  rcases List.mem_append.mp hm with hm | hm
  · obtain ⟨s, -, rfl⟩ := List.mem_map.mp ((List.dropWhile_suffix _).subset hm)
    exact Nat.mod_lt _ (by decide)
  · simp only [List.mem_cons, List.not_mem_nil, or_false] at hm
    omega

theorem convertChar_pathChars (c : UInt8) : ∀ d ∈ convertChar c, isPathChar d := by
  intro d hd
  cases hc : copied c with
  | true =>
    simp only [convertChar, hc, if_true, List.mem_singleton] at hd
    exact hd ▸ isPathChar_copied hc
  | false =>
    simp only [convertChar, hc, Bool.false_eq_true, if_false, escape, List.mem_cons] at hd
    rcases hd with rfl | hd
    · rfl
    · exact isPathChar_formatHex _ d hd

/-- The loop goes on where it was. -/
theorem convertLoop_append (destLen : Nat) (p q : List UInt8) (i : Nat)
    (stores : List (Nat × UInt8)) : convertLoop destLen (p ++ q) i stores =
      convertLoop destLen q (convertLoop destLen p i stores).1
        (convertLoop destLen p i stores).2 := by
  induction p generalizing i stores with
  | nil => rfl
  | cons c p ih =>
    by_cases h : i < destLen
    · obtain ⟨written, hl, -⟩ := convertLoop_cons destLen c p stores h
      cases hc : copied c with
      | true => simp only [List.cons_append, convertLoop, if_pos h, hc, if_true, ih]
      | false =>
        simp only [List.cons_append, convertLoop, if_pos h, hc, Bool.false_eq_true, if_false, ih]
    · rw [convertLoop_stop destLen h, convertLoop_stop destLen h, convertLoop_stop destLen h]

/-- The loop converts the first characters one behind the other, and stops when they fill the buffer. -/
theorem convertLoop_prefix (h : p <+: u.bytes)
    (hw : width p = destLen u ∨ p = u.bytes ∧ width p ≤ destLen u) :
    ∃ stores, convertLoop (destLen u) u.bytes 0 [] = (width p, stores) ∧
      Holds stores (width p) (p.flatMap convertChar) := by
  have hle : width p ≤ destLen u := hw.elim (fun h => h.le) And.right
  obtain ⟨stores, hl, hh⟩ := convertLoop_holds (destLen u) p holds_nil (by simpa using hle)
  rw [Nat.zero_add] at hl hh
  rw [List.nil_append] at hh
  refine ⟨stores, ?_, hh⟩
  obtain ⟨q, hq⟩ := h
  rw [← hq, convertLoop_append, hl]
  rcases hw with hw | ⟨hp, -⟩
  · exact convertLoop_stop _ (by omega)
  · have hnil : q = [] := by simpa [← hq] using hp
    rw [hnil, convertLoop]

theorem partialPath_of_prefix (h : p <+: u.bytes)
    (hw : width p = destLen u ∨ p = u.bytes ∧ width p ≤ destLen u) : PartialPath u p := by
  have hle : width p ≤ destLen u := hw.elim (fun h => h.le) And.right
  obtain ⟨stores, hl, hh⟩ := convertLoop_prefix h hw
  have hs := string_of_loop h hl hh hle
  have hlen : (dleynaCorePrvConvertUdnToPath u).string.length = width p := by rw [hs, hh.length]
  constructor
  case isPrefix => exact h
  case string => exact hs
  case pathChars =>
    intro d hd
    rw [hs] at hd
    obtain ⟨c, -, hd⟩ := List.mem_flatMap.mp hd
    exact convertChar_pathChars c d hd
  case length_le => exact hlen ▸ hle.trans (Nat.min_le_right _ _)
  case whole =>
    rw [hlen, Nat.mul_comm 3]
    exact hw.elim Or.inr fun h => Or.inl h.1

/-- When all stores are in bounds, the path is the conversion of all characters, or of the first ones if
these fill the buffer. -/
theorem partialPath_of_inBounds (h : (dleynaCorePrvConvertUdnToPath u).InBounds) :
    ∃ p, PartialPath u p := by
  have hend : (convertLoop (destLen u) u.bytes 0 []).1 ≤ destLen u :=
    Nat.lt_succ_iff.mp (h _ (List.mem_append_right _ List.mem_cons_self))
  have hle := (convertLoop_le (destLen u) u.bytes 0 []).mp hend
  simp only [Nat.zero_add] at hle
  rcases hle with hw | ⟨p, hp, hw⟩
  · exact ⟨u.bytes, partialPath_of_prefix (List.prefix_refl _) (Or.inr ⟨rfl, hw⟩)⟩
  · exact ⟨p, partialPath_of_prefix hp (Or.inl hw)⟩

/-- The nine characters for the first byte fill the buffer of three bytes. -/
theorem partialPath_highByte :
    (∃ p, PartialPath ⟨[0x80, 97, 98], by decide⟩ p) ∧
      (dleynaCorePrvConvertUdnToPath ⟨[0x80, 97, 98], by decide⟩).string =
        [95, 102, 102, 102, 102, 102, 102, 56, 48] :=
  ⟨partialPath_of_inBounds (by decide), by decide⟩

end DleynaCore
