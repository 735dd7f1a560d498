import DleynaCore.Udn.Proofs.EscapeProofs

/-!
# Character by character

What the conversion writes for a 7-bit character depends on nothing but that character.
-/

namespace DleynaCore

variable {c : UInt8} {cs : List UInt8} {u v : CString}

/-! ## Single characters -/

theorem escapeChar_lt : ∀ n < 128, convertChar n.toUInt8 = escapeChar n.toUInt8 ∧
    (∀ d ∈ escapeChar n.toUInt8, isPathChar d) ∧
    1 ≤ (escapeChar n.toUInt8).length ∧ (escapeChar n.toUInt8).length ≤ 3 := by
  decide +kernel

/-- The characters that are written for a 7-bit character. -/
theorem escapeChar_ascii (h : c < 128) : convertChar c = escapeChar c ∧
    (∀ d ∈ escapeChar c, isPathChar d) ∧ 1 ≤ (escapeChar c).length ∧ (escapeChar c).length ≤ 3 := by
  have hn : c.toNat.toUInt8 = c := UInt8.ofNat_toNat
  have hlt := escapeChar_lt c.toNat (UInt8.lt_iff_toNat_lt.mp h)
  rwa [hn] at hlt

/-! ## Strings -/

theorem flatMap_escapeChar (h : ∀ c ∈ cs, c < 128) :
    cs.flatMap convertChar = cs.flatMap escapeChar := by
  induction cs with
  | nil => rfl
  | cons c cs ih =>
    obtain ⟨hc, hcs⟩ := List.forall_mem_cons.mp h
    rw [List.flatMap_cons, List.flatMap_cons, (escapeChar_ascii hc).1, ih hcs]

theorem length_flatMap_escapeChar (h : ∀ c ∈ cs, c < 128) :
    cs.length ≤ (cs.flatMap escapeChar).length ∧ (cs.flatMap escapeChar).length ≤ 3 * cs.length := by
  induction cs with
  | nil => simp
  | cons c cs ih =>
    obtain ⟨hc, hcs⟩ := List.forall_mem_cons.mp h
    obtain ⟨-, -, hge, hle⟩ := escapeChar_ascii hc
    have hrest := ih hcs
    rw [List.flatMap_cons, List.length_append, List.length_cons]
    omega

theorem convert_escapeChar (h : u.IsAscii) (hf : u.Fits) :
    (dleynaCorePrvConvertUdnToPath u).string = u.bytes.flatMap escapeChar := by
  rw [convert_ascii h hf, flatMap_escapeChar h]

/-- Both parts of a string of 7-bit characters that fits have only such characters, and fit. -/
theorem of_append (h : (u.append v).IsAscii) (hf : (u.append v).Fits) :
    (u.IsAscii ∧ u.Fits) ∧ v.IsAscii ∧ v.Fits := by
  obtain ⟨hu, hv⟩ := List.forall_mem_append.mp h
  have hlen : (u.append v).strlen = u.strlen + v.strlen := List.length_append
  unfold CString.Fits at hf ⊢
  refine ⟨⟨hu, ?_⟩, hv, ?_⟩ <;> omega

/-- A string of 7-bit characters is escaped character by character. -/
theorem escapesCharacterwise (h : u.IsAscii) (hf : u.Fits) : EscapesCharacterwise u := by
  have hu := convert_escapeChar h hf
  obtain ⟨hge, hle⟩ := length_flatMap_escapeChar h
  constructor
  case string => exact hu
  case pathChars =>
    intro d hd
    rw [hu] at hd
    obtain ⟨c, hc, hd⟩ := List.mem_flatMap.mp hd
    exact (escapeChar_ascii (h c hc)).2.1 d hd
  case length_ge => rwa [hu]
  case length_le => rwa [hu]
  case append =>
    intro v ha hfa
    obtain ⟨-, hv, hfv⟩ := of_append ha hfa
    rw [convert_escapeChar ha hfa, hu, convert_escapeChar hv hfv]
    exact List.flatMap_append

/-- The string `uuid:12-ab`. -/
def sampleUdn : CString := ⟨[117, 117, 105, 100, 58, 49, 50, 45, 97, 98], by decide⟩

theorem escapesCharacterwise_sampleUdn : sampleUdn.IsAscii ∧ sampleUdn.Fits ∧
    EscapesCharacterwise sampleUdn :=
  ⟨by decide, by decide, escapesCharacterwise (by decide) (by decide)⟩

end DleynaCore
