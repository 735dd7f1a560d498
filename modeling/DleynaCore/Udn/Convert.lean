import Mathlib.Data.List.Infix
import Mathlib.Data.UInt

/-!
# From a UDN to an object path

`dleyna_core_prv_convert_udn_to_path` of `core.c`, with the stores that it makes to its buffer. A
`char` is signed, as on x86.
-/

namespace DleynaCore

/-- A NUL-terminated string: its bytes before the terminator. -/
structure CString where
  bytes : List UInt8
  noNul : 0 ∉ bytes

namespace CString

/-- `strlen`. -/
def strlen (s : CString) : Nat := s.bytes.length

/-- One string followed by the other. -/
def append (s s' : CString) : CString where
  bytes := s.bytes ++ s'.bytes
  noNul := by simp [s.noNul, s'.noNul]

/-- The string has only 7-bit characters. -/
def IsAscii (s : CString) : Prop := ∀ c ∈ s.bytes, c < 128

instance (s : CString) : Decidable s.IsAscii := List.decidableBAll (· < 128) s.bytes

end CString

/-- `G_MAXUINT32 / 2`. -/
def maxUint32Half : Nat := (2 ^ 32 - 1) / 2

/-- `g_ascii_isalnum`. -/
def gAsciiIsalnum (c : UInt8) : Bool :=
  (48 ≤ c && c ≤ 57) || (65 ≤ c && c ≤ 90) || (97 ≤ c && c ≤ 122)

/-- The character `_`. -/
def underscore : UInt8 := 95

/-- The characters that are copied as they are. -/
def copied (c : UInt8) : Bool := gAsciiIsalnum c || c == underscore

/-! ## `g_snprintf` -/

/-- A `char` passed for `%x`: it is promoted to `int`, with its sign, and read as an unsigned one. -/
def promote (c : UInt8) : Nat := if c < 128 then c.toNat else c.toNat + (2 ^ 32 - 2 ^ 8)

/-- A digit of `%x`. -/
def hexDigit (n : Nat) : UInt8 := if n < 10 then 48 + n.toUInt8 else 87 + n.toUInt8

/-- `%02x` of a 32-bit number: no leading zeros, but two digits at least. -/
def formatHex (n : Nat) : List UInt8 :=
  (([28, 24, 20, 16, 12, 8].map fun s => n / 2 ^ s % 16).dropWhile (· = 0) ++
    [n / 16 % 16, n % 16]).map hexDigit

/-- `_%02x` of the character. -/
def escape (c : UInt8) : List UInt8 := underscore :: formatHex (promote c)

/-- The stores of these bytes from the index `i` on. -/
def storesAt (i : Nat) : List UInt8 → List (Nat × UInt8)
  | [] => []
  | c :: cs => (i, c) :: storesAt (i + 1) cs

/-- `g_snprintf` of this text to `uuid + i`, with the limit `n`: the stores, and the length that it
returns. -/
def gSnprintf (i n : Nat) (text : List UInt8) : List (Nat × UInt8) × Nat :=
  (if n = 0 then [] else storesAt i (text.take (n - 1) ++ [0]), text.length)

/-! ## The conversion -/

/-- The buffer `uuid` with the stores made to it, in order. -/
structure Buffer where
  /-- How many bytes were allocated. -/
  size : Nat
  stores : List (Nat × UInt8)
  deriving DecidableEq, Repr

/-- The byte that was stored last at an index. -/
def byteAt? (stores : List (Nat × UInt8)) (j : Nat) : Option UInt8 :=
  (stores.reverse.find? fun s => s.1 = j).map Prod.snd

namespace Buffer

/-- The byte of the buffer at an index. -/
def byte? (b : Buffer) (j : Nat) : Option UInt8 := byteAt? b.stores j

/-- The bytes from the index `j` on up to the terminator, or up to `n` of them. -/
def readFrom (b : Buffer) : Nat → Nat → List UInt8
  | 0, _ => []
  | n + 1, j =>
    match b.byte? j with
    | some c => if c = 0 then [] else c :: b.readFrom n (j + 1)
    | none => []

/-- The string in the buffer. -/
def string (b : Buffer) : List UInt8 := b.readFrom b.size 0

end Buffer

/-- The loop from the index `i` on, with the stores made before: it ends with an index and all
stores. -/
def convertLoop (destLen : Nat) : List UInt8 → Nat → List (Nat × UInt8) →
    Nat × List (Nat × UInt8)
  | [], i, stores => (i, stores)
  | c :: udn, i, stores =>
    if i < destLen then
      if copied c then convertLoop destLen udn (i + 1) (stores ++ [(i, c)])
      else
        let (written, n) := gSnprintf i (destLen + 1) (escape c)
        convertLoop destLen udn (i + n) (stores ++ written)
    else (i, stores)

/-- `dest_len`. No string is so long that `len * 3` wraps around. -/
def destLen (udn : CString) : Nat := min (udn.strlen * 3) maxUint32Half

/-- `dleyna_core_prv_convert_udn_to_path`. -/
def dleynaCorePrvConvertUdnToPath (udn : CString) : Buffer :=
  let (i, stores) := convertLoop (destLen udn) udn.bytes 0 []
  { size := destLen udn + 1, stores := stores ++ [(i, 0)] }

/-! ## What the conversion should guarantee -/

/-- Every store is to one of the bytes that were allocated. -/
def Buffer.InBounds (b : Buffer) : Prop := ∀ s ∈ b.stores, s.1 < b.size

instance (b : Buffer) : Decidable b.InBounds := inferInstanceAs (Decidable (∀ s ∈ _, _))

/-- How many characters are written for a character: a byte above 127 is negative, and has eight
digits. -/
def charWidth (c : UInt8) : Nat := if copied c then 1 else if c < 128 then 3 else 9

/-- How many characters are written for a string. -/
def width (cs : List UInt8) : Nat := (cs.map charWidth).sum

/-- What is written for a character. -/
def convertChar (c : UInt8) : List UInt8 := if copied c then [c] else escape c

/-- The string is so short that the limit on the size of a path does not cut its conversion. -/
def CString.Fits (s : CString) : Prop := s.strlen * 3 ≤ maxUint32Half

instance (s : CString) : Decidable s.Fits := inferInstanceAs (Decidable (_ ≤ _))

/-- An ASCII letter or digit, or `_`. -/
def isPathChar (c : UInt8) : Bool := (Char.ofNat c.toNat).isAlphanum || c == underscore

/-- How a character should be written: as it is, or as `_` with its two hexadecimal digits. -/
def escapeChar (c : UInt8) : List UInt8 :=
  if isPathChar c then [c] else [underscore, hexDigit (c.toNat / 16), hexDigit (c.toNat % 16)]

/-- The conversion should escape the string character by character. -/
structure EscapesCharacterwise (u : CString) : Prop where
  string : (dleynaCorePrvConvertUdnToPath u).string = u.bytes.flatMap escapeChar
  pathChars : ∀ c ∈ (dleynaCorePrvConvertUdnToPath u).string, isPathChar c
  length_ge : u.strlen ≤ (dleynaCorePrvConvertUdnToPath u).string.length
  length_le : (dleynaCorePrvConvertUdnToPath u).string.length ≤ 3 * u.strlen
  append : ∀ v : CString, (u.append v).IsAscii → (u.append v).Fits →
    (dleynaCorePrvConvertUdnToPath (u.append v)).string =
      (dleynaCorePrvConvertUdnToPath u).string ++ (dleynaCorePrvConvertUdnToPath v).string

/-- The path should be the conversion of the first characters `p` of the string, without cutting the one
of a character: of all characters, or of as many as fill the buffer. -/
structure PartialPath (u : CString) (p : List UInt8) : Prop where
  isPrefix : p <+: u.bytes
  string : (dleynaCorePrvConvertUdnToPath u).string = p.flatMap convertChar
  pathChars : ∀ c ∈ (dleynaCorePrvConvertUdnToPath u).string, isPathChar c
  length_le : (dleynaCorePrvConvertUdnToPath u).string.length ≤ maxUint32Half
  whole : p = u.bytes ∨
    (dleynaCorePrvConvertUdnToPath u).string.length = min (3 * u.strlen) maxUint32Half

/-- The 7-bit character whose escape this text is. -/
def escaped? (text : List UInt8) : Option UInt8 :=
  ((List.range 128).map Nat.toUInt8).find? fun c => !copied c && escape c == text

/-- The string with every escape that is written out in it read as the character. -/
def readEscapes : List UInt8 → List UInt8
  | a :: b :: c :: cs =>
    match escaped? [a, b, c] with
    | some d => d :: readEscapes cs
    | none => a :: readEscapes (b :: c :: cs)
  | cs => cs

end DleynaCore
