import Lktrs.NativeProof.Profile
import Lktrs.Foundation.TextCodec

/-!
# Canonical texts

The text forms of digests, scalars and byte strings in documents and requests.
Each reader decodes, re-encodes and compares, so it accepts one text for each
value: `decodeIssue_eq_ok`, `trustScalar_eq_ok`, `decodeB64_eq_ok`.
-/

set_option autoImplicit false

namespace Lktrs.NativeProof

open Lktrs.Foundation

def hexDigest (h : FixedBytes 32) : String := hexEncode h.toList

/-- A 32-byte value from its lowercase hexadecimal text. -/
def decodeHex32 (msg : String) (s : String) : Except String (FixedBytes 32) :=
  match hexDecode s with
  | none => .error msg
  | some b =>
      match FixedBytes.ofList? 32 b with
      | none => .error msg
      | some out => if hexEncode b = s then .ok out else .error msg

def parseDigest (text : String) : Except String (FixedBytes 32) :=
  decodeHex32 "digest must be 32 bytes in lowercase hex" text

def decodeIssue (s : String) : Except String (FixedBytes 32) :=
  decodeHex32 "issue must be 32 bytes in lowercase hex" s

/-- The error text of the base64 library. -/
def base64Error : String := "illegal base64 data"

def decodeB64 (s : String) : Except String (List UInt8) :=
  match base64Decode s with
  | none => .error base64Error
  | some b => if base64Encode b = s then .ok b else .error "noncanonical base64"

def scalarHex (n : ℤ) : String := hexEncode (bigEndian 32 n.toNat)

def trustScalar (encoded : String) (nonzero : Bool) : Except String ℤ := do
  rejectIf (encoded.utf8ByteSize ≠ 64) "invalid enrollment scalar length"
  match hexDecode encoded with
  | none => .error "noncanonical enrollment scalar"
  | some b => do
      rejectIf (b.length ≠ 32 ∨ hexEncode b ≠ encoded) "noncanonical enrollment scalar"
      let n := bigEndianValue b
      rejectIf (secp256k1Fr ≤ n ∨ (nonzero = true ∧ n = 0)) "invalid enrollment scalar"
      return (n : ℤ)

/-! ## What the readers accept -/

theorem decodeHex32_eq_ok {msg s : String} {d : FixedBytes 32} :
    decodeHex32 msg s = .ok d ↔ s = hexDigest d := by
  constructor
  · intro h
    unfold decodeHex32 at h
    cases hb : hexDecode s with
    | none => simp [hb] at h
    | some b =>
        cases hd : FixedBytes.ofList? 32 b with
        | none => simp [hb, hd] at h
        | some out =>
            simp only [hb, hd] at h
            split_ifs at h with hs
            obtain rfl : out = d := Except.ok.inj h
            rw [← hs, hexDigest, (FixedBytes.ofList?_eq_some.1 hd)]
  · rintro rfl
    simp [decodeHex32, hexDigest]

theorem decodeIssue_eq_ok {s : String} {d : FixedBytes 32} :
    decodeIssue s = .ok d ↔ s = hexDigest d :=
  decodeHex32_eq_ok

@[simp] theorem parseDigest_hexDigest (d : FixedBytes 32) : parseDigest (hexDigest d) = .ok d :=
  decodeHex32_eq_ok.2 rfl

@[simp] theorem decodeIssue_hexDigest (d : FixedBytes 32) : decodeIssue (hexDigest d) = .ok d :=
  decodeIssue_eq_ok.2 rfl

theorem hexDigest_inj {a b : FixedBytes 32} (h : hexDigest a = hexDigest b) : a = b :=
  FixedBytes.ext (hexEncode_inj h)

theorem trustScalar_eq_ok {encoded : String} {nonzero : Bool} {n : ℤ} :
    trustScalar encoded nonzero = .ok n ↔
      encoded = scalarHex n ∧ 0 ≤ n ∧ n < secp256k1Fr ∧ (nonzero = true → n ≠ 0) := by
  unfold trustScalar
  constructor
  · intro h
    obtain ⟨_, -, h⟩ := bind_eq_ok.1 h
    cases hb : hexDecode encoded with
    | none => simp [hb] at h
    | some b =>
        simp only [hb, bind_eq_ok, rejectIf_eq_ok, pure_eq_ok, not_or, not_and, not_not,
          not_le] at h
        obtain ⟨_, ⟨hlen, henc⟩, _, ⟨hlt, hne⟩, rfl⟩ := h
        have hbytes : bigEndian 32 (bigEndianValue b) = b := hlen ▸ bigEndian_bigEndianValue b
        refine ⟨?_, by omega, by exact_mod_cast hlt, fun hz => by exact_mod_cast hne hz⟩
        rw [scalarHex, Int.toNat_natCast, hbytes, henc]
  · rintro ⟨rfl, hpos, hlt, hne⟩
    obtain ⟨m, rfl⟩ := Int.eq_ofNat_of_zero_le hpos
    have hm : m < secp256k1Fr := by exact_mod_cast hlt
    have hbytes : bigEndianValue (bigEndian 32 m) = m :=
      bigEndianValue_bigEndian_of_lt (hm.trans (by decide))
    have hsize : (scalarHex (m : ℤ)).utf8ByteSize = 64 := by
      rw [scalarHex, utf8ByteSize_hexEncode, length_bigEndian]
    have hnonzero : ¬ (nonzero = true ∧ m = 0) := fun h => hne h.1 (by exact_mod_cast h.2)
    rw [rejectIf_of_not (by simp [hsize]), ok_bind, scalarHex, hexDecode_hexEncode,
      Int.toNat_natCast]
    simp only [length_bigEndian, hbytes]
    rw [rejectIf_of_not (by simp), ok_bind,
      rejectIf_of_not (by rintro (h | h); exacts [absurd h (not_le.2 hm), hnonzero h])]
    rfl

theorem decodeB64_eq_ok {s : String} {b : List UInt8} :
    decodeB64 s = .ok b ↔ s = base64Encode b := by
  constructor
  · intro h
    unfold decodeB64 at h
    cases hb : base64Decode s with
    | none => simp [hb] at h
    | some b' =>
        simp only [hb] at h
        split_ifs at h with hs
        obtain rfl : b' = b := Except.ok.inj h
        exact hs.symm
  · rintro rfl
    simp [decodeB64]

end Lktrs.NativeProof
