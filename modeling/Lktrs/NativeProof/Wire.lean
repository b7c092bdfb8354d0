import Lktrs.NativeProof.Backend
import Lktrs.NativeProof.Accumulator

/-!
# The signature envelope

`wire.go`: a signature as one byte string of fixed-width fields followed by the
proof. A marshalled signature decodes to itself, and what decodes is the
marshalled form of its result, so encoding and decoding are one bijection
(`envelope_codec_exact`). Both directions go field by field: a reader takes the
encoding of a value off the front, and what a reader took off is the encoding of
what it returned.
-/

set_option autoImplicit false

namespace Lktrs.NativeProof

open Lktrs.Foundation

def signatureMagic : String := "LKTRSN01"
def statementWireBytes : ℕ := 32 * 3 + 64 * 4 + 8 + 4 + 32
def signaturePrefixBytes : ℕ := 8 + statementWireBytes + 32 * 2 + 4

/-- `io.ReadFull` into a fresh array, its error ignored: what is missing stays zero. -/
def readFixed (n : ℕ) (r : List UInt8) : FixedBytes n × List UInt8 :=
  (⟨r.take n ++ List.replicate (n - r.length) 0, by simp; omega⟩, r.drop n)

/-- `SetBytesCanonical`: a coordinate from its big-endian bytes, refused unless reduced. -/
def setBytesCanonical (p : ℕ) (bs : List UInt8) : Except String (Fin p) :=
  if h : bigEndianValue bs < p then .ok ⟨bigEndianValue bs, h⟩
  else .error "invalid field element encoding"

/-- The two coordinates of a point. -/
def readAffine (p : ℕ) (r : List UInt8) : Except String (Affine p × List UInt8) := do
  rejectIf (r.length < 64) "unexpected EOF"
  let x ← setBytesCanonical p (r.take 32)
  let y ← setBytesCanonical p ((r.drop 32).take 32)
  return (⟨x, y⟩, r.drop 64)

section Curves

variable (lib : GnarkCrypto)

def marshalSigned (s : Signed) : Except String (List UInt8) := do
  let st := s.statement
  rejectIf (s.proof.version ≠ circuitVersion ∨ s.proof.data.length = 0 ∨
    s.proof.data.length > maxProofBytes) "invalid proof envelope"
  rejectIf (goodBN lib st.v = false ∨ goodBN lib st.nym = false ∨ goodSecp lib st.s = false ∨
    goodSecp lib st.t = false ∨ canonicalNonzero st.r secp256k1Fr = false ∨ st.k = 0)
    "invalid signature fields"
  return textBytes signatureMagic ++ (st.issue.toList ++ (st.ringDigest.toList ++
    (st.messageDigest.toList ++ (encodeBNPoint st.v ++ (encodeBNPoint st.nym ++
    (encodeSecpPoint st.s ++ (encodeSecpPoint st.t ++ (bigEndian 8 st.timestamp.toNat ++
    (bigEndian 4 st.k.toNat ++ (bigEndian 32 (st.r.getD 0).toNat ++ (s.proof.circuitHash.toList ++
    (s.proof.keyID.toList ++ (bigEndian 4 s.proof.data.length ++ s.proof.data)))))))))))))

def readBN (r : List UInt8) : Except String (Bn254G1 × List UInt8) := do
  let (p, r) ← readAffine bn254Fp r
  rejectIf (goodBN lib p = false) "invalid BN254 point"
  return (p, r)

def readSecp (r : List UInt8) : Except String (Secp256k1G1 × List UInt8) := do
  let (p, r) ← readAffine secp256k1Fp r
  rejectIf (goodSecp lib p = false) "invalid secp256k1 point"
  return (p, r)

def unmarshalSigned (raw : List UInt8) : Except String Signed := do
  rejectIf (raw.length < signaturePrefixBytes ∨ raw.length > signaturePrefixBytes + maxProofBytes)
    "invalid signature length"
  let (magic, r) := readFixed 8 raw
  rejectIf (magic.toList ≠ textBytes signatureMagic) "invalid profile magic/version"
  let (issue, r) := readFixed 32 r
  let (ringDigest, r) := readFixed 32 r
  let (messageDigest, r) := readFixed 32 r
  let (v, r) ← readBN lib r
  let (nym, r) ← readBN lib r
  let (s, r) ← readSecp lib r
  let (t, r) ← readSecp lib r
  let (timestamp, r) := readFixed 8 r
  let (k, r) := readFixed 4 r
  let (rb, r) := readFixed 32 r
  rejectIf (canonicalNonzero (rb.value : ℤ) secp256k1Fr = false ∨ k.value = 0)
    "noncanonical challenge or quota"
  let (circuitHash, r) := readFixed 32 r
  let (keyID, r) := readFixed 32 r
  let (n, r) := readFixed 4 r
  rejectIf (n.value = 0 ∨ n.value ≠ r.length) "truncated or trailing proof"
  return { statement := { v, nym, s, t, issue, ringDigest, messageDigest,
                          timestamp := UInt64.ofNat timestamp.value, k := UInt32.ofNat k.value,
                          r := some (rb.value : ℤ) }
           proof := { version := circuitVersion, circuitHash, keyID, data := r } }

/-! ## Decoding an encoded signature -/

theorem readFixed_append {n : ℕ} {bs : List UInt8} (h : bs.length = n) (rest : List UInt8) :
    readFixed n (bs ++ rest) = (⟨bs, h⟩, rest) := by
  subst h
  simp [readFixed]

theorem readFixed_fixed {n : ℕ} (a : FixedBytes n) (rest : List UInt8) :
    readFixed n (a.toList ++ rest) = (a, rest) :=
  readFixed_append a.length_toList rest

theorem readFixed_bigEndian (n value : ℕ) (rest : List UInt8) :
    readFixed n (bigEndian n value ++ rest) = (FixedBytes.ofNat n value, rest) :=
  readFixed_append (length_bigEndian n value) rest

theorem setBytesCanonical_bigEndian {p : ℕ} (hp : p ≤ 256 ^ 32) (a : Fin p) :
    setBytesCanonical p (bigEndian 32 a.val) = .ok a := by
  have hvalue : bigEndianValue (bigEndian 32 a.val) = a.val :=
    bigEndianValue_bigEndian_of_lt (lt_of_lt_of_le a.isLt hp)
  simp [setBytesCanonical, hvalue]

theorem readAffine_append {p : ℕ} (hp : p ≤ 256 ^ 32) (q : Affine p) (rest : List UInt8) :
    readAffine p (encodeAffine q ++ rest) = .ok (q, rest) := by
  have hx : (encodeAffine q ++ rest).take 32 = bigEndian 32 q.x.val := by
    rw [encodeAffine, List.append_assoc]
    exact List.take_left' (by simp)
  have hy : ((encodeAffine q ++ rest).drop 32).take 32 = bigEndian 32 q.y.val := by
    rw [encodeAffine, List.append_assoc, List.drop_left' (by simp)]
    exact List.take_left' (by simp)
  have hrest : (encodeAffine q ++ rest).drop 64 = rest := List.drop_left' (by simp)
  rw [readAffine, rejectIf_of_not (by simp), ok_bind, hx, hy, hrest,
    setBytesCanonical_bigEndian hp, setBytesCanonical_bigEndian hp]
  rfl

theorem readBN_append {q : Bn254G1} (hq : goodBN lib q = true) (rest : List UInt8) :
    readBN lib (encodeBNPoint q ++ rest) = .ok (q, rest) := by
  rw [readBN, encodeBNPoint, readAffine_append (by decide), ok_bind]
  simp [hq, rejectIf]

theorem readSecp_append {q : Secp256k1G1} (hq : goodSecp lib q = true) (rest : List UInt8) :
    readSecp lib (encodeSecpPoint q ++ rest) = .ok (q, rest) := by
  rw [readSecp, encodeSecpPoint, readAffine_append (by decide), ok_bind]
  simp [hq, rejectIf]

/-- A marshalled signature decodes to itself. -/
theorem unmarshalSigned_marshalSigned {signed : Signed} {raw : List UInt8}
    (h : marshalSigned lib signed = .ok raw) : unmarshalSigned lib raw = .ok signed := by
  obtain ⟨⟨v, nym, s, t, issue, ringDigest, messageDigest, timestamp, k, r⟩,
    ⟨version, circuitHash, keyID, data⟩⟩ := signed
  simp only [marshalSigned, bind_eq_ok, rejectIf_eq_ok, pure_eq_ok, not_or, not_not,
    Bool.not_eq_false, not_lt] at h
  obtain ⟨_, ⟨rfl, hdata, hmax⟩, _, ⟨hv, hnym, hs, ht, hr, hk⟩, rfl⟩ := h
  obtain ⟨r, rfl, hrpos, hrlt⟩ := canonicalNonzero_iff.1 hr
  have hmagic : (textBytes signatureMagic).length = 8 := by decide
  -- the integers come back from their bytes
  have htime : (FixedBytes.ofNat 8 timestamp.toNat).value = timestamp.toNat :=
    FixedBytes.value_ofNat (lt_of_lt_of_le timestamp.toNat_lt (by decide))
  have hquota : (FixedBytes.ofNat 4 k.toNat).value = k.toNat :=
    FixedBytes.value_ofNat (lt_of_lt_of_le k.toNat_lt (by decide))
  have hchallenge : ((FixedBytes.ofNat 32 r.toNat).value : ℤ) = r := by
    have hbound : secp256k1Fr < 256 ^ 32 := by decide
    rw [FixedBytes.value_ofNat (by omega), Int.toNat_of_nonneg hrpos.le]
  have hlen : (FixedBytes.ofNat 4 data.length).value = data.length := by
    have hbound : maxProofBytes < 256 ^ 4 := by decide
    exact FixedBytes.value_ofNat (by omega)
  have hk0 : k.toNat ≠ 0 := fun h => hk (UInt32.toNat_inj.1 h)
  have hfields : ¬ (canonicalNonzero (some ((FixedBytes.ofNat 32 r.toNat).value : ℤ)) secp256k1Fr =
      false ∨ (FixedBytes.ofNat 4 k.toNat).value = 0) := by
    rw [hchallenge, hquota, hr]
    simp [hk0]
  have hproof : ¬ ((FixedBytes.ofNat 4 data.length).value = 0 ∨
      (FixedBytes.ofNat 4 data.length).value ≠ data.length) := by
    rw [hlen]
    simpa using hdata
  rw [Option.getD_some, unmarshalSigned,
    rejectIf_of_not (by simp [hmagic, signaturePrefixBytes, statementWireBytes]; omega), ok_bind,
    readFixed_append hmagic]
  dsimp only
  rw [rejectIf_of_not (not_not.2 rfl), ok_bind]
  simp only [readFixed_fixed]
  rw [readBN_append lib hv, ok_bind]
  dsimp only
  rw [readBN_append lib hnym, ok_bind]
  dsimp only
  rw [readSecp_append lib hs, ok_bind]
  dsimp only
  rw [readSecp_append lib ht, ok_bind]
  simp only [readFixed_bigEndian]
  rw [rejectIf_of_not hfields, ok_bind]
  simp only [readFixed_fixed, readFixed_bigEndian]
  rw [rejectIf_of_not hproof, ok_bind, hchallenge, hquota, htime, UInt64.ofNat_toNat,
    UInt32.ofNat_toNat]
  rfl

/-! ## Encoding a decoded signature -/

/-- A field that was read in full, in front of the rest. -/
theorem readFixed_join {n : ℕ} {r : List UInt8} (hlen : n ≤ r.length) :
    (readFixed n r).1.toList ++ (readFixed n r).2 = r := by
  have hpad : n - r.length = 0 := by omega
  simp [readFixed, hpad]

@[simp] theorem length_readFixed_snd (n : ℕ) (r : List UInt8) :
    (readFixed n r).2.length = r.length - n := by
  simp [readFixed]

theorem setBytesCanonical_sound {p : ℕ} {bs : List UInt8} {a : Fin p} (hlen : bs.length = 32)
    (h : setBytesCanonical p bs = .ok a) : bs = bigEndian 32 a.val := by
  unfold setBytesCanonical at h
  split at h
  · rw [Except.ok.injEq] at h
    subst h
    rw [← hlen]
    exact (bigEndian_bigEndianValue bs).symm
  · cases h

theorem readAffine_sound {p : ℕ} {r rest : List UInt8} {q : Affine p}
    (h : readAffine p r = .ok (q, rest)) : r = encodeAffine q ++ rest := by
  simp only [readAffine, bind_eq_ok, rejectIf_eq_ok, pure_eq_ok, Prod.mk.injEq, not_lt] at h
  obtain ⟨_, hlen, x, hx, y, hy, rfl, rfl⟩ := h
  have hx' := setBytesCanonical_sound (by simp; omega) hx
  have hy' := setBytesCanonical_sound (by simp; omega) hy
  have hdrop : r.drop 64 = (r.drop 32).drop 32 := by rw [List.drop_drop]
  rw [encodeAffine, ← hx', ← hy', List.append_assoc, hdrop, List.take_append_drop,
    List.take_append_drop]

theorem readBN_sound {r rest : List UInt8} {q : Bn254G1} (h : readBN lib r = .ok (q, rest)) :
    goodBN lib q = true ∧ r = encodeBNPoint q ++ rest := by
  simp only [readBN, bind_eq_ok, rejectIf_eq_ok, pure_eq_ok, Prod.exists, Prod.mk.injEq,
    Bool.not_eq_false] at h
  obtain ⟨_, _, hread, _, hgood, rfl, rfl⟩ := h
  exact ⟨hgood, readAffine_sound hread⟩

theorem readSecp_sound {r rest : List UInt8} {q : Secp256k1G1}
    (h : readSecp lib r = .ok (q, rest)) :
    goodSecp lib q = true ∧ r = encodeSecpPoint q ++ rest := by
  simp only [readSecp, bind_eq_ok, rejectIf_eq_ok, pure_eq_ok, Prod.exists, Prod.mk.injEq,
    Bool.not_eq_false] at h
  obtain ⟨_, _, hread, _, hgood, rfl, rfl⟩ := h
  exact ⟨hgood, readAffine_sound hread⟩

/-- What decodes is the marshalled form of its result. -/
theorem marshalSigned_unmarshalSigned {signed : Signed} {raw : List UInt8}
    (h : unmarshalSigned lib raw = .ok signed) : marshalSigned lib signed = .ok raw := by
  simp only [unmarshalSigned, bind_eq_ok, rejectIf_eq_ok, pure_eq_ok, Prod.exists, not_or, not_not,
    not_lt, Bool.not_eq_false] at h
  obtain ⟨_, ⟨hmin, hmax⟩, _, hmagic, v, r₅, hv, nym, r₆, hnym, s, r₇, hs, t, r₈, ht, _,
    ⟨hr, hk⟩, _, ⟨hn, hdata⟩, rfl⟩ := h
  simp only [signaturePrefixBytes, statementWireBytes] at hmin hmax
  obtain ⟨hvgood, hv⟩ := readBN_sound lib hv
  obtain ⟨hnymgood, rfl⟩ := readBN_sound lib hnym
  obtain ⟨hsgood, rfl⟩ := readSecp_sound lib hs
  obtain ⟨htgood, rfl⟩ := readSecp_sound lib ht
  -- what is left after the points
  have hlen : raw.length = 360 + r₈.length := by
    have := congrArg List.length hv
    simp only [length_readFixed_snd, List.length_append, length_encodeBNPoint,
      length_encodeSecpPoint] at this
    omega
  simp only [length_readFixed_snd] at hdata
  -- the integers
  have hquota : (UInt32.ofNat (readFixed 4 (readFixed 8 r₈).2).1.value).toNat =
      (readFixed 4 (readFixed 8 r₈).2).1.value :=
    UInt32.toNat_ofNat_of_lt' ((FixedBytes.value_lt _).trans_le (by decide))
  have htime : (UInt64.ofNat (readFixed 8 r₈).1.value).toNat = (readFixed 8 r₈).1.value :=
    UInt64.toNat_ofNat_of_lt' ((FixedBytes.value_lt _).trans_le (by decide))
  have hk0 : UInt32.ofNat (readFixed 4 (readFixed 8 r₈).2).1.value ≠ 0 := by
    intro hzero
    rw [hzero] at hquota
    exact hk hquota.symm
  -- the checks of the encoder are those of the decoder
  unfold marshalSigned
  dsimp only
  rw [rejectIf_of_not (by
      simp only [not_or, not_not, not_lt, length_readFixed_snd, true_and]
      omega), ok_bind,
    rejectIf_of_not (by simp [hvgood, hnymgood, hsgood, htgood, hr, hk0]), ok_bind]
  -- its fields are those that were read, joined from the last one on
  simp only [hquota, htime, Option.getD_some, Int.toNat_natCast, length_readFixed_snd, ← hdata,
    FixedBytes.bigEndian_value]
  rw [readFixed_join (by simp; omega), readFixed_join (by simp; omega),
    readFixed_join (by simp; omega), readFixed_join (by simp; omega),
    readFixed_join (by simp; omega), readFixed_join (by omega), ← hv,
    readFixed_join (by simp; omega), readFixed_join (by simp; omega),
    readFixed_join (by simp; omega), ← hmagic, readFixed_join (by omega)]
  rfl

/-! ## What is accepted -/

/-- The fields of an accepted envelope at their offsets. -/
structure EnvelopeFields (raw : List UInt8) : Prop where
  length_eq : raw.length = signaturePrefixBytes + fieldValue raw 468 4
  proof_ne_zero : fieldValue raw 468 4 ≠ 0
  bn_reduced : ∀ i < 4, fieldValue raw (104 + 32 * i) 32 < bn254Fp
  secp_reduced : ∀ i < 4, fieldValue raw (232 + 32 * i) 32 < secp256k1Fp
  quota_ne_zero : fieldValue raw 368 4 ≠ 0
  challenge_reduced : 0 < fieldValue raw 372 32 ∧ fieldValue raw 372 32 < secp256k1Fr

/-- The fields of an envelope, with the coordinates of the points apart. -/
def envelopeFields (s : Signed) : List (List UInt8) :=
  [textBytes signatureMagic, s.statement.issue.toList, s.statement.ringDigest.toList,
    s.statement.messageDigest.toList, bigEndian 32 s.statement.v.x.val,
    bigEndian 32 s.statement.v.y.val, bigEndian 32 s.statement.nym.x.val,
    bigEndian 32 s.statement.nym.y.val, bigEndian 32 s.statement.s.x.val,
    bigEndian 32 s.statement.s.y.val, bigEndian 32 s.statement.t.x.val,
    bigEndian 32 s.statement.t.y.val, bigEndian 8 s.statement.timestamp.toNat,
    bigEndian 4 s.statement.k.toNat, bigEndian 32 (s.statement.r.getD 0).toNat,
    s.proof.circuitHash.toList, s.proof.keyID.toList, bigEndian 4 s.proof.data.length,
    s.proof.data]

/-- The widths of the fields before the proof. -/
def envelopeWidths : List ℕ :=
  [8, 32, 32, 32, 32, 32, 32, 32, 32, 32, 32, 32, 8, 4, 32, 32, 32, 4]

theorem envelopeFields_lengths (s : Signed) :
    (envelopeFields s).map List.length = envelopeWidths ++ [s.proof.data.length] := by
  have hmagic : (textBytes signatureMagic).length = 8 := by decide
  simp only [envelopeFields, envelopeWidths, List.map_cons, List.map_nil, hmagic,
    FixedBytes.length_toList, length_bigEndian, List.cons_append, List.nil_append]

theorem length_flatten_envelopeFields (s : Signed) :
    (envelopeFields s).flatten.length = signaturePrefixBytes + s.proof.data.length := by
  rw [List.length_flatten, envelopeFields_lengths, List.sum_append, List.sum_singleton]
  rfl

/-- A coordinate is read back as it is. -/
theorem coordinate_reduced {p : ℕ} (hp : p ≤ 256 ^ 32) (a : Fin p) :
    bigEndianValue (bigEndian 32 a.val) < p := by
  rw [bigEndianValue_bigEndian_of_lt (a.isLt.trans_le hp)]
  exact a.isLt

theorem flatten_envelopeFields {signed : Signed} {raw : List UInt8}
    (h : marshalSigned lib signed = .ok raw) : raw = (envelopeFields signed).flatten := by
  simp only [marshalSigned, bind_eq_ok, rejectIf_eq_ok, pure_eq_ok] at h
  obtain ⟨_, _, _, _, rfl⟩ := h
  simp only [envelopeFields, encodeBNPoint, encodeSecpPoint, encodeAffine, List.flatten_cons,
    List.flatten_nil, List.append_nil, List.append_assoc]

/-- The field at an index, read at its offset. -/
theorem envelope_field {signed : Signed} {raw : List UInt8}
    (h : marshalSigned lib signed = .ok raw) (i offset width : ℕ) {field : List UInt8}
    (hfield : (envelopeFields signed)[i]? = some field)
    (hoffset : i ≤ envelopeWidths.length ∧ (envelopeWidths.take i).sum = offset)
    (hwidth : field.length = width) : fieldValue raw offset width = bigEndianValue field := by
  rw [flatten_envelopeFields lib h]
  apply fieldValue_flatten hfield _ hwidth
  rw [envelopeFields_lengths, List.take_append_of_le_length hoffset.1, hoffset.2]

/-- The coordinates of the two BN254 points, then those of the two secp256k1 points. -/
theorem envelope_coordinates {signed : Signed} {raw : List UInt8}
    (h : marshalSigned lib signed = .ok raw) (i : ℕ) :
    (i < 4 → fieldValue raw (104 + 32 * i) 32 < bn254Fp) ∧
      (i < 4 → fieldValue raw (232 + 32 * i) 32 < secp256k1Fp) := by
  constructor
  · intro hi
    rcases (by omega : i = 0 ∨ i = 1 ∨ i = 2 ∨ i = 3) with rfl | rfl | rfl | rfl
    · rw [envelope_field lib h 4 104 32 rfl (by decide) (length_bigEndian ..)]
      exact coordinate_reduced (by decide) _
    · rw [envelope_field lib h 5 136 32 rfl (by decide) (length_bigEndian ..)]
      exact coordinate_reduced (by decide) _
    · rw [envelope_field lib h 6 168 32 rfl (by decide) (length_bigEndian ..)]
      exact coordinate_reduced (by decide) _
    · rw [envelope_field lib h 7 200 32 rfl (by decide) (length_bigEndian ..)]
      exact coordinate_reduced (by decide) _
  · intro hi
    rcases (by omega : i = 0 ∨ i = 1 ∨ i = 2 ∨ i = 3) with rfl | rfl | rfl | rfl
    · rw [envelope_field lib h 8 232 32 rfl (by decide) (length_bigEndian ..)]
      exact coordinate_reduced (by decide) _
    · rw [envelope_field lib h 9 264 32 rfl (by decide) (length_bigEndian ..)]
      exact coordinate_reduced (by decide) _
    · rw [envelope_field lib h 10 296 32 rfl (by decide) (length_bigEndian ..)]
      exact coordinate_reduced (by decide) _
    · rw [envelope_field lib h 11 328 32 rfl (by decide) (length_bigEndian ..)]
      exact coordinate_reduced (by decide) _

theorem envelopeFields_of_marshalSigned {signed : Signed} {raw : List UInt8}
    (h : marshalSigned lib signed = .ok raw) : EnvelopeFields raw := by
  have hlen : raw.length = signaturePrefixBytes + signed.proof.data.length := by
    rw [flatten_envelopeFields lib h, length_flatten_envelopeFields]
  have hcount : fieldValue raw 468 4 = bigEndianValue (bigEndian 4 signed.proof.data.length) :=
    envelope_field lib h 17 468 4 rfl (by decide) (length_bigEndian ..)
  have hquota : fieldValue raw 368 4 = bigEndianValue (bigEndian 4 signed.statement.k.toNat) :=
    envelope_field lib h 13 368 4 rfl (by decide) (length_bigEndian ..)
  have hchallenge : fieldValue raw 372 32 =
      bigEndianValue (bigEndian 32 (signed.statement.r.getD 0).toNat) :=
    envelope_field lib h 14 372 32 rfl (by decide) (length_bigEndian ..)
  have hcoordinates := envelope_coordinates lib h
  simp only [marshalSigned, bind_eq_ok, rejectIf_eq_ok, pure_eq_ok, not_or, not_not,
    Bool.not_eq_false, not_lt] at h
  obtain ⟨_, ⟨_, hdata, hmax⟩, _, ⟨_, _, _, _, hr, hk⟩, _⟩ := h
  have hbound : maxProofBytes < 256 ^ 4 := by decide
  rw [bigEndianValue_bigEndian_of_lt (by omega)] at hcount
  rw [bigEndianValue_bigEndian_of_lt (signed.statement.k.toNat_lt.trans_le (by decide))] at hquota
  refine ⟨by rw [hcount, hlen], by rwa [hcount], fun i hi => (hcoordinates i).1 hi,
    fun i hi => (hcoordinates i).2 hi, ?_, ?_⟩
  · rw [hquota]
    exact fun hzero => hk (UInt32.toNat_inj.1 hzero)
  · obtain ⟨r, hreq, hrpos, hrlt⟩ := canonicalNonzero_iff.1 hr
    have horder : secp256k1Fr < 256 ^ 32 := by decide
    rw [hreq, Option.getD_some, bigEndianValue_bigEndian_of_lt (by omega)] at hchallenge
    rw [hchallenge]
    omega

/-- An accepted envelope is no proper part of an accepted one: the proof length says where it
ends. -/
theorem EnvelopeFields.eq_of_append {raw rest : List UInt8} (h : EnvelopeFields raw)
    (h' : EnvelopeFields (raw ++ rest)) : rest = [] := by
  have hlen := h.length_eq
  have hlen' := h'.length_eq
  simp only [signaturePrefixBytes, statementWireBytes] at hlen hlen'
  rw [fieldValue_append rest (by omega), List.length_append] at hlen'
  exact List.length_eq_zero_iff.1 (by omega)

/-- Decoding gives a signature exactly when encoding it gives the bytes back. Hence different byte
strings decode differently; an accepted string has reduced coordinates and challenge, a nonzero
quota and the proof length it states; and no truncation or extension of it is accepted. -/
theorem envelope_codec_exact :
    (∀ (raw : List UInt8) (s : Signed),
      unmarshalSigned lib raw = .ok s ↔ marshalSigned lib s = .ok raw) ∧
    (∀ (raw raw' : List UInt8) (s : Signed), unmarshalSigned lib raw = .ok s →
      unmarshalSigned lib raw' = .ok s → raw = raw') ∧
    (∀ (raw : List UInt8) (s : Signed), unmarshalSigned lib raw = .ok s → EnvelopeFields raw) ∧
    ∀ (raw rest : List UInt8) (s s' : Signed), unmarshalSigned lib raw = .ok s →
      unmarshalSigned lib (raw ++ rest) = .ok s' → rest = [] := by
  refine ⟨?_, ?_, ?_, ?_⟩
  · intro raw s
    exact ⟨marshalSigned_unmarshalSigned lib, unmarshalSigned_marshalSigned lib⟩
  · intro raw raw' s h h'
    have hraw := (marshalSigned_unmarshalSigned lib h).symm.trans (marshalSigned_unmarshalSigned lib h')
    exact Except.ok.inj hraw
  · intro raw s h
    exact envelopeFields_of_marshalSigned lib (marshalSigned_unmarshalSigned lib h)
  · intro raw rest s s' h h'
    have hfields := envelopeFields_of_marshalSigned lib (marshalSigned_unmarshalSigned lib h)
    exact hfields.eq_of_append
      (envelopeFields_of_marshalSigned lib (marshalSigned_unmarshalSigned lib h'))

end Curves

end Lktrs.NativeProof
