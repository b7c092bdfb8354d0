import Mathlib.Data.Nat.Size
import Lktrs.NativeProof.Circuit
import Lktrs.NativeProof.Statements

/-!
# What the circuit's sections assert

Each section of `Circuit.define` as a condition on residues and points: the byte
and bit helpers compute the fixed-width encodings and scalar hashes of the host,
the point assertions are the host's point tests, the 32-bit trick is
`Counter < K`, and the regrouped pairing check is the host's membership relation.
-/

set_option autoImplicit false

namespace Lktrs.NativeProof

open Lktrs.Foundation

variable (lib : GnarkCrypto)

/-! ## Bytes and bits -/

theorem length_bytesBits (data : List UInt8) : (bytesBits data).length = 8 * data.length := by
  induction data with
  | nil => rfl
  | cons b bs ih =>
      have hcons : bytesBits (b :: bs) = bytesBits bs ++ bitsOf 8 b.toNat := by simp [bytesBits]
      rw [hcons, List.length_append, ih, length_bitsOf, List.length_cons]
      omega

/-- The bits of a byte string spell its big-endian integer. -/
theorem bitsValue_bytesBits (data : List UInt8) :
    bitsValue (bytesBits data) = bigEndianValue data := by
  induction data with
  | nil => rfl
  | cons b bs ih =>
      have hcons : bytesBits (b :: bs) = bytesBits bs ++ bitsOf 8 b.toNat := by simp [bytesBits]
      have hpow : (2 : ℕ) ^ (8 * bs.length) = 256 ^ bs.length := by
        rw [pow_mul]
        norm_num
      rw [hcons, bitsValue_append, ih, length_bytesBits, hpow,
        bitsValue_bitsOf_of_lt b.toNat_lt, bigEndianValue]
      ring

/-- The native accumulation of bytes is the integer modulo the circuit field. -/
theorem nativeValue_eq (data : List UInt8) :
    nativeValue data = ((bigEndianValue data : ℕ) : Variable) := by
  have hfold : ∀ (bs : List UInt8) (acc : Variable),
      bs.foldl (fun out b => out * 256 + (b.toNat : Variable)) acc =
        acc * 256 ^ bs.length + (bigEndianValue bs : ℕ) := by
    intro bs
    induction bs with
    | nil => intro acc; simp [bigEndianValue]
    | cons b bs ih =>
        intro acc
        rw [List.foldl_cons, ih, bigEndianValue, List.length_cons]
        push_cast
        ring
  rw [nativeValue, hfold, zero_mul, zero_add]

theorem value_secpValue (data : List UInt8) :
    (secpValue data).value = bigEndianValue data % secp256k1Fr := by
  rw [secpValue, Element.reduceStrict, Element.fromBits, bitsValue_bytesBits]

theorem integerBytes_bitsOf {bits width n : ℕ} (hn : n < 2 ^ bits) (hbits : bits ≤ 8 * width) :
    integerBytes (bitsOf bits n) width = .ok (bigEndian width n) := by
  have hpad : bits + (8 * width - bits) = 8 * width := by omega
  rw [integerBytes, length_bitsOf, if_neg (by omega), bitsOf_append_replicate hn, hpad,
    bytesOfBits_bitsOf n width width le_rfl]

/-- Bits that fit the width give the fixed-width bytes of the integer they spell. -/
theorem integerBytes_eq {bits : List Bool} {width : ℕ} (h : bits.length ≤ 8 * width) :
    integerBytes bits width = .ok (bigEndian width (bitsValue bits)) := by
  have hbytes := integerBytes_bitsOf (bitsValue_lt bits) h
  rwa [bitsOf_bitsValue] at hbytes

theorem integerBytes_bytesBits (data : List UInt8) :
    integerBytes (bytesBits data) data.length = .ok data := by
  rw [integerBytes_eq (length_bytesBits data).le, bitsValue_bytesBits, bigEndian_bigEndianValue]

/-- The helpers of the circuit compute the encodings of the host: the bits of a byte string
are those of its big-endian value, bytes are recovered from them, the native and the emulated
value are that value modulo the two orders for every length, and bits that fit are written as
the fixed-width big-endian bytes of their integer. -/
theorem circuit_bytes_agree :
    (∀ data, bytesBits data = (List.range (8 * data.length)).map (bigEndianValue data).testBit) ∧
    (∀ data, integerBytes (bytesBits data) data.length = .ok data) ∧
    (∀ data, (nativeValue data).val = bigEndianValue data % bn254Fr) ∧
    (∀ data, (secpValue data).value = bigEndianValue data % secp256k1Fr) ∧
    ∀ (bits : List Bool) (width : ℕ), bits.length ≤ 8 * width →
      integerBytes bits width = .ok (bigEndian width (bitsValue bits)) := by
  refine ⟨?_, integerBytes_bytesBits, ?_, value_secpValue, ?_⟩
  · intro data
    calc bytesBits data
        = bitsOf (bytesBits data).length (bitsValue (bytesBits data)) := (bitsOf_bitsValue _).symm
      _ = bitsOf (8 * data.length) (bigEndianValue data) := by
          rw [length_bytesBits, bitsValue_bytesBits]
      _ = _ := bitsOf_eq_map_testBit _ _
  · intro data
    rw [nativeValue_eq, ZMod.val_natCast]
  · intro bits width h
    exact integerBytes_eq h

/-- Bytes and bits run in opposite directions. -/
example : bytesBits [1, 2] = [false, true, false, false, false, false, false, false,
    true, false, false, false, false, false, false, false] := by
  decide

/-- A reduced element has its fixed-width bytes, and only a reduced one. -/
theorem fieldBytes_eq_ok {q : ℕ} (hq : q.size ≤ 256) {a : Element q} {bs : List UInt8} :
    fieldBytes a = .ok bs ↔ a.value < q ∧ bs = bigEndian 32 a.value := by
  have hbytes (h : a.value < q) : integerBytes (toBitsCanonical a) 32 = .ok (bigEndian 32 a.value) := by
    rw [toBitsCanonical, Nat.mod_eq_of_lt h]
    exact integerBytes_bitsOf (h.trans (Nat.lt_size_self q)) hq
  simp only [fieldBytes, bind_eq_ok, Element.assertIsInRange_eq_ok]
  constructor
  · rintro ⟨_, h, hok⟩
    rw [hbytes h, Except.ok.injEq] at hok
    exact ⟨h, hok.symm⟩
  · rintro ⟨h, rfl⟩
    exact ⟨(), h, hbytes h⟩

theorem bitsValue_nativeBits (v : Variable) : bitsValue (nativeBits v) = v.val :=
  bitsValue_bitsOf_of_lt ((ZMod.val_lt v).trans (Nat.lt_size_self bn254Fr))

/-- An exponent read from native bits stands for the native variable. -/
theorem cast_fromBits_nativeBits (v : Variable) :
    (((Element.fromBits (nativeBits v) : Element bn254Fr).value : ℤ) : ZMod bn254Fr) = v := by
  rw [Element.fromBits, bitsValue_nativeBits]
  simp

/-! ## Points -/

@[simp] theorem toAffine_emulate {p : ℕ} [NeZero p] (q : Affine p) : (emulate q).toAffine = q := by
  simp [emulate, EmulatedPoint.toAffine]

@[simp] theorem toAffine_secpPoint (q : Secp256k1G1) : (secpPoint q).toAffine = q :=
  toAffine_emulate q

@[simp] theorem toAffine_emulateG2 (q : Bn254G2) : (emulateG2 q).toAffine = q := by
  simp [emulateG2, EmulatedG2.toAffine]

theorem isZero_iff {p : ℕ} [NeZero p] {a : Element p} : a.isZero = true ↔ Fin.ofNat p a.value = 0 := by
  simp [Element.isZero, Fin.ext_iff]

theorem nonzeroPoint_eq_ok {p : ℕ} [NeZero p] {q : EmulatedPoint p} {u : Unit} :
    nonzeroPoint q = .ok u ↔ q.toAffine ≠ Affine.infinity := by
  rw [nonzeroPoint, assertThat_eq_ok, isZero_iff, isZero_iff, EmulatedPoint.toAffine,
    Affine.infinity, ne_eq, Affine.mk.injEq]

theorem assertSecpPoint_eq_ok {q : SecpPoint} {u : Unit} :
    assertSecpPoint lib q = .ok u ↔
      lib.secp.isOnCurve q.toAffine = true ∧ q.toAffine ≠ Affine.infinity := by
  simp only [assertSecpPoint, bind_eq_ok, assertThat_eq_ok, nonzeroPoint_eq_ok]
  constructor
  · rintro ⟨_, hcurve, hne⟩
    exact ⟨hcurve, hne⟩
  · rintro ⟨hcurve, hne⟩
    exact ⟨(), hcurve, hne⟩

theorem assertG1Point_eq_ok {q : EmulatedPoint bn254Fp} {u : Unit} :
    assertG1Point lib q = .ok u ↔ goodBN lib q.toAffine = true := by
  simp only [assertG1Point, bind_eq_ok, assertThat_eq_ok, nonzeroPoint_eq_ok, goodBN,
    PointGroup.good, Bool.and_eq_true, bne_iff_ne]
  constructor
  · rintro ⟨_, ⟨hcurve, hsub⟩, hne⟩
    exact ⟨⟨hne, hcurve⟩, hsub⟩
  · rintro ⟨⟨hne, hcurve⟩, hsub⟩
    exact ⟨(), ⟨hcurve, hsub⟩, hne⟩

theorem assertG2Point_eq_ok {q : EmulatedG2} {u : Unit} :
    assertG2Point lib q = .ok u ↔ goodBN2 lib q.toAffine = true := by
  have hzero : (q.xA0.isZero = true ∧ q.xA1.isZero = true ∧ q.yA0.isZero = true ∧
      q.yA1.isZero = true) ↔ q.toAffine = Bn254G2.infinity := by
    simp only [isZero_iff, EmulatedG2.toAffine, Bn254G2.infinity, Bn254G2.mk.injEq, E2.mk.injEq,
      and_assoc]
  simp only [assertG2Point, bind_eq_ok, assertThat_eq_ok, hzero, goodBN2, PointGroup.good,
    Bool.and_eq_true, bne_iff_ne]
  constructor
  · rintro ⟨_, ⟨hcurve, hsub⟩, hne⟩
    exact ⟨⟨hne, hcurve⟩, hsub⟩
  · rintro ⟨⟨hne, hcurve⟩, hsub⟩
    exact ⟨(), ⟨hcurve, hsub⟩, hne⟩

/-- A point that passes the host's test passes the circuit's. -/
theorem assertSecpPoint_of_good {q : SecpPoint} (h : goodSecp lib q.toAffine = true) :
    assertSecpPoint lib q = .ok () := by
  simp only [goodSecp, PointGroup.good, Bool.and_eq_true, bne_iff_ne] at h
  exact (assertSecpPoint_eq_ok lib).2 ⟨h.1.2, h.1.1⟩

theorem assertScalar_eq_ok {a : SecpScalar} {u : Unit} :
    assertScalar a = .ok u ↔ canonicalNonzero (some (a.value : ℤ)) secp256k1Fr = true := by
  simp only [assertScalar, bind_eq_ok, Element.assertIsInRange_eq_ok,
    Element.assertIsDifferent_zero, canonicalNonzero_some]
  have hres (h : a.value < secp256k1Fr) : a.residue ≠ 0 ↔ 0 < a.value := by
    rw [Element.residue, ne_eq, ZMod.natCast_eq_zero_iff, Nat.dvd_iff_mod_eq_zero,
      Nat.mod_eq_of_lt h]
    omega
  constructor
  · rintro ⟨_, hlt, hne⟩
    have := (hres hlt).1 hne
    exact ⟨by omega, by omega⟩
  · rintro ⟨hpos, hlt⟩
    have hlt' : a.value < secp256k1Fr := by omega
    exact ⟨(), hlt', (hres hlt').2 (by omega)⟩

theorem size_secp256k1Fr_le : secp256k1Fr.size ≤ 256 := Nat.size_le.2 (by decide)
theorem size_secp256k1Fp_le : secp256k1Fp.size ≤ 256 := Nat.size_le.2 (by decide)
theorem size_bn254Fp_le : bn254Fp.size ≤ 256 := Nat.size_le.2 (by decide)

/-- A coordinate pair in range is encoded as the host encodes the point. -/
theorem secpEncoding_eq_ok {q : SecpPoint} {bs : List UInt8} :
    secpEncoding q = .ok bs ↔
      (q.x.value < secp256k1Fp ∧ q.y.value < secp256k1Fp) ∧ bs = encodeSecpPoint q.toAffine := by
  have hencode (hx : q.x.value < secp256k1Fp) (hy : q.y.value < secp256k1Fp) :
      encodeSecpPoint q.toAffine = bigEndian 32 q.x.value ++ bigEndian 32 q.y.value := by
    simp [encodeSecpPoint, encodeAffine, EmulatedPoint.toAffine, Nat.mod_eq_of_lt, hx, hy]
  simp only [secpEncoding, bind_eq_ok, fieldBytes_eq_ok size_secp256k1Fp_le, pure_eq_ok]
  constructor
  · rintro ⟨_, ⟨hx, rfl⟩, _, ⟨hy, rfl⟩, rfl⟩
    exact ⟨⟨hx, hy⟩, (hencode hx hy).symm⟩
  · rintro ⟨⟨hx, hy⟩, rfl⟩
    exact ⟨_, ⟨hx, rfl⟩, _, ⟨hy, rfl⟩, (hencode hx hy).symm⟩

theorem secpEncoding_secpPoint (q : Secp256k1G1) :
    secpEncoding (secpPoint q) = .ok (encodeSecpPoint q) :=
  secpEncoding_eq_ok.2 ⟨⟨q.x.isLt, q.y.isLt⟩, by rw [toAffine_secpPoint]⟩

/-! ## The sections of `Define` -/

namespace Circuit

variable {lib} {c : Circuit}

theorem definePoints_eq_ok {u : Unit} :
    c.definePoints lib = .ok u ↔
      (∀ q ∈ [c.ut, c.sPoint, c.tPoint, c.accountU, c.accountY], assertSecpPoint lib q = .ok ()) ∧
        (∀ q ∈ [c.v, c.w, c.nym], goodBN lib q.toAffine = true) ∧
        ∀ q ∈ [c.h, c.hTau], goodBN2 lib q.toAffine = true := by
  simp only [definePoints, bind_eq_ok, forM_eq_ok, assertG1Point_eq_ok, assertG2Point_eq_ok]
  constructor
  · rintro ⟨_, hsecp, _, hbn, hbn2⟩
    exact ⟨hsecp, hbn, hbn2⟩
  · rintro ⟨hsecp, hbn, hbn2⟩
    exact ⟨(), hsecp, (), hbn, hbn2⟩

/-- With a 32-bit quota the three decompositions say that the counter is below it. -/
theorem counter_range_iff {k : UInt32} {counter : Variable} :
    (counter.val < 2 ^ 32 ∧ (k.toNat : Variable).val < 2 ^ 32 ∧ (k.toNat : Variable) ≠ 0 ∧
      ((k.toNat : Variable) - counter - 1).val < 2 ^ 32) ↔ counter.val < k.toNat := by
  have hk : k.toNat < 2 ^ 32 := k.toNat_lt
  have hbig : 2 ^ 33 < bn254Fr := by decide
  have hkval : (k.toNat : Variable).val = k.toNat := ZMod.val_natCast_of_lt (by omega)
  have hcast : ((counter.val : ℕ) : Variable) = counter := by simp
  constructor
  · rintro ⟨hcounter, _, _, hdiff⟩
    -- otherwise the difference wraps around to a value far above 32 bits
    by_contra hle
    have hwrap : ((k.toNat : Variable) - counter - 1).val = bn254Fr - (counter.val + 1 - k.toNat) := by
      have hsum : (k.toNat : Variable) - counter - 1 =
          ((bn254Fr - (counter.val + 1 - k.toNat) : ℕ) : Variable) := by
        rw [Nat.cast_sub (by omega), Nat.cast_sub (by omega), ZMod.natCast_self]
        push_cast
        rw [hcast]
        ring
      rw [hsum]
      exact ZMod.val_natCast_of_lt (by omega)
    omega
  · intro hlt
    have hdiff : (k.toNat : Variable) - counter - 1 = ((k.toNat - (counter.val + 1) : ℕ) : Variable) := by
      rw [Nat.cast_sub (by omega)]
      push_cast
      rw [hcast]
      ring
    refine ⟨by omega, by omega, ?_, ?_⟩
    · intro hzero
      rw [hzero, ZMod.val_zero] at hkval
      omega
    · rw [hdiff, ZMod.val_natCast_of_lt (by omega)]
      omega

theorem defineScalars_eq_ok {k : UInt32} (hk : c.k = (k.toNat : Variable)) {cnt : SecpScalar} :
    c.defineScalars = .ok cnt ↔
      (∀ a ∈ [c.x, c.d, c.r], canonicalNonzero (some (a.value : ℤ)) secp256k1Fr = true) ∧
        c.counter.val < k.toNat ∧ cnt = ⟨c.counter.val⟩ := by
  have hcnt (h : c.counter.val < 2 ^ 32) :
      (Element.fromBits (bitsOf 32 c.counter.val) : SecpScalar) = ⟨c.counter.val⟩ := by
    rw [Element.fromBits, bitsValue_bitsOf_of_lt h]
  simp only [defineScalars, bind_eq_ok, assertScalar_eq_ok, toBinary_eq_ok, assertThat_eq_ok,
    pure_eq_ok, hk, List.forall_mem_cons, List.not_mem_nil, false_imp_iff, implies_true, and_true]
  constructor
  · rintro ⟨_, hx, _, hd, _, hr, _, ⟨hcounter, rfl⟩, _, ⟨hkbits, _⟩, _, hkne, _, ⟨hdiff, _⟩, rfl⟩
    exact ⟨⟨hx, hd, hr⟩, counter_range_iff.1 ⟨hcounter, hkbits, hkne, hdiff⟩, hcnt hcounter⟩
  · rintro ⟨⟨hx, hd, hr⟩, hlt, rfl⟩
    obtain ⟨hcounter, hkbits, hkne, hdiff⟩ := counter_range_iff.2 hlt
    exact ⟨(), hx, (), hd, (), hr, _, ⟨hcounter, rfl⟩, _, ⟨hkbits, rfl⟩, (), hkne, _, ⟨hdiff, rfl⟩,
      hcnt hcounter⟩

/-- A circuit seed that is not zero is the host's scalar hash. -/
theorem secpValue_sha_iff {data : List UInt8} {a : SecpScalar} :
    (a = secpValue (sha data) ∧ a.residue ≠ 0) ↔ hashScalar data secp256k1Fr = .ok (a.value : ℤ) := by
  have hvalue : (secpValue (sha data)).value = (sha256 data).value % secp256k1Fr := value_secpValue _
  have hres (b : SecpScalar) (hb : b.value = (sha256 data).value % secp256k1Fr) :
      b.residue ≠ 0 ↔ (b.value : ℤ) ≠ 0 := by
    have hlt : b.value < secp256k1Fr := hb ▸ Nat.mod_lt _ (by decide)
    rw [Element.residue, ne_eq, ZMod.natCast_eq_zero_iff, Nat.dvd_iff_mod_eq_zero,
      Nat.mod_eq_of_lt hlt]
    omega
  rw [hashScalar_eq_ok]
  constructor
  · rintro ⟨rfl, hne⟩
    exact ⟨by decide, (hres _ hvalue).1 hne, by rw [hvalue]; rfl⟩
  · rintro ⟨_, hne, heq⟩
    have hnat : a.value = (sha256 data).value % secp256k1Fr := by exact_mod_cast heq
    exact ⟨Element.ext (hnat.trans hvalue.symm), (hres a hnat).2 hne⟩

theorem defineSeeds_eq_ok (hx : canonicalNonzero (some (c.x.value : ℤ)) secp256k1Fr = true)
    {s t : SecpScalar} :
    c.defineSeeds (bigEndian 32 c.x.value) = .ok (s, t) ↔
      seeds c.x.value c.issue = .ok ((s.value : ℤ), (t.value : ℤ)) := by
  simp only [defineSeeds, bind_eq_ok, Element.assertIsDifferent_zero, pure_eq_ok, Prod.mk.injEq,
    seeds_eq_ok, hx, true_and, ← secpValue_sha_iff, seedInput, Int.natAbs_natCast]
  constructor
  · rintro ⟨_, hs, _, ht, rfl, rfl⟩
    exact ⟨⟨rfl, hs⟩, rfl, ht⟩
  · rintro ⟨⟨rfl, hs⟩, rfl, ht⟩
    exact ⟨(), hs, (), ht, rfl, rfl⟩

/-- The exponent of a pseudonym base is the integer of the bytes. -/
theorem cast_nymExponent {n : ℕ} (hn : n < 256 ^ 32) :
    (((nymExponent (bigEndian 32 n)).value : ℤ) : ZMod bn254Fr) = (n : ℤ) := by
  rw [nymExponent, cast_fromBits_nativeBits, nativeValue_eq, bigEndianValue_bigEndian_of_lt hn]
  simp

theorem defineNym_eq_ok {b : Bn254G1 × Bn254G1 × Bn254G1} (hbases : bases lib = .ok b)
    {s t : SecpScalar} (hx : c.x.value < secp256k1Fr) (hs : s.value < secp256k1Fr)
    (ht : t.value < secp256k1Fr) {u : Unit} :
    c.defineNym lib (bigEndian 32 c.x.value) s t = .ok u ↔
      c.nym.toAffine = nymSum lib b s.value t.value c.x.value := by
  obtain ⟨g0, g1, g2⟩ := b
  obtain ⟨h0, h1, h2⟩ := (bases_eq_ok lib).1 hbases
  obtain ⟨hash0, hgood0⟩ := (nymBase_eq_ok lib).1 h0
  obtain ⟨hash1, hgood1⟩ := (nymBase_eq_ok lib).1 h1
  obtain ⟨hash2, hgood2⟩ := (nymBase_eq_ok lib).1 h2
  obtain ⟨a0, _, rfl⟩ := (goodBN_iff lib).1 hgood0
  obtain ⟨a1, _, rfl⟩ := (goodBN_iff lib).1 hgood1
  obtain ⟨a2, _, rfl⟩ := (goodBN_iff lib).1 hgood2
  have hwide : secp256k1Fr ≤ 256 ^ 32 := by decide
  have hsbytes := (fieldBytes_eq_ok size_secp256k1Fr_le).2 ⟨hs, rfl⟩
  have htbytes := (fieldBytes_eq_ok size_secp256k1Fr_le).2 ⟨ht, rfl⟩
  simp only [nymDST] at hash0 hash1 hash2
  simp only [defineNym, hsbytes, htbytes, hash0, hash1, hash2, ok_bind, assertThat_eq_ok,
    lib.bn.scalarMultiplication_exp, lib.bn.add_exp, cast_nymExponent (hs.trans_le hwide),
    cast_nymExponent (ht.trans_le hwide), cast_nymExponent (hx.trans_le hwide), nymSum_exp]
  exact eq_comm

theorem defineAccount_eq_ok {u : Unit} :
    c.defineAccount lib = .ok u ↔
      c.accountU.toAffine = lib.secp.exp c.d.value ∧
        c.accountY.toAffine = lib.secp.exp (c.x.value * c.d.value) := by
  simp only [defineAccount, bind_eq_ok, assertThat_eq_ok, lib.secp.multiple_eq_exp]
  constructor
  · rintro ⟨_, hu, hy⟩
    rw [← hu, lib.secp.scalarMultiplication_exp] at hy
    exact ⟨by rw [← hu]; simp, by rw [← hy]; simp⟩
  · rintro ⟨hu, hy⟩
    refine ⟨(), by rw [hu]; simp, ?_⟩
    rw [hu, hy, lib.secp.scalarMultiplication_exp]
    simp

/-- The regrouped pairing check is the membership relation of the host. -/
theorem defineMembership_eq_ok {a : Account} {τ ω ν : ZMod bn254Fr}
    (hu : c.accountU.toAffine = a.u) (hy : c.accountY.toAffine = a.y)
    (hh : c.h.toAffine = lib.bn2.generator) (hτ : c.hTau.toAffine = lib.bn2.exp τ)
    (hw : c.w.toAffine = lib.bn.exp ω) (hv : c.v.toAffine = lib.bn.exp ν) {u : Unit} :
    c.defineMembership lib = .ok u ↔
      (∃ bs, secpEncoding c.accountU = .ok bs) ∧ (∃ bs, secpEncoding c.accountY = .ok bs) ∧
        (memberHash a : ZMod bn254Fr) ≠ 0 ∧ ν = (τ + memberHash a) * ω := by
  have hsha : nativeValue (sha (textBytes "lktrs/member/v1" ++ encodeSecpPoint a.u ++
      encodeSecpPoint a.y)) = (memberHash a : ZMod bn254Fr) := nativeValue_eq _
  -- the pairing check in the exponents, which is the equation of the accumulator
  have hcheck := lib.pairing.pairingCheck_exp [((memberHash a : ZMod bn254Fr) * ω + -ν, 1), (ω, τ)]
  simp only [List.map_cons, List.map_nil, List.sum_cons, List.sum_nil] at hcheck
  have hrel : (((memberHash a : ZMod bn254Fr) * ω + -ν) * 1 + (ω * τ + 0) = 0) ↔
      ν = (τ + memberHash a) * ω := by
    constructor
    · intro h
      linear_combination -h
    · rintro rfl
      ring
  simp only [defineMembership, bind_eq_ok, assertThat_eq_ok, wrapError_eq_ok, secpEncoding_eq_ok, hu,
    hy, hh, hτ, hw, hv]
  constructor
  · rintro ⟨_, ⟨hrangeU, rfl⟩, _, ⟨hrangeY, rfl⟩, _, hne, ok, hpair, rfl⟩
    rw [hsha] at hne hpair
    rw [lib.bn.scalarMultiplication_exp, cast_fromBits_nativeBits, lib.bn.neg_exp, lib.bn.add_exp,
      lib.bn2.generator_eq_exp, hcheck, Except.ok.injEq, decide_eq_true_eq, hrel] at hpair
    exact ⟨⟨_, hrangeU, rfl⟩, ⟨_, hrangeY, rfl⟩, hne, hpair⟩
  · rintro ⟨⟨_, hrangeU, rfl⟩, ⟨_, hrangeY, rfl⟩, hne, hpair⟩
    refine ⟨_, ⟨hrangeU, rfl⟩, _, ⟨hrangeY, rfl⟩, (), by rwa [hsha], true, ?_, rfl⟩
    rw [hsha, lib.bn.scalarMultiplication_exp, cast_fromBits_nativeBits, lib.bn.neg_exp,
      lib.bn.add_exp, lib.bn2.generator_eq_exp, hcheck, Except.ok.injEq, decide_eq_true_eq, hrel]
    exact hpair

/-- The public inputs a statement gives to the transcript. -/
structure TranscriptOf (c : Circuit) (st : Statement) : Prop where
  nym_eq : c.nym = emulate st.nym
  issue_eq : c.issue = st.issue
  ringDigest_eq : c.ringDigest = st.ringDigest
  messageDigest_eq : c.messageDigest = st.messageDigest
  timestamp_eq : c.timestamp = (st.timestamp.toNat : Variable)
  k_eq : c.k = (st.k.toNat : Variable)

theorem defineChallenge_eq_ok {st : Statement} (h : TranscriptOf c st) {r : SecpScalar} :
    c.defineChallenge = .ok r ↔ r = secpValue (sha (challengeInput st)) ∧ r.residue = c.r.residue := by
  have hsize : (2 : ℕ) ^ 64 < bn254Fr := by decide
  have hts : st.timestamp.toNat < 2 ^ 64 := st.timestamp.toNat_lt
  have hk : st.k.toNat < 2 ^ 32 := st.k.toNat_lt
  have htsval : (st.timestamp.toNat : Variable).val = st.timestamp.toNat :=
    ZMod.val_natCast_of_lt (by omega)
  have hkval : (st.k.toNat : Variable).val = st.k.toNat := ZMod.val_natCast_of_lt (by omega)
  -- the coordinates and the integers of the transcript, byte for byte as the host writes them
  have hx : fieldBytes c.nym.x = .ok (bigEndian 32 st.nym.x.val) := by
    rw [h.nym_eq]
    exact (fieldBytes_eq_ok size_bn254Fp_le).2 ⟨st.nym.x.isLt, rfl⟩
  have hy : fieldBytes c.nym.y = .ok (bigEndian 32 st.nym.y.val) := by
    rw [h.nym_eq]
    exact (fieldBytes_eq_ok size_bn254Fp_le).2 ⟨st.nym.y.isLt, rfl⟩
  have htsbits : toBinary c.timestamp 64 = .ok (bitsOf 64 st.timestamp.toNat) := by
    rw [h.timestamp_eq, toBinary_eq_ok, htsval]
    exact ⟨hts, rfl⟩
  have hkbits : toBinary c.k 32 = .ok (bitsOf 32 st.k.toNat) := by
    rw [h.k_eq, toBinary_eq_ok, hkval]
    exact ⟨hk, rfl⟩
  have htsbytes := @integerBytes_bitsOf 64 8 _ hts (by decide)
  have hkbytes := @integerBytes_bitsOf 32 4 _ hk (by decide)
  have htranscript : textBytes "lktrs/challenge/v1" ++ c.issue.toList ++ c.ringDigest.toList ++
      c.messageDigest.toList ++ bigEndian 32 st.nym.x.val ++ bigEndian 32 st.nym.y.val ++
      bigEndian 8 st.timestamp.toNat ++ bigEndian 4 st.k.toNat = challengeInput st := by
    rw [h.issue_eq, h.ringDigest_eq, h.messageDigest_eq, challengeInput, encodeBNPoint,
      encodeAffine, challengeDomain]
    simp only [List.append_assoc]
  simp only [defineChallenge, hx, hy, htsbits, htsbytes, hkbits, hkbytes, ok_bind, bind_eq_ok,
    Element.assertIsEqual_eq_ok, pure_eq_ok, htranscript]
  constructor
  · rintro ⟨_, heq, rfl⟩
    exact ⟨rfl, heq⟩
  · rintro ⟨rfl, heq⟩
    exact ⟨(), heq, rfl⟩

theorem defineTags_eq_ok {cnt s t r : SecpScalar} {υ : ZMod secp256k1Fr}
    (hut : c.ut.toAffine = lib.secp.exp υ) {u : Unit} :
    c.defineTags lib cnt s t r = .ok u ↔
      (s.residue + cnt.residue + 1 ≠ 0 ∧
        c.sPoint.toAffine = lib.secp.exp ((s.residue + cnt.residue + 1)⁻¹ * υ)) ∧
      t.residue + cnt.residue + 1 ≠ 0 ∧
        c.tPoint.toAffine =
          lib.secp.exp (c.x.residue + r.residue * (t.residue + cnt.residue + 1)⁻¹ * υ) := by
  have hscalar (e : SecpScalar) : ((e.value : ℤ) : ZMod secp256k1Fr) = e.residue := by
    simp [Element.residue]
  simp only [defineTags, bind_eq_ok, assertThat_eq_ok, Element.assertIsDifferent_zero,
    Element.residue_add, Element.residue_one, hut, lib.secp.multiple_eq_exp,
    lib.secp.scalarMultiplication_exp, lib.secp.add_exp, hscalar, Element.residue_mul]
  have hS : ((s.add cnt).add Element.one).residue = s.residue + cnt.residue + 1 := by simp
  have hT : ((t.add cnt).add Element.one).residue = t.residue + cnt.residue + 1 := by simp
  constructor
  · rintro ⟨_, hdenS, is, his, _, hs, _, hdenT, it, hit, ht⟩
    -- the inverse the gadget found is the only one
    obtain ⟨is', his', hisres⟩ := Element.inverse_eq_ok (hS ▸ hdenS)
    obtain ⟨it', hit', hitres⟩ := Element.inverse_eq_ok (hT ▸ hdenT)
    rw [his, Except.ok.injEq] at his'
    rw [hit, Except.ok.injEq] at hit'
    subst his' hit'
    rw [hisres, hS] at hs
    rw [hitres, hT] at ht
    exact ⟨⟨hdenS, hs.symm⟩, hdenT, ht.symm⟩
  · rintro ⟨⟨hdenS, hs⟩, hdenT, ht⟩
    obtain ⟨is, his, hisres⟩ := Element.inverse_eq_ok (hS ▸ hdenS)
    obtain ⟨it, hit, hitres⟩ := Element.inverse_eq_ok (hT ▸ hdenT)
    refine ⟨(), hdenS, is, his, (), ?_, (), hdenT, it, hit, ?_⟩
    · rw [hisres, hS, hs]
    · rw [hitres, hT, ht]

end Circuit

end Lktrs.NativeProof
