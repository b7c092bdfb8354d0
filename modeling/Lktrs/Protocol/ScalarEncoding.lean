import Mathlib.Data.Nat.Size
import Lktrs.Protocol.Ddh

/-!
# Canonical encodings of scalars

The two checks that decoding a scalar makes before it accepts the bytes, from
`crypto/ddh.cpp` and `crypto/pairing.cpp`. The first compares a little-endian string with
the order byte by byte from the top; the second compares big-endian strings of one length
lexicographically, against the order that `mpz_to_fixed_bytes` has padded on the left. Both
are comparisons of the integers (`canonicalBelow_iff`, `lexicographicalCompare_iff`), so a
scalar has one encoding that is accepted.
-/

set_option autoImplicit false

namespace Lktrs.Protocol

open Lktrs.Foundation

/-! ## Scalars of `G_p` -/

/-- `kScalarOrder`, least significant byte first. -/
def kScalarOrder : FixedBytes 32 :=
  ⟨[0xed, 0xd3, 0xf5, 0x5c, 0x1a, 0x63, 0x12, 0x58, 0xd6, 0x9c, 0xf7, 0xa2, 0xde, 0xf9, 0xde, 0x14,
    0x00, 0x00, 0x00, 0x00, 0x00, 0x00, 0x00, 0x00, 0x00, 0x00, 0x00, 0x00, 0x00, 0x00, 0x00, 0x10],
    rfl⟩

/-- The loop of `scalar_is_canonical` over the indices below `n`, from the top. -/
def canonicalBelow (value order : List UInt8) : ℕ → Bool
  | 0 => false
  | index + 1 =>
      if value.getD index 0 ≠ order.getD index 0 then
        decide (value.getD index 0 < order.getD index 0)
      else canonicalBelow value order index

/-- `scalar_is_canonical`. -/
def scalarIsCanonical (value : FixedBytes 32) : Bool :=
  canonicalBelow value.toList kScalarOrder.toList 32

theorem littleEndianValue_take_succ {bytes : List UInt8} {n : ℕ} (h : n < bytes.length) :
    littleEndianValue (bytes.take (n + 1)) =
      littleEndianValue (bytes.take n) + (bytes.getD n 0).toNat * 256 ^ n := by
  have hlast : bytes.take (n + 1) = bytes.take n ++ [bytes.getD n 0] := by
    rw [List.take_add_one, List.getD_eq_getElem?_getD, List.getElem?_eq_getElem h]
    rfl
  rw [littleEndianValue, littleEndianValue, hlast, List.reverse_append, List.reverse_singleton,
    List.singleton_append, bigEndianValue, List.length_reverse, List.length_take_of_le h.le]
  ring

theorem littleEndianValue_take_lt (bytes : List UInt8) (n : ℕ) :
    littleEndianValue (bytes.take n) < 256 ^ n := by
  have hlt := bigEndianValue_lt (bytes.take n).reverse
  rw [List.length_reverse] at hlt
  exact hlt.trans_le (Nat.pow_le_pow_right (by decide) (List.length_take_le n bytes))

/-- The scan from the top compares the integers of the bytes below. -/
theorem canonicalBelow_iff {value order : List UInt8} {n : ℕ} (hvalue : n ≤ value.length)
    (horder : n ≤ order.length) :
    canonicalBelow value order n = true ↔
      littleEndianValue (value.take n) < littleEndianValue (order.take n) := by
  induction n with
  | zero => simp [canonicalBelow]
  | succ n ih =>
      rw [littleEndianValue_take_succ hvalue, littleEndianValue_take_succ horder, canonicalBelow]
      have hlow := littleEndianValue_take_lt value n
      have hlow' := littleEndianValue_take_lt order n
      by_cases hsame : value.getD n 0 = order.getD n 0
      · -- equal top bytes leave the comparison to those below
        rw [if_neg (not_not.2 hsame), hsame, ih (by omega) (by omega)]
        omega
      · rw [if_pos hsame, decide_eq_true_eq, UInt8.lt_iff_toNat_lt]
        have hne : (value.getD n 0).toNat ≠ (order.getD n 0).toNat :=
          fun heq => hsame (UInt8.toNat_inj.1 heq)
        generalize (value.getD n 0).toNat = v at hne ⊢
        generalize (order.getD n 0).toNat = w at hne ⊢
        generalize littleEndianValue (value.take n) = a at hlow ⊢
        generalize littleEndianValue (order.take n) = b at hlow' ⊢
        constructor
        · -- a smaller top byte outweighs everything below
          intro hlt
          have hstep : (v + 1) * 256 ^ n ≤ w * 256 ^ n := Nat.mul_le_mul_right _ hlt
          rw [Nat.add_mul, Nat.one_mul] at hstep
          omega
        · intro hsum
          by_contra hge
          have hstep : (w + 1) * 256 ^ n ≤ v * 256 ^ n :=
            Nat.mul_le_mul_right _ (by omega)
          rw [Nat.add_mul, Nat.one_mul] at hstep
          omega

theorem littleEndianValue_kScalarOrder :
    littleEndianValue kScalarOrder.toList = ristrettoOrder := by
  decide

theorem scalarIsCanonical_iff (value : FixedBytes 32) :
    scalarIsCanonical value = true ↔ littleEndianValue value.toList < ristrettoOrder := by
  have hvalue := value.length_toList
  have horder := kScalarOrder.length_toList
  rw [scalarIsCanonical, canonicalBelow_iff hvalue.ge horder.ge, List.take_of_length_le hvalue.le,
    List.take_of_length_le horder.le, littleEndianValue_kScalarOrder]

/-! ## Scalars of the pairing groups -/

/-- `mpz_export`: the bytes of an integer, most significant first, without leading zeros. -/
def mpzExport (value : ℕ) : List UInt8 := ((Nat.digits 256 value).map UInt8.ofNat).reverse

/-- `mpz_to_fixed_bytes`. -/
def mpzToFixedBytes (value width : ℕ) : Except Thrown (List UInt8) :=
  if width = 0 then pure [] else do
    let written := (mpzExport value).length
    throwIf (written > width) .logicError "value does not fit encoding width"
    let out := mpzExport value ++ List.replicate (width - written) 0
    -- the bytes are moved to the end, and the space before them is filled with zeros
    if written ≠ 0 ∧ written < width then
      pure (List.replicate (width - written) 0 ++ out.take written)
    else pure out

/-- `order_bytes`. -/
def orderBytes (r width : ℕ) : Except Thrown (List UInt8) := do
  let encoded ← mpzToFixedBytes r width
  throwIf (encoded.length ≠ width) .logicError
    "scalar order does not fit the declared element width"
  pure encoded

/-- `std::lexicographical_compare`. -/
def lexicographicalCompare : List UInt8 → List UInt8 → Bool
  | [], [] => false
  | [], _ :: _ => true
  | _ :: _, [] => false
  | a :: as, b :: bs => if a < b then true else if b < a then false else lexicographicalCompare as bs

/-- `require_canonical_scalar`. -/
def requireCanonicalScalar (r width : ℕ) (encoded : List UInt8) (label : String) :
    Except Thrown Unit := do
  let bound ← orderBytes r width
  throwIf (encoded.length ≠ bound.length ∨ lexicographicalCompare encoded bound = false)
    .invalidArgument label

/-- Strings of one length are ordered like their integers. -/
theorem lexicographicalCompare_iff : ∀ {as bs : List UInt8}, as.length = bs.length →
    (lexicographicalCompare as bs = true ↔ bigEndianValue as < bigEndianValue bs) := by
  intro as
  induction as with
  | nil =>
      intro bs hlength
      obtain rfl := List.length_eq_zero_iff.1 hlength.symm
      simp [lexicographicalCompare]
  | cons a as ih =>
      intro bs hlength
      cases bs with
      | nil => cases hlength
      | cons b bs =>
          rw [List.length_cons, List.length_cons, Nat.add_right_cancel_iff] at hlength
          have hlow := bigEndianValue_lt as
          have hlow' := bigEndianValue_lt bs
          rw [lexicographicalCompare, bigEndianValue, bigEndianValue, hlength]
          rw [hlength] at hlow
          simp only [UInt8.lt_iff_toNat_lt]
          -- the first byte decides unless the two agree; a step there outweighs all bytes behind it
          rcases Nat.lt_trichotomy a.toNat b.toNat with hlt | heq | hlt
          · rw [if_pos hlt]
            have hstep : (a.toNat + 1) * 256 ^ bs.length ≤ b.toNat * 256 ^ bs.length :=
              Nat.mul_le_mul_right _ hlt
            rw [Nat.add_mul, Nat.one_mul] at hstep
            constructor
            · intro _
              omega
            · intro _
              rfl
          · rw [if_neg heq.not_lt, if_neg heq.not_gt, ih hlength, heq]
            omega
          · rw [if_neg hlt.not_gt, if_pos hlt]
            have hstep : (b.toNat + 1) * 256 ^ bs.length ≤ a.toNat * 256 ^ bs.length :=
              Nat.mul_le_mul_right _ hlt
            rw [Nat.add_mul, Nat.one_mul] at hstep
            constructor
            · intro hfalse
              cases hfalse
            · intro hsum
              omega

theorem bigEndianValue_mpzExport (value : ℕ) : bigEndianValue (mpzExport value) = value := by
  have hdigits : ∀ ds : List ℕ, (∀ digit ∈ ds, digit < 256) →
      bigEndianValue (ds.map UInt8.ofNat).reverse = Nat.ofDigits 256 ds := by
    intro ds
    induction ds with
    | nil => intro _; rfl
    | cons digit ds ih =>
        intro hlt
        obtain ⟨hdigit, hds⟩ := List.forall_mem_cons.1 hlt
        have hbyte : (UInt8.ofNat digit).toNat = digit := UInt8.toNat_ofNat_of_lt' hdigit
        rw [List.map_cons, List.reverse_cons, bigEndianValue_append, ih hds, Nat.ofDigits_cons,
          bigEndianValue, hbyte]
        simp [bigEndianValue]
        ring
  rw [mpzExport, hdigits _ fun digit hmem => Nat.digits_lt_base (by decide) hmem,
    Nat.ofDigits_digits]

theorem length_mpzExport_le {value width : ℕ} (h : value < 256 ^ width) :
    (mpzExport value).length ≤ width := by
  rw [mpzExport, List.length_reverse, List.length_map]
  exact (Nat.digits_length_le_iff (by decide) value).2 h

/-- A value that fits is written in the whole width, with zeros in front. -/
theorem mpzToFixedBytes_eq {value width : ℕ} (h : value < 256 ^ width) :
    mpzToFixedBytes value width = .ok (bigEndian width value) := by
  have hle := length_mpzExport_le h
  have hpadded : bigEndian width value =
      List.replicate (width - (mpzExport value).length) 0 ++ mpzExport value := by
    have hzeros : bigEndianValue (List.replicate (width - (mpzExport value).length) 0) = 0 :=
      bigEndianValue_eq_zero.2 fun b hb => List.eq_of_mem_replicate hb
    have hspelled := bigEndian_bigEndianValue
      (List.replicate (width - (mpzExport value).length) 0 ++ mpzExport value)
    rw [bigEndianValue_append, hzeros, Nat.zero_mul, Nat.zero_add, bigEndianValue_mpzExport,
      List.length_append, List.length_replicate, Nat.sub_add_cancel hle] at hspelled
    exact hspelled
  rw [mpzToFixedBytes]
  by_cases hwidth : width = 0
  · subst hwidth
    rw [if_pos rfl]
    rfl
  · rw [if_neg hwidth]
    dsimp only
    rw [throwIf_of_not (not_lt.2 hle), ok_bind, hpadded]
    by_cases hmove : (mpzExport value).length ≠ 0 ∧ (mpzExport value).length < width
    · rw [if_pos hmove, List.take_left]
      rfl
    · -- nothing was written, or the whole width was
      rw [if_neg hmove]
      rcases Nat.eq_zero_or_pos (mpzExport value).length with hzero | hpos
      · rw [List.length_eq_zero_iff.1 hzero]
        simp [pure, Except.pure]
      · have hfull : width - (mpzExport value).length = 0 := by omega
        rw [hfull]
        simp [pure, Except.pure]

theorem orderBytes_eq {r width : ℕ} (h : r < 256 ^ width) :
    orderBytes r width = .ok (bigEndian width r) := by
  rw [orderBytes, mpzToFixedBytes_eq h, ok_bind, throwIf_of_not (by simp)]
  rfl

theorem requireCanonicalScalar_eq_ok {r width : ℕ} (h : r < 256 ^ width) {encoded : List UInt8}
    {label : String} {u : Unit} :
    requireCanonicalScalar r width encoded label = .ok u ↔
      encoded.length = width ∧ bigEndianValue encoded < r := by
  rw [requireCanonicalScalar, orderBytes_eq h, ok_bind, throwIf_eq_ok, not_or, not_not,
    Bool.not_eq_false, length_bigEndian]
  refine and_congr_right fun hlength => ?_
  rw [lexicographicalCompare_iff (by rw [hlength, length_bigEndian]),
    bigEndianValue_bigEndian_of_lt h]

/-- Both checks compare integers: a scalar of `G_p` is canonical when its little-endian value
is below the order, and a scalar of the pairing groups when its string has the width of the
encoding and its big-endian value is below the order, whose bytes have that width. -/
theorem canonical_checks_exact :
    littleEndianValue kScalarOrder.toList = ristrettoOrder ∧
    (∀ value : FixedBytes 32,
      scalarIsCanonical value = true ↔ littleEndianValue value.toList < ristrettoOrder) ∧
    ∀ r width : ℕ, r < 256 ^ width →
      orderBytes r width = .ok (bigEndian width r) ∧
      ∀ (encoded : List UInt8) (label : String),
        requireCanonicalScalar r width encoded label = .ok () ↔
          encoded.length = width ∧ bigEndianValue encoded < r := by
  refine ⟨littleEndianValue_kScalarOrder, scalarIsCanonical_iff, ?_⟩
  intro r width hfits
  refine ⟨orderBytes_eq hfits, ?_⟩
  intro encoded label
  exact requireCanonicalScalar_eq_ok hfits

/-- The order itself is not canonical, and the integer below it is. -/
example : scalarIsCanonical kScalarOrder = false ∧
    scalarIsCanonical ⟨0xec :: kScalarOrder.toList.tail, rfl⟩ = true := by
  decide

/-! ## Decoding -/

theorem lt_pow_scalarWidth (r : ℕ) : r < 256 ^ scalarWidth r := by
  have hsize := Nat.lt_size_self r
  have hwidth : r.size ≤ 8 * scalarWidth r := by
    unfold scalarWidth
    omega
  calc r < 2 ^ r.size := hsize
    _ ≤ 2 ^ (8 * scalarWidth r) := Nat.pow_le_pow_right (by decide) hwidth
    _ = 256 ^ scalarWidth r := by rw [pow_mul]; norm_num

theorem bigEndianValue_residueBytes {r : ℕ} [NeZero r] (a : ZMod r) : bigEndianValue (residueBytes a) = a.val :=
  bigEndianValue_bigEndian_of_lt ((ZMod.val_lt a).trans (lt_pow_scalarWidth r))

/-- `Scalar::from_bytes`; the library reads the whole string. -/
def Scalar.fromBytes {r : ℕ} (context : PairingContext) (bytes : List UInt8) :
    Except Thrown (Scalar r) := do
  let k ← context.get
  throwIf (bytes.length ≠ scalarWidth r) .invalidArgument "element encoding has the wrong length"
  requireCanonicalScalar r (scalarWidth r) bytes "scalar encoding is not reduced modulo the order"
  pure (.live k (bigEndianValue bytes : ZMod r))

/-- Exactly the encodings of scalars are decoded, each to its scalar. -/
theorem Scalar.fromBytes_eq_ok {r : ℕ} [NeZero r] {context : PairingContext} {bytes : List UInt8}
    {x : Scalar r} :
    Scalar.fromBytes context bytes = .ok x ↔
      ∃ k a, context.state = some k ∧ x = .live k a ∧ bytes = residueBytes a := by
  simp only [Scalar.fromBytes, bind_eq_ok, context_get_eq_ok, throwIf_eq_ok, not_not, pure_eq_ok,
    requireCanonicalScalar_eq_ok (lt_pow_scalarWidth r)]
  constructor
  · rintro ⟨k, hk, -, hlength, -, ⟨-, hlt⟩, rfl⟩
    refine ⟨k, _, hk, rfl, ?_⟩
    rw [residueBytes, ZMod.val_natCast_of_lt hlt, ← hlength, bigEndian_bigEndianValue]
  · rintro ⟨k, a, hk, rfl, rfl⟩
    have hlength : (residueBytes a).length = scalarWidth r := length_bigEndian _ _
    have hvalue := bigEndianValue_residueBytes a
    refine ⟨k, hk, (), hlength, (), ⟨hlength, ?_⟩, ?_⟩
    · rw [hvalue]
      exact ZMod.val_lt a
    · rw [hvalue, ZMod.natCast_zmod_val]

/-- The little-endian bytes of a scalar of `G_p`. -/
def gpScalarEncoding (a : ZMod ristrettoOrder) : List UInt8 := (bigEndian 32 a.val).reverse

/-- `GpScalar::from_bytes`. -/
def GpScalar.fromBytes (context : DdhContext) (bytes : List UInt8) : Except Thrown GpScalar := do
  match FixedBytes.ofList? 32 bytes with
  | none => .error ⟨.invalidArgument, "G_p scalar encoding has the wrong length"⟩
  | some raw => do
      let k ← context.get
      throwIf (scalarIsCanonical raw = false) .invalidArgument
        "G_p scalar encoding is not reduced modulo the order"
      pure (.live k (littleEndianValue raw.toList : ZMod ristrettoOrder))

theorem GpScalar.fromBytes_eq_ok {context : DdhContext} {bytes : List UInt8} {x : GpScalar} :
    GpScalar.fromBytes context bytes = .ok x ↔
      ∃ k a, context.state = some k ∧ x = .live k a ∧ bytes = gpScalarEncoding a := by
  constructor
  · intro h
    cases hraw : FixedBytes.ofList? 32 bytes with
    | none =>
        simp only [GpScalar.fromBytes, hraw] at h
        cases h
    | some raw =>
        simp only [GpScalar.fromBytes, hraw, bind_eq_ok, DdhContext.get_eq_ok, throwIf_eq_ok,
          Bool.not_eq_false, pure_eq_ok, scalarIsCanonical_iff] at h
        obtain ⟨k, hk, -, hlt, rfl⟩ := h
        obtain rfl := FixedBytes.ofList?_eq_some.1 hraw
        refine ⟨k, _, hk, rfl, ?_⟩
        -- the string is the only one of its length that spells its value
        have hspelled := bigEndian_bigEndianValue raw.toList.reverse
        rw [List.length_reverse, raw.length_toList] at hspelled
        rw [gpScalarEncoding, ZMod.val_natCast_of_lt hlt, littleEndianValue, hspelled,
          List.reverse_reverse]
  · rintro ⟨k, a, hk, rfl, rfl⟩
    have hlength : (gpScalarEncoding a).length = 32 := by simp [gpScalarEncoding]
    have hlt : a.val < 256 ^ 32 := (ZMod.val_lt a).trans (by decide)
    have hvalue : littleEndianValue (gpScalarEncoding a) = a.val := by
      rw [littleEndianValue, gpScalarEncoding, List.reverse_reverse,
        bigEndianValue_bigEndian_of_lt hlt]
    have hraw := FixedBytes.ofList?_toList (⟨gpScalarEncoding a, hlength⟩ : FixedBytes 32)
    have hcanonical : scalarIsCanonical ⟨gpScalarEncoding a, hlength⟩ = true := by
      rw [scalarIsCanonical_iff, hvalue]
      exact ZMod.val_lt a
    simp only [GpScalar.fromBytes, hraw, DdhContext.get_eq_ok.2 hk, ok_bind,
      throwIf_of_not (by simp [hcanonical] : ¬ scalarIsCanonical ⟨_, hlength⟩ = false), hvalue,
      ZMod.natCast_zmod_val]
    rfl

end Lktrs.Protocol
