import Lktrs.NativeProof.Accumulator
import Lktrs.NativeProof.ExponentModel

/-!
# The parameter file

`setup_encoding.go`: public parameters as one byte string, a magic text and a
count followed by compressed points. The decoder takes slices at fixed offsets,
reads a point from each and compares its own encoding of the point with the
slice, so the slices it accepts spell out the file. With the validation at both
ends this makes the codec a bijection between accepted files and valid
parameters (`params_codec_exact`).

A slice outside of the string would stop the decoder with a run-time fault; that
outcome is kept apart from the errors the decoder returns (`Stop`).
-/

set_option autoImplicit false

namespace Lktrs.NativeProof

open Lktrs.Foundation

def paramsMagic : String := "LKTRSP01"

def maxParamsBytes : ℕ := 12 + 32 + 64 * 2 + (2 ^ 16 + 1) * 32

/-- The library's compressed encoding of a group: a fixed width, and good points are read back. -/
structure PointCodec {P : Type} [DecidableEq P] {infinity : P} {n : ℕ}
    (G : PointGroup P infinity n) (width : ℕ) where
  bytes : P → FixedBytes width
  setBytes : List UInt8 → Except String P
  setBytes_bytes : ∀ p, G.good p = true → setBytes (bytes p).toList = .ok p

/-- The compressed encodings of the two BN254 groups. -/
structure SetupCodec (lib : GnarkCrypto) where
  g1 : PointCodec lib.bn 32
  g2 : PointCodec lib.bn2 64

/-- How the decoder stops without a result: with an error it returns, or at a slice that is out of
range. -/
inductive Stop where
  | error (text : String)
  | sliceOutOfRange
  deriving DecidableEq

/-- An error the decoder returns. -/
def returned {α : Type} (x : Except String α) : Except Stop α := x.mapError .error

/-- `raw[lo:hi]`. -/
def sliceOf (raw : List UInt8) (lo hi : ℕ) : Except Stop (List UInt8) :=
  match slice? raw lo hi with
  | some bs => .ok bs
  | none => .error .sliceOutOfRange

section Codec

variable {lib : GnarkCrypto} (codec : SetupCodec lib)

def marshalParams (p : Params) : Except String (List UInt8) := do
  validateParams lib p
  return textBytes paramsMagic ++ (bigEndian 4 p.powers.length ++ ((codec.g1.bytes p.g).toList ++
    ((codec.g2.bytes p.h).toList ++ ((codec.g2.bytes p.hTau).toList ++
      p.powers.flatMap fun v => (codec.g1.bytes v).toList))))

/-- The local functions `g1` and `g2` of `UnmarshalParams`: read a point, then compare its encoding
with the bytes it came from. -/
def readPoint {P : Type} [DecidableEq P] {infinity : P} {n width : ℕ} {G : PointGroup P infinity n}
    (points : PointCodec G width) (text : String) (raw : List UInt8) (pos : ℕ) : Except Stop P := do
  let data ← sliceOf raw pos (pos + width)
  let out ← returned (points.setBytes data)
  returned (rejectIf (data ≠ (points.bytes out).toList ∨ G.good out = false) text)
  return out

def readG1 : List UInt8 → ℕ → Except Stop Bn254G1 := readPoint codec.g1 "noncanonical public G1"

def readG2 : List UInt8 → ℕ → Except Stop Bn254G2 := readPoint codec.g2 "noncanonical public G2"

/-- The loop over the powers still to read, from position `pos` on. -/
def readPowers (raw : List UInt8) : ℕ → ℕ → Except Stop (List Bn254G1)
  | _, 0 => .ok []
  | pos, n + 1 => do
      let v ← readG1 codec raw pos
      let vs ← readPowers raw (pos + 32) n
      return v :: vs

def unmarshalParams (raw : List UInt8) : Except Stop Params := do
  returned (rejectIf (raw.length < 12 ∨ raw.length > maxParamsBytes)
    "invalid public parameter header")
  let magic ← sliceOf raw 0 8
  returned (rejectIf (magic ≠ textBytes paramsMagic) "invalid public parameter header")
  let header ← sliceOf raw 8 12
  let count := bigEndianValue header
  returned (rejectIf (count < 2 ∨ count > 2 ^ 16 + 1 ∨ raw.length ≠ 12 + 32 + 128 + count * 32)
    "invalid public power count or size")
  let g ← readG1 codec raw 12
  let h ← readG2 codec raw 44
  let hTau ← readG2 codec raw 108
  let powers ← readPowers codec raw 172 count
  returned (validateParams lib { g, h, hTau, powers })
  return { g, h, hTau, powers }

end Codec

/-! ## Slices and points -/

@[simp] theorem returned_eq_ok {α : Type} {x : Except String α} {a : α} :
    returned x = .ok a ↔ x = .ok a :=
  mapError_eq_ok

theorem returned_ne_fault {α : Type} (x : Except String α) :
    returned x ≠ .error .sliceOutOfRange := by
  cases x <;> simp [returned, Except.mapError]

/-- A sequence faults only where one of its parts does. -/
theorem bind_ne_fault {α β : Type} {x : Except Stop α} {f : α → Except Stop β}
    (hx : x ≠ .error .sliceOutOfRange) (hf : ∀ a, x = .ok a → f a ≠ .error .sliceOutOfRange) :
    (x >>= f) ≠ .error .sliceOutOfRange := by
  cases x with
  | error e =>
      intro h
      cases h
      exact hx rfl
  | ok a => exact hf a rfl

theorem sliceOf_eq_ok {raw bs : List UInt8} {lo hi : ℕ} :
    sliceOf raw lo hi = .ok bs ↔
      lo ≤ hi ∧ hi ≤ raw.length ∧ bs.length = hi - lo ∧ raw.drop lo = bs ++ raw.drop hi := by
  rw [← slice?_eq_some, sliceOf]
  cases slice? raw lo hi <;> simp

theorem sliceOf_of_le {raw : List UInt8} {lo hi : ℕ} (hlo : lo ≤ hi) (hhi : hi ≤ raw.length) :
    ∃ bs, sliceOf raw lo hi = .ok bs := by
  rw [sliceOf, slice?_of_le hlo hhi]
  exact ⟨_, rfl⟩

/-- After a field comes what stands behind it. -/
theorem drop_after_field {raw field rest : List UInt8} {pos width : ℕ}
    (h : raw.drop pos = field ++ rest) (hwidth : field.length = width) :
    raw.drop (pos + width) = rest := by
  rw [← List.drop_drop, h, List.drop_left' hwidth]

section Points

variable {P : Type} [DecidableEq P] {infinity : P} {n width : ℕ} {G : PointGroup P infinity n}
  {points : PointCodec G width} {text : String} {raw : List UInt8} {pos : ℕ}

/-- A point is read exactly where its encoding stands, and only a good one. -/
theorem readPoint_eq_ok {p : P} :
    readPoint points text raw pos = .ok p ↔
      G.good p = true ∧ pos + width ≤ raw.length ∧
        raw.drop pos = (points.bytes p).toList ++ raw.drop (pos + width) := by
  simp only [readPoint, bind_eq_ok, sliceOf_eq_ok, returned_eq_ok, rejectIf_eq_ok, pure_eq_ok,
    not_or, not_not, Bool.not_eq_false]
  constructor
  · rintro ⟨data, ⟨_, hhi, _, hdrop⟩, out, _, _, ⟨rfl, hgood⟩, rfl⟩
    exact ⟨hgood, hhi, hdrop⟩
  · rintro ⟨hgood, hhi, hdrop⟩
    refine ⟨_, ⟨Nat.le_add_right pos width, hhi, ?_, hdrop⟩, p, points.setBytes_bytes p hgood, (),
      ⟨rfl, hgood⟩, rfl⟩
    rw [FixedBytes.length_toList, Nat.add_sub_cancel_left]

theorem readPoint_ne_fault (h : pos + width ≤ raw.length) :
    readPoint points text raw pos ≠ .error .sliceOutOfRange := by
  obtain ⟨data, hdata⟩ := sliceOf_of_le (Nat.le_add_right pos width) h
  rw [readPoint, hdata, ok_bind]
  refine bind_ne_fault (returned_ne_fault _) fun out _ => ?_
  exact bind_ne_fault (returned_ne_fault _) fun _ _ => nofun

end Points

section Files

variable {lib : GnarkCrypto} {codec : SetupCodec lib} {raw : List UInt8}

/-- The loop reads powers whose encodings stand one after the other. -/
theorem readPowers_eq_ok : ∀ {count pos : ℕ} {powers : List Bn254G1}, pos ≤ raw.length →
    (readPowers codec raw pos count = .ok powers ↔
      powers.length = count ∧ (∀ v ∈ powers, goodBN lib v = true) ∧
        pos + 32 * count ≤ raw.length ∧
        raw.drop pos = (powers.flatMap fun v => (codec.g1.bytes v).toList) ++
          raw.drop (pos + 32 * count)) := by
  intro count
  induction count with
  | zero =>
      intro pos powers hpos
      rw [readPowers, Except.ok.injEq]
      constructor
      · rintro rfl
        simpa using hpos
      · rintro ⟨hlen, _⟩
        exact (List.length_eq_zero_iff.1 hlen).symm
  | succ count ih =>
      intro pos powers hpos
      have hshift : pos + 32 + 32 * count = pos + 32 * (count + 1) := by ring
      simp only [readPowers, bind_eq_ok, pure_eq_ok, readG1, readPoint_eq_ok]
      constructor
      · rintro ⟨v, ⟨hgood, hhi, hdrop⟩, vs, hvs, rfl⟩
        obtain ⟨hlen, hall, hbound, hrest⟩ := (ih hhi).1 hvs
        rw [hshift] at hbound hrest
        refine ⟨by rw [List.length_cons, hlen], List.forall_mem_cons.2 ⟨hgood, hall⟩, hbound, ?_⟩
        rw [hdrop, hrest, List.flatMap_cons, List.append_assoc]
      · rintro ⟨hlen, hall, hbound, hdrop⟩
        cases powers with
        | nil => cases hlen
        | cons v vs =>
            obtain ⟨hgood, hall⟩ := List.forall_mem_cons.1 hall
            have hhi : pos + 32 ≤ raw.length := by omega
            rw [List.flatMap_cons, List.append_assoc] at hdrop
            -- what follows the first point is the rest from its end on
            have hrest : raw.drop (pos + 32) =
                (vs.flatMap fun v => (codec.g1.bytes v).toList) ++
                  raw.drop (pos + 32 * (count + 1)) :=
              drop_after_field hdrop (FixedBytes.length_toList _)
            refine ⟨v, ⟨hgood, hhi, by rw [hdrop, hrest]⟩, vs, (ih hhi).2 ?_, rfl⟩
            rw [hshift]
            exact ⟨by simpa using hlen, hall, hbound, hrest⟩

theorem readPowers_ne_fault : ∀ {count pos : ℕ}, pos + 32 * count ≤ raw.length →
    readPowers codec raw pos count ≠ .error .sliceOutOfRange := by
  intro count
  induction count with
  | zero =>
      intro pos _
      nofun
  | succ count ih =>
      intro pos h
      refine bind_ne_fault (readPoint_ne_fault (by omega)) fun v _ => ?_
      exact bind_ne_fault (ih (by omega)) fun vs _ => nofun

theorem length_flatMap_bytes (powers : List Bn254G1) :
    (powers.flatMap fun v => (codec.g1.bytes v).toList).length = 32 * powers.length := by
  induction powers with
  | nil => rfl
  | cons v powers ih =>
      rw [List.flatMap_cons, List.length_append, ih, FixedBytes.length_toList, List.length_cons]
      ring

/-- The fields of a file of valid parameters. -/
def paramsBytes (codec : SetupCodec lib) (p : Params) : List UInt8 :=
  textBytes paramsMagic ++ (bigEndian 4 p.powers.length ++ ((codec.g1.bytes p.g).toList ++
    ((codec.g2.bytes p.h).toList ++ ((codec.g2.bytes p.hTau).toList ++
      p.powers.flatMap fun v => (codec.g1.bytes v).toList))))

theorem marshalParams_eq_ok {p : Params} :
    marshalParams codec p = .ok raw ↔
      validateParams lib p = .ok () ∧ raw = paramsBytes codec p := by
  simp only [marshalParams, bind_eq_ok, pure_eq_ok]
  constructor
  · rintro ⟨_, hvalid, rfl⟩
    exact ⟨hvalid, rfl⟩
  · rintro ⟨hvalid, rfl⟩
    exact ⟨(), hvalid, rfl⟩

theorem length_paramsMagic : (textBytes paramsMagic).length = 8 := by
  decide

theorem length_paramsBytes (p : Params) :
    (paramsBytes codec p).length = 172 + 32 * p.powers.length := by
  simp only [paramsBytes, List.length_append, length_paramsMagic, length_bigEndian,
    FixedBytes.length_toList, length_flatMap_bytes]
  omega

/-- A file is read exactly when it spells out the fields of its valid result. -/
theorem unmarshalParams_eq_ok {p : Params} :
    unmarshalParams codec raw = .ok p ↔
      validateParams lib p = .ok () ∧ raw = paramsBytes codec p := by
  simp only [unmarshalParams, bind_eq_ok, returned_eq_ok, rejectIf_eq_ok, sliceOf_eq_ok, readG1,
    readG2, readPoint_eq_ok, pure_eq_ok, not_or, not_not, not_lt]
  constructor
  · rintro ⟨_, _, _, ⟨_, _, _, hmagic⟩, _, rfl, header, ⟨_, _, hheader, hcount⟩, _,
      ⟨_, _, hlen⟩, g, ⟨_, hgEnd, hg⟩, h, ⟨_, hhEnd, hh⟩, hTau, ⟨_, hTauEnd, hhTau⟩, powers,
      hpowers, _, hvalid, rfl⟩
    obtain ⟨hnum, _, _, hrest⟩ := (readPowers_eq_ok hTauEnd).1 hpowers
    refine ⟨hvalid, ?_⟩
    -- the rests after each field, put together from the front
    have hend : raw.drop (108 + 64 + 32 * bigEndianValue header) = [] :=
      List.drop_eq_nil_of_le (by omega)
    have hheader' : header = bigEndian 4 powers.length := by
      have hlen4 : header.length = 4 := hheader
      rw [hnum, ← hlen4, bigEndian_bigEndianValue]
    rw [hend, List.append_nil] at hrest
    rw [List.drop_zero] at hmagic
    rw [hmagic, hcount, hg, hh, hhTau, hrest, hheader']
    rfl
  · rintro ⟨hvalid, rfl⟩
    obtain ⟨hg, hh, hTau, hpowers, hmin, hmax⟩ := validateParams_good lib hvalid
    have hlen : (paramsBytes codec p).length = 172 + 32 * p.powers.length := length_paramsBytes p
    have hcount : bigEndianValue (bigEndian 4 p.powers.length) = p.powers.length :=
      bigEndianValue_bigEndian_of_lt (by omega)
    have h0 : (paramsBytes codec p).drop 0 = paramsBytes codec p := List.drop_zero
    have h8 := drop_after_field h0 length_paramsMagic
    have h12 := drop_after_field h8 (length_bigEndian _ _)
    have h44 := drop_after_field h12 (FixedBytes.length_toList _)
    have h108 := drop_after_field h44 (FixedBytes.length_toList _)
    have h172 := drop_after_field h108 (FixedBytes.length_toList _)
    refine ⟨(), ⟨by omega, by rw [hlen, maxParamsBytes]; omega⟩, _,
      ⟨by omega, by omega, length_paramsMagic, by rw [h8]; rfl⟩, (), rfl, _,
      ⟨by omega, by omega, length_bigEndian _ _, by rw [h8, h12]⟩, (), ?_, _,
      ⟨hg, by omega, by rw [h12, h44]⟩, _, ⟨hh, by omega, by rw [h44, h108]⟩, _,
      ⟨hTau, by omega, by rw [h108, h172]⟩, p.powers, ?_, (), hvalid, rfl⟩
    · rw [hcount]
      omega
    · rw [hcount]
      refine (readPowers_eq_ok (by omega)).2 ⟨rfl, hpowers, by omega, ?_⟩
      rw [h172, List.drop_eq_nil_of_le (by omega), List.append_nil]

/-- The size check comes before every slice, and the count check before those of the points. -/
theorem unmarshalParams_ne_fault (raw : List UInt8) :
    unmarshalParams codec raw ≠ .error .sliceOutOfRange := by
  refine bind_ne_fault (returned_ne_fault _) fun _ hsize => ?_
  rw [returned_eq_ok, rejectIf_eq_ok, not_or, not_lt, not_lt] at hsize
  obtain ⟨magic, hmagic⟩ : ∃ bs, sliceOf raw 0 8 = .ok bs :=
    sliceOf_of_le (by omega) (by omega)
  obtain ⟨header, hheader⟩ : ∃ bs, sliceOf raw 8 12 = .ok bs :=
    sliceOf_of_le (by omega) (by omega)
  rw [hmagic, ok_bind]
  refine bind_ne_fault (returned_ne_fault _) fun _ _ => ?_
  rw [hheader, ok_bind]
  refine bind_ne_fault (returned_ne_fault _) fun _ hcount => ?_
  rw [returned_eq_ok, rejectIf_eq_ok, not_or, not_or, not_not] at hcount
  refine bind_ne_fault (readPoint_ne_fault (by omega)) fun g _ => ?_
  refine bind_ne_fault (readPoint_ne_fault (by omega)) fun h _ => ?_
  refine bind_ne_fault (readPoint_ne_fault (by omega)) fun hTau _ => ?_
  refine bind_ne_fault (readPowers_ne_fault (by omega)) fun powers _ => ?_
  exact bind_ne_fault (returned_ne_fault _) fun _ _ => nofun

end Files

/-- The parameter codec is a bijection between the files the decoder accepts and the valid
parameters: a file is decoded to exactly the parameters it is the encoding of, whatever their number
of powers; all valid parameters are encoded, the largest in a file of the maximal size; and no slice
of the decoder leaves its input. -/
theorem params_codec_exact {lib : GnarkCrypto} (codec : SetupCodec lib) :
    (∀ (raw : List UInt8) (p : Params),
      unmarshalParams codec raw = .ok p ↔ marshalParams codec p = .ok raw) ∧
    (∀ p : Params, validateParams lib p = .ok () →
      ∃ raw, marshalParams codec p = .ok raw ∧ raw.length ≤ maxParamsBytes ∧
        (raw.length = maxParamsBytes ↔ p.capacity = 65536)) ∧
    ∀ raw : List UInt8, unmarshalParams codec raw ≠ .error .sliceOutOfRange := by
  refine ⟨?_, ?_, unmarshalParams_ne_fault⟩
  · intro raw p
    rw [unmarshalParams_eq_ok, marshalParams_eq_ok]
  · intro p hvalid
    obtain ⟨_, _, _, _, hmin, hmax⟩ := validateParams_good lib hvalid
    refine ⟨_, marshalParams_eq_ok.2 ⟨hvalid, rfl⟩, ?_, ?_⟩
    · rw [length_paramsBytes, maxParamsBytes]
      omega
    · rw [length_paramsBytes, maxParamsBytes, Params.capacity]
      omega

/-! ## A codec of logarithms -/

/-- Points held as logarithms, encoded as the big-endian logarithm. -/
def logCodec {P : Type} [DecidableEq P] {n : ℕ} (E : LogCode P n) (hn : 1 < n) {width : ℕ}
    (hwidth : n ≤ 256 ^ width) : PointCodec (E.pointGroup hn) width where
  bytes p := FixedBytes.ofNat width (E.log p)
  setBytes bs := .ok (E.encode (bigEndianValue bs))
  setBytes_bytes p hgood := by
    have hvalid : (E.decode p).isSome = true := by
      simp only [PointGroup.good, Bool.and_eq_true] at hgood
      exact hgood.2
    obtain ⟨a, ha⟩ := Option.isSome_iff_exists.1 hvalid
    obtain ⟨hlt, rfl⟩ := (E.decode_eq_some p a).1 ha
    have hvalue := FixedBytes.value_ofNat (lt_of_lt_of_le hlt hwidth)
    rw [E.log_encode hlt]
    exact congrArg (fun k => Except.ok (E.encode k)) hvalue

def sampleCodec : SetupCodec exponentLib where
  g1 := logCodec bnCode one_lt_bn254Fr (by decide)
  g2 := logCodec g2Code one_lt_bn254Fr (by decide)

theorem params_codec_exact_sample :
    ∃ raw, marshalParams sampleCodec sampleParams = .ok raw ∧
      unmarshalParams sampleCodec raw = .ok sampleParams := by
  obtain ⟨hcodec, hencode, _⟩ := params_codec_exact sampleCodec
  obtain ⟨raw, hraw, _⟩ := hencode sampleParams sampleParams_valid
  exact ⟨raw, hraw, (hcodec raw sampleParams).2 hraw⟩

end Lktrs.NativeProof
