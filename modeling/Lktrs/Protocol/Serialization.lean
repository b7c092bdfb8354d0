import Lktrs.Foundation.Scan
import Lktrs.Protocol.Transcripts

/-!
# Labels and public signatures as byte strings

`protocol/serialization.cpp`: the reader keeps an offset into the bytes, and every access
is checked here, so that an index out of range would show as a fault. Each of its methods
is exact for the field it reads, and so are the two decoders by the rules for scans: they
accept what the encoders write and nothing else (`cpp_codecs_exact`).
-/

set_option autoImplicit false

namespace Lktrs.Protocol

open Lktrs.Foundation

/-! ## The reader -/

def maxSerializedBytes : ℕ := 16 * 1024 * 1024

def maxFieldBytes : ℕ := 1 * 1024 * 1024

/-- The difference of two sizes. -/
def sizeDifference (a b : ℕ) : ℕ := (a + 2 ^ 64 - b) % 2 ^ 64

namespace Reader

/-- The constructor. -/
def make (raw : List UInt8) : Scan Thrown Unit :=
  Scan.check (raw.length > maxSerializedBytes) ⟨.lengthError, "serialization exceeds 16 MiB"⟩

/-- One pass of the loop of `u64`. -/
def shiftByte (raw : List UInt8) (value shift : UInt64) : Scan Thrown UInt64 := do
  let offset ← get
  let byte ← Scan.byteAt raw offset
  set (offset + 1)
  pure (value ||| (byte.toUInt64 <<< shift))

/-- `u64`. -/
def u64 (raw : List UInt8) (label : String) : Scan Thrown UInt64 := do
  let offset ← get
  Scan.check (sizeDifference raw.length offset < 8) ⟨.invalidArgument, label⟩
  [56, 48, 40, 32, 24, 16, 8, 0].foldlM (shiftByte raw) 0

/-- The end of `bytes`: so many bytes from the offset on. -/
def take (raw : List UInt8) (label : String) (length : ℕ) : Scan Thrown (List UInt8) := do
  let offset ← get
  Scan.check (length > sizeDifference raw.length offset) ⟨.invalidArgument, label⟩
  let result ← Scan.slice raw offset (offset + length)
  set (offset + length)
  pure result

/-- `bytes`. -/
def bytes (raw : List UInt8) (label : String) : Scan Thrown (List UInt8) := do
  let length ← u64 raw label
  Scan.check (length.toNat > maxFieldBytes) ⟨.lengthError, "serialized field is unreasonable"⟩
  take raw label length.toNat

/-- `text`. -/
def text (raw : List UInt8) (label : String) : Scan Thrown (List UInt8) := bytes raw label

/-- `end`. -/
def atEnd (raw : List UInt8) : Scan Thrown Unit :=
  Scan.atEnd raw ⟨.invalidArgument, "trailing serialization bytes"⟩

/-! ### What the methods read -/

theorem sizeDifference_eq {a b : ℕ} (hle : b ≤ a) (hlt : a < 2 ^ 64) : sizeDifference a b = a - b := by
  rw [sizeDifference, show a + 2 ^ 64 - b = a - b + 2 ^ 64 by omega, Nat.add_mod_right,
    Nat.mod_eq_of_lt (by omega)]

/-- A byte below the bits that are set. -/
theorem toNat_or_shiftLeft {x : UInt64} {b : UInt8} {n : ℕ} (hn : n < 8)
    (hx : 2 ^ (8 * (n + 1)) ∣ x.toNat) :
    (x ||| (b.toUInt64 <<< UInt64.ofNat (8 * n))).toNat = x.toNat + b.toNat * 256 ^ n := by
  have hb : b.toNat < 2 ^ 8 := b.toNat_lt
  have hpow : 256 ^ n = 2 ^ (8 * n) := by rw [pow_mul]; norm_num
  have hsmall : b.toNat * 2 ^ (8 * n) < 2 ^ (8 * (n + 1)) := by
    rw [Nat.mul_succ, pow_add, Nat.mul_comm]
    exact Nat.mul_lt_mul_of_pos_left hb (Nat.two_pow_pos _)
  have hword : 2 ^ (8 * (n + 1)) ≤ 2 ^ 64 := Nat.pow_le_pow_right (by decide) (by omega)
  have hshift : (8 * n) % 2 ^ 64 % 64 = 8 * n := by omega
  obtain ⟨k, hk⟩ := hx
  rw [UInt64.toNat_or, UInt64.toNat_shiftLeft, UInt8.toNat_toUInt64, UInt64.toNat_ofNat', hshift,
    Nat.shiftLeft_eq, Nat.mod_eq_of_lt (hsmall.trans_le hword), hpow, hk, Nat.mul_comm (2 ^ _) k,
    ← Nat.shiftLeft_eq, Nat.shiftLeft_add_eq_or_of_lt hsmall]

theorem run_shiftByte {raw : List UInt8} {pos : ℕ} (h : pos < raw.length) (value shift : UInt64) :
    (shiftByte raw value shift).run pos = .ok (value ||| (raw[pos].toUInt64 <<< shift), pos + 1) := by
  rw [shiftByte, Scan.run_get_bind, Scan.run_bind_of_ok (Scan.run_byteAt_of_lt h pos)]
  rfl

/-- The loop of `u64` over its last `n` bytes. The invariant is that the bits of these bytes
are not set before. -/
theorem run_foldlM_shiftByte {raw : List UInt8} (n : ℕ) (hn : n ≤ 8) (x : UInt64) (pos : ℕ)
    (hx : 2 ^ (8 * n) ∣ x.toNat) (hpos : pos + n ≤ raw.length) :
    ∃ v, (((List.range n).reverse.map fun k => UInt64.ofNat (8 * k)).foldlM (shiftByte raw) x).run
        pos = .ok (v, pos + n) ∧ v.toNat = x.toNat + bigEndianValue ((raw.drop pos).take n) := by
  induction n generalizing x pos with
  | zero => exact ⟨x, rfl, rfl⟩
  | succ n ih =>
      have hlt : pos < raw.length := by omega
      have hvalue := toNat_or_shiftLeft (b := raw[pos]) (by omega : n < 8) hx
      have hpow : 256 ^ n = 2 ^ (8 * n) := by rw [pow_mul]; norm_num
      have hclear : 2 ^ (8 * n) ∣ (x ||| (raw[pos].toUInt64 <<< UInt64.ofNat (8 * n))).toNat := by
        rw [hvalue, hpow]
        exact dvd_add ((Nat.pow_dvd_pow 2 (by omega)).trans hx) (dvd_mul_left _ _)
      obtain ⟨v, hrun, hv⟩ := ih (by omega) _ (pos + 1) hclear (by omega)
      refine ⟨v, ?_, ?_⟩
      · rw [List.range_succ, List.reverse_append, List.reverse_singleton, List.singleton_append,
          List.map_cons, List.foldlM_cons, Scan.run_bind_of_ok (run_shiftByte hlt _ _), hrun]
        congr 2
        omega
      · have htail : ((raw.drop (pos + 1)).take n).length = n := by
          rw [List.length_take, List.length_drop]
          omega
        rw [hv, hvalue, List.drop_eq_getElem_cons hlt, List.take_succ_cons, bigEndianValue, htail]
        omega

/-- A number is the eight bytes that spell it. -/
theorem exact_u64 {raw : List UInt8} (hraw : raw.length < 2 ^ 64) (label : String) :
    Exact raw (u64 raw label) fun v enc => enc = bigEndian 8 v.toNat := by
  have hrun : ∀ pos ≤ raw.length, (u64 raw label).run pos =
      if raw.length - pos < 8 then .error (.error ⟨.invalidArgument, label⟩)
      else ([56, 48, 40, 32, 24, 16, 8, 0].foldlM (shiftByte raw) 0).run pos := by
    intro pos hpos
    rw [u64, Scan.run_get_bind, Scan.run_check_bind, sizeDifference_eq hpos hraw]
  have hblock : Exact raw (u64 raw label) fun v enc =>
      enc.length = 8 ∧ v = UInt64.ofNat (bigEndianValue enc) := by
    apply Exact.block
    · intro pos hroom
      -- the loop starts from zero, which leaves all bits free for the bytes
      obtain ⟨v, hloop, hv⟩ := run_foldlM_shiftByte 8 le_rfl 0 pos (dvd_zero _) hroom
      rw [UInt64.toNat_zero, Nat.zero_add] at hv
      rw [hrun pos (by omega), if_neg (by omega), ← hv, UInt64.ofNat_toNat]
      exact hloop
    · intro pos hpos hroom
      exact ⟨_, by rw [hrun pos hpos, if_pos (by omega)]⟩
  apply hblock.congr
  intro v enc
  constructor
  · rintro ⟨hlength, rfl⟩
    have hlt : bigEndianValue enc < 2 ^ 64 := by
      have hbound := bigEndianValue_lt enc
      rw [hlength] at hbound
      exact hbound
    rw [UInt64.toNat_ofNat_of_lt' hlt, ← hlength, bigEndian_bigEndianValue]
  · rintro rfl
    rw [length_bigEndian, bigEndianValue_bigEndian_of_lt v.toNat_lt, UInt64.ofNat_toNat]
    exact ⟨rfl, rfl⟩

theorem exact_take {raw : List UInt8} (hraw : raw.length < 2 ^ 64) (label : String) (length : ℕ) :
    Exact raw (take raw label length) fun bs enc => enc.length = length ∧ bs = enc := by
  have hrun : ∀ pos ≤ raw.length, (take raw label length).run pos =
      if length > raw.length - pos then .error (.error ⟨.invalidArgument, label⟩)
      else .ok ((raw.drop pos).take length, pos + length) := by
    intro pos hpos
    rw [take, Scan.run_get_bind, Scan.run_check_bind, sizeDifference_eq hpos hraw]
    split_ifs with h
    · rfl
    · have hslice := Scan.run_slice_of_le (ε := Thrown) (by omega : pos ≤ pos + length)
        (by omega : pos + length ≤ raw.length) pos
      rw [Scan.run_bind_of_ok hslice, Scan.run_set_bind, Nat.add_sub_cancel_left]
      rfl
  apply Exact.block (f := fun bs => bs)
  · intro pos hroom
    rw [hrun pos (by omega), if_neg (by omega)]
  · intro pos hpos hroom
    exact ⟨_, by rw [hrun pos hpos, if_pos (by omega)]⟩

theorem exact_bytes {raw : List UInt8} (hraw : raw.length < 2 ^ 64) (label : String) :
    Exact raw (bytes raw label) fun bs enc => bs.length ≤ maxFieldBytes ∧ enc = lengthPrefixed bs := by
  apply ((exact_u64 hraw label).bind fun length _ _ =>
    Exact.check_bind _ fun _ => exact_take hraw label length.toNat).congr
  intro bs enc
  constructor
  · rintro ⟨length, _, _, rfl, ⟨hle, hlength, rfl⟩, rfl⟩
    rw [not_lt] at hle
    refine ⟨hlength ▸ hle, ?_⟩
    rw [lengthPrefixed, hlength]
  · rintro ⟨hle, rfl⟩
    have hsmall : bs.length < 2 ^ 64 := hle.trans_lt (by decide)
    have hnumber : (UInt64.ofNat bs.length).toNat = bs.length := by
      rw [UInt64.toNat_ofNat', Nat.mod_eq_of_lt hsmall]
    refine ⟨UInt64.ofNat bs.length, _, _, rfl, ⟨?_, hnumber.symm, rfl⟩, ?_⟩
    · rw [hnumber]
      exact not_lt.2 hle
    · rw [lengthPrefixed, hnumber]

end Reader

/-! ## Elements -/

variable {r : ℕ} {G₁ G₂ GT Gp : Type} [CommGroup G₁] [CommGroup G₂] [CommGroup GT]

/-- What the decoders take from the libraries: the width of an element of the first
pairing group, and its parser and that of `G_p`. -/
structure WireLibrary (G₁ Gp : Type) where
  g1Width : ℕ
  decodeG1 : List UInt8 → Except Thrown G₁
  decodeGp : List UInt8 → Except Thrown Gp

/-- `G1::from_bytes`. -/
def g1FromBytes (wire : WireLibrary G₁ Gp) (context : PairingContext) (bytes : List UInt8) :
    Except Thrown (Element G₁) := do
  let k ← context.get
  throwIf (bytes.length ≠ wire.g1Width) .invalidArgument "element encoding has the wrong length"
  let g ← wire.decodeG1 bytes
  pure (.live k g)

/-- `Gp::from_bytes`. -/
def gpFromBytes (wire : WireLibrary G₁ Gp) (context : DdhContext) (bytes : List UInt8) :
    Except Thrown (Element Gp) := do
  throwIf (bytes.length ≠ 32) .invalidArgument "G_p element encoding has the wrong length"
  let k ← context.get
  let x ← wire.decodeGp bytes
  pure (.live k x)

/-- The parsers accept exactly what is written and give it back. The parameters of a pairing
are a decimal text of at most 1 MiB, so that no element or scalar takes more bytes. -/
structure WireLibrary.Faithful (wire : WireLibrary G₁ Gp) (lib : CryptoLibrary G₁ G₂ GT Gp)
    (r : ℕ) : Prop where
  g1_length : ∀ g, (lib.encodeG1 g).length = wire.g1Width
  g1_exact : ∀ bytes g, wire.decodeG1 bytes = .ok g ↔ bytes = lib.encodeG1 g
  gp_length : ∀ x, (lib.encodeGp x).length = 32
  gp_exact : ∀ bytes x, wire.decodeGp bytes = .ok x ↔ bytes = lib.encodeGp x
  g1_short : wire.g1Width ≤ maxFieldBytes
  scalar_short : scalarWidth r ≤ maxFieldBytes

/-- An element of a context, with the bytes that encode it. -/
def ElementOf {α : Type} (state : Option ℕ) (encode : α → List UInt8) (x : Element α)
    (bytes : List UInt8) : Prop :=
  ∃ k a, state = some k ∧ x = .live k a ∧ bytes = encode a

section Faithful

variable {wire : WireLibrary G₁ Gp} {lib : CryptoLibrary G₁ G₂ GT Gp}
  (hwire : wire.Faithful lib r)

include hwire

theorem g1FromBytes_eq_ok {context : PairingContext} {bytes : List UInt8} {x : Element G₁} :
    g1FromBytes wire context bytes = .ok x ↔ ElementOf context.state lib.encodeG1 x bytes := by
  simp only [g1FromBytes, bind_eq_ok, context_get_eq_ok, throwIf_eq_ok, not_not, pure_eq_ok,
    hwire.g1_exact]
  constructor
  · rintro ⟨k, hk, -, -, g, hg, rfl⟩
    exact ⟨k, g, hk, rfl, hg⟩
  · rintro ⟨k, g, hk, rfl, rfl⟩
    exact ⟨k, hk, (), hwire.g1_length g, g, rfl, rfl⟩

theorem gpFromBytes_eq_ok {context : DdhContext} {bytes : List UInt8} {x : Element Gp} :
    gpFromBytes wire context bytes = .ok x ↔ ElementOf context.state lib.encodeGp x bytes := by
  simp only [gpFromBytes, bind_eq_ok, DdhContext.get_eq_ok, throwIf_eq_ok, not_not, pure_eq_ok,
    hwire.gp_exact]
  constructor
  · rintro ⟨-, -, k, hk, g, hg, rfl⟩
    exact ⟨k, g, hk, rfl, hg⟩
  · rintro ⟨k, g, hk, rfl, rfl⟩
    exact ⟨(), hwire.gp_length g, k, hk, g, rfl, rfl⟩

end Faithful

/-! ## Decoders -/

/-- The version and the name in front of an encoding, with the texts of its errors. -/
def readHeader (raw : List UInt8) (missingVersion unsupported missingName wrong name : String) :
    Scan Thrown Unit := do
  let version ← Reader.bytes raw missingVersion
  Scan.check (version ≠ [1]) ⟨.invalidArgument, unsupported⟩
  let found ← Reader.text raw missingName
  Scan.check (found ≠ textBytes name) ⟨.invalidArgument, wrong⟩
  pure ()

section Decoders

variable (wire : WireLibrary G₁ Gp) (pairing : PairingContext) (ddh : DdhContext) (raw : List UInt8)

/-- An element of the first pairing group. -/
def readG1 (label : String) : Scan Thrown (Element G₁) := do
  let bytes ← Reader.bytes raw label
  Scan.lift (g1FromBytes wire pairing bytes)

/-- An element of `G_p`. -/
def readGp (label : String) : Scan Thrown (Element Gp) := do
  let bytes ← Reader.bytes raw label
  Scan.lift (gpFromBytes wire ddh bytes)

/-- A scalar of the pairing groups. -/
def readScalar (r : ℕ) (label : String) : Scan Thrown (Scalar r) := do
  let bytes ← Reader.bytes raw label
  Scan.lift (Scalar.fromBytes pairing bytes)

/-- One pass of the loop over the accounts. -/
def readAccount (r : ℕ) : Scan Thrown (AccountPublicKey r Gp) := do
  let userId ← Reader.text raw "missing account user id"
  let accountId ← Reader.text raw "missing account id"
  let uI ← readGp wire ddh raw "missing account u_i"
  let yI ← readGp wire ddh raw "missing account y_i"
  let member ← readScalar pairing raw r "missing account member"
  pure ⟨userId, accountId, uI, yI, member⟩

def maxAccounts : ℕ := 100000

/-- `decode_ring_label` up to its last check. -/
def readRingLabel (r : ℕ) : Scan Thrown (RingLabel r Gp) := do
  Reader.make raw
  readHeader raw "missing encoding version" "unsupported ring encoding version"
    "missing encoding name" "wrong ring encoding domain" "lktrs/ring-label"
  let issue ← Reader.text raw "missing ring issue"
  let count ← Reader.u64 raw "missing ring account count"
  Scan.check (count.toNat > maxAccounts) ⟨.lengthError, "ring account count is unreasonable"⟩
  let accounts ← (readAccount wire pairing ddh raw r).repeatScan count.toNat
  pure ⟨issue, accounts⟩

/-- `decode_ring_label`. -/
def decodeRingLabel (r : ℕ) : Except (Fault Thrown) (RingLabel r Gp) :=
  Scan.result do
    let label ← readRingLabel wire pairing ddh raw r
    Reader.atEnd raw
    pure label

/-- `PublicSignature`. -/
structure PublicSignature (r : ℕ) (G₁ Gp : Type) where
  nym : Element G₁
  accumulatorValue : Element G₁
  oneTimePass : Element Gp
  traceTag : Element Gp
  challenge : Scalar r
  timestamp : UInt64

/-- `decode_public_signature` up to its last check. -/
def readPublicSignature (r : ℕ) : Scan Thrown (PublicSignature r G₁ Gp) := do
  Reader.make raw
  readHeader raw "missing signature encoding version" "unsupported signature encoding version"
    "missing signature encoding name" "wrong signature encoding domain" "lktrs/clear-signature"
  let nym ← readG1 wire pairing raw "missing signature nym"
  let accumulatorValue ← readG1 wire pairing raw "missing accumulator value"
  let oneTimePass ← readGp wire ddh raw "missing one-time pass"
  let traceTag ← readGp wire ddh raw "missing trace tag"
  let challenge ← readScalar pairing raw r "missing challenge"
  let timestamp ← Reader.u64 raw "missing signature timestamp"
  pure ⟨nym, accumulatorValue, oneTimePass, traceTag, challenge, timestamp⟩

/-- `decode_public_signature`. -/
def decodePublicSignature (r : ℕ) : Except (Fault Thrown) (PublicSignature r G₁ Gp) :=
  Scan.result do
    let signature ← readPublicSignature wire pairing ddh raw r
    Reader.atEnd raw
    pure signature

end Decoders

/-- The six fields that `encode_public_signature` writes. -/
def ClearSignature.publicPart (s : ClearSignature r G₁ Gp) : PublicSignature r G₁ Gp :=
  ⟨s.nym, s.accumulatorValue, s.oneTimePass, s.traceTag, s.challenge, s.timestamp⟩

/-- The encoding of the six fields. -/
def PublicSignature.encode (lib : CryptoLibrary G₁ G₂ GT Gp) (s : PublicSignature r G₁ Gp) :
    Except Thrown (List UInt8) := do
  let nym ← g1Bytes lib s.nym
  let accumulatorValue ← g1Bytes lib s.accumulatorValue
  let oneTimePass ← gpBytes lib s.oneTimePass
  let traceTag ← gpBytes lib s.traceTag
  let challenge ← s.challenge.toBytes
  pure (versionHeader "lktrs/clear-signature" ++ lengthPrefixed nym ++
    lengthPrefixed accumulatorValue ++ lengthPrefixed oneTimePass ++ lengthPrefixed traceTag ++
    lengthPrefixed challenge ++ bigEndian 8 s.timestamp.toNat)

/-- `encode_public_signature`. -/
def encodePublicSignature (lib : CryptoLibrary G₁ G₂ GT Gp) (s : ClearSignature r G₁ Gp) :
    Except Thrown (List UInt8) :=
  s.publicPart.encode lib

/-! ## Exactness -/

/-- The elements of a key belong to the contexts. -/
def AccountPublicKey.Of (pairing : PairingContext) (ddh : DdhContext) (key : AccountPublicKey r Gp) :
    Prop :=
  (∃ k u, ddh.state = some k ∧ key.uI = .live k u) ∧
    (∃ k y, ddh.state = some k ∧ key.yI = .live k y) ∧
      ∃ k m, pairing.state = some k ∧ key.member = .live k m

/-- The texts of a key are at most 1 MiB long. -/
def AccountPublicKey.Short (key : AccountPublicKey r Gp) : Prop :=
  key.userId.length ≤ maxFieldBytes ∧ key.accountId.length ≤ maxFieldBytes

/-- The elements of a label belong to the contexts. -/
def RingLabel.Of (pairing : PairingContext) (ddh : DdhContext) (label : RingLabel r Gp) : Prop :=
  ∀ key ∈ label.accounts, key.Of pairing ddh

/-- The texts of a label are at most 1 MiB long and its accounts at most 100000. -/
structure RingLabel.Short (label : RingLabel r Gp) : Prop where
  issue : label.issue.length ≤ maxFieldBytes
  accounts : label.accounts.length ≤ maxAccounts
  keys : ∀ key ∈ label.accounts, key.Short

/-- The elements of a signature belong to the contexts. -/
structure PublicSignature.Of (pairing : PairingContext) (ddh : DdhContext)
    (s : PublicSignature r G₁ Gp) : Prop where
  nym : ∃ k g, pairing.state = some k ∧ s.nym = .live k g
  accumulatorValue : ∃ k g, pairing.state = some k ∧ s.accumulatorValue = .live k g
  oneTimePass : ∃ k x, ddh.state = some k ∧ s.oneTimePass = .live k x
  traceTag : ∃ k x, ddh.state = some k ∧ s.traceTag = .live k x
  challenge : ∃ k c, pairing.state = some k ∧ s.challenge = .live k c

section Exactness

variable {raw : List UInt8} (hraw : raw.length < 2 ^ 64)

include hraw

theorem exact_readHeader (missingVersion unsupported missingName wrong name : String)
    (hname : (textBytes name).length ≤ maxFieldBytes) :
    Exact raw (readHeader raw missingVersion unsupported missingName wrong name)
      fun _ enc => enc = versionHeader name := by
  apply ((Reader.exact_bytes hraw missingVersion).bind fun version _ _ =>
    Exact.check_bind _ fun _ => (Reader.exact_bytes hraw missingName).bind fun found _ _ =>
      Exact.check_bind _ fun _ => Exact.pure ()).congr
  intro _ enc
  constructor
  · rintro ⟨version, _, _, ⟨-, rfl⟩, ⟨hversion, found, _, _, ⟨-, rfl⟩, ⟨hfound, -, rfl⟩, rfl⟩, rfl⟩
    rw [not_not.1 hversion, not_not.1 hfound, List.append_nil, versionHeader]
  · rintro rfl
    refine ⟨[1], _, _, ⟨by decide, rfl⟩, ⟨not_not.2 rfl, textBytes name, _, _, ⟨hname, rfl⟩,
      ⟨not_not.2 rfl, rfl, rfl⟩, rfl⟩, ?_⟩
    rw [List.append_nil, versionHeader]

/-- A field that a decoder of elements accepts. -/
theorem exact_element {α : Type} {state : Option ℕ} {encode : α → List UInt8}
    {decode : List UInt8 → Except Thrown (Element α)} (label : String)
    (hdecode : ∀ bytes x, decode bytes = .ok x ↔ ElementOf state encode x bytes)
    (hshort : ∀ a, (encode a).length ≤ maxFieldBytes) :
    Exact raw (Reader.bytes raw label >>= fun bytes => Scan.lift (decode bytes))
      fun x enc => ∃ k a, state = some k ∧ x = .live k a ∧ enc = lengthPrefixed (encode a) := by
  apply (Reader.exact_bytes hraw label).bind_lift.congr
  intro x enc
  constructor
  · rintro ⟨bytes, ⟨-, rfl⟩, hdecoded⟩
    obtain ⟨k, a, hk, hx, rfl⟩ := (hdecode _ _).1 hdecoded
    exact ⟨k, a, hk, hx, rfl⟩
  · rintro ⟨k, a, hk, hx, rfl⟩
    exact ⟨encode a, ⟨hshort a, rfl⟩, (hdecode _ _).2 ⟨k, a, hk, hx, rfl⟩⟩

variable {wire : WireLibrary G₁ Gp} {lib : CryptoLibrary G₁ G₂ GT Gp}
  (hwire : wire.Faithful lib r) (pairing : PairingContext) (ddh : DdhContext)

include hwire

theorem exact_readG1 (label : String) :
    Exact raw (readG1 wire pairing raw label) fun x enc =>
      ∃ k g, pairing.state = some k ∧ x = .live k g ∧ enc = lengthPrefixed (lib.encodeG1 g) :=
  exact_element hraw label (fun _ _ => g1FromBytes_eq_ok hwire)
    fun g => (hwire.g1_length g).trans_le hwire.g1_short

theorem exact_readGp (label : String) :
    Exact raw (readGp wire ddh raw label) fun x enc =>
      ∃ k u, ddh.state = some k ∧ x = .live k u ∧ enc = lengthPrefixed (lib.encodeGp u) :=
  exact_element hraw label (fun _ _ => gpFromBytes_eq_ok hwire)
    fun u => (hwire.gp_length u).trans_le (by decide)

variable [NeZero r]

theorem exact_readScalar (label : String) :
    Exact raw (readScalar pairing raw r label) fun x enc =>
      ∃ k m, pairing.state = some k ∧ x = .live k m ∧ enc = lengthPrefixed (residueBytes m) :=
  exact_element hraw label (fun _ _ => Scalar.fromBytes_eq_ok)
    fun m => (length_bigEndian _ m.val).trans_le hwire.scalar_short

/-- A pass of the loop reads a key of the contexts with short texts. -/
theorem exact_readAccount :
    Exact raw (readAccount wire pairing ddh raw r) fun key enc =>
      key.Short ∧ key.Of pairing ddh ∧ encodePublicKey lib key = .ok enc := by
  apply ((Reader.exact_bytes hraw _).bind fun userId _ _ =>
    (Reader.exact_bytes hraw _).bind fun accountId _ _ =>
    (exact_readGp hraw hwire ddh _).bind fun uI _ _ =>
    (exact_readGp hraw hwire ddh _).bind fun yI _ _ =>
    (exact_readScalar hraw hwire pairing _).bind_pure).congr
  intro key enc
  constructor
  · rintro ⟨userId, _, _, ⟨huser, rfl⟩, ⟨accountId, _, _, ⟨haccount, rfl⟩, ⟨_, _, _,
      ⟨ku, u, hu, rfl, rfl⟩, ⟨_, _, _, ⟨ky, y, hy, rfl, rfl⟩, ⟨_, ⟨km, m, hm, rfl, rfl⟩, rfl⟩, rfl⟩,
      rfl⟩, rfl⟩, rfl⟩
    refine ⟨⟨huser, haccount⟩, ⟨⟨ku, u, hu, rfl⟩, ⟨ky, y, hy, rfl⟩, ⟨km, m, hm, rfl⟩⟩, ?_⟩
    show Except.ok _ = Except.ok _
    simp only [List.append_assoc]
  · obtain ⟨userId, accountId, uI, yI, member⟩ := key
    rintro ⟨⟨huser, haccount⟩, ⟨⟨ku, u, hu, rfl⟩, ⟨ky, y, hy, rfl⟩, ⟨km, m, hm, rfl⟩⟩, henc⟩
    refine ⟨userId, _, _, ⟨huser, rfl⟩, ⟨accountId, _, _, ⟨haccount, rfl⟩, ⟨_, _, _,
      ⟨ku, u, hu, rfl, rfl⟩, ⟨_, _, _, ⟨ky, y, hy, rfl, rfl⟩, ⟨_, ⟨km, m, hm, rfl, rfl⟩, rfl⟩, rfl⟩,
      rfl⟩, rfl⟩, ?_⟩
    rw [← Except.ok.inj henc]
    simp only [List.append_assoc]

end Exactness

section Limits

variable {raw : List UInt8} [NeZero r] {wire : WireLibrary G₁ Gp} {lib : CryptoLibrary G₁ G₂ GT Gp}
  (hwire : wire.Faithful lib r) (pairing : PairingContext) (ddh : DdhContext)

include hwire

/-- The decoder of labels reads the labels within its limits, as they are written. -/
theorem exact_readRingLabel :
    Exact raw (readRingLabel wire pairing ddh raw r) fun label enc =>
      raw.length ≤ maxSerializedBytes ∧ label.Short ∧ label.Of pairing ddh ∧
        encodeRingLabel lib label = .ok enc := by
  -- within the limit of the decoder no difference of positions wraps around
  have hsmall : ¬ raw.length > maxSerializedBytes → raw.length < 2 ^ 64 := fun h =>
    (not_lt.1 h).trans_lt (by decide)
  apply (Exact.check_bind _ fun h =>
    (exact_readHeader (hsmall h) _ _ _ _ _ (by decide)).bind fun _ _ _ =>
    (Reader.exact_bytes (hsmall h) _).bind fun issue _ _ =>
    (Reader.exact_u64 (hsmall h) _).bind fun count _ _ => Exact.check_bind _ fun _ =>
    ((exact_readAccount (hsmall h) hwire pairing ddh).repeatScan count.toNat).bind_pure).congr
  intro label enc
  constructor
  · rintro ⟨hlimit, _, _, _, rfl, ⟨issue, _, _, ⟨hissue, rfl⟩, ⟨count, _, _, rfl, ⟨hcount,
      ⟨accounts, ⟨hlength, hmany⟩, rfl⟩⟩, rfl⟩, rfl⟩, rfl⟩
    simp only [← and_assoc, Encodes.many_mapM] at hmany
    obtain ⟨hkeys, parts, hparts, rfl⟩ := hmany
    refine ⟨not_lt.1 hlimit, ⟨hissue, hlength ▸ not_lt.1 hcount, fun key hkey => (hkeys key hkey).1⟩,
      fun key hkey => (hkeys key hkey).2, bind_eq_ok.2 ⟨parts, hparts, ?_⟩⟩
    rw [pure_eq_ok, hlength]
    simp only [List.append_assoc]
  · rintro ⟨hlimit, hshort, hof, henc⟩
    simp only [encodeRingLabel, bind_eq_ok, pure_eq_ok] at henc
    obtain ⟨parts, hparts, rfl⟩ := henc
    have hlt : label.accounts.length < 2 ^ 64 := hshort.accounts.trans_lt (by decide)
    -- the count is written as a word, and no label within the limits has too many accounts for it
    have hnumber : (UInt64.ofNat label.accounts.length).toNat = label.accounts.length := by
      rw [UInt64.toNat_ofNat', Nat.mod_eq_of_lt hlt]
    have hmany := (Encodes.many_mapM (P := fun key => key.Short ∧ key.Of pairing ddh)).2
      ⟨fun key hkey => ⟨hshort.keys key hkey, hof key hkey⟩, parts, hparts, rfl⟩
    simp only [and_assoc] at hmany
    refine ⟨not_lt.2 hlimit, (), _, _, rfl, ⟨label.issue, _, _, ⟨hshort.issue, rfl⟩,
      ⟨UInt64.ofNat label.accounts.length, _, _, rfl, ⟨?_, ⟨label.accounts, ⟨hnumber.symm, hmany⟩,
        rfl⟩⟩, rfl⟩, rfl⟩, ?_⟩
    · rw [hnumber]
      exact not_lt.2 hshort.accounts
    · rw [hnumber]
      simp only [List.append_assoc]

/-- The decoder of signatures reads the signatures of its contexts, as they are written. -/
theorem exact_readPublicSignature :
    Exact raw (readPublicSignature wire pairing ddh raw r) fun s enc =>
      raw.length ≤ maxSerializedBytes ∧ s.Of pairing ddh ∧ s.encode lib = .ok enc := by
  have hsmall : ¬ raw.length > maxSerializedBytes → raw.length < 2 ^ 64 := fun h =>
    (not_lt.1 h).trans_lt (by decide)
  apply (Exact.check_bind _ fun h =>
    (exact_readHeader (hsmall h) _ _ _ _ _ (by decide)).bind fun _ _ _ =>
    (exact_readG1 (hsmall h) hwire pairing _).bind fun nym _ _ =>
    (exact_readG1 (hsmall h) hwire pairing _).bind fun accumulatorValue _ _ =>
    (exact_readGp (hsmall h) hwire ddh _).bind fun oneTimePass _ _ =>
    (exact_readGp (hsmall h) hwire ddh _).bind fun traceTag _ _ =>
    (exact_readScalar (hsmall h) hwire pairing _).bind fun challenge _ _ =>
    (Reader.exact_u64 (hsmall h) _).bind_pure).congr
  intro s enc
  constructor
  · rintro ⟨hlimit, _, _, _, rfl, ⟨_, _, _, ⟨k1, nym, h1, rfl, rfl⟩, hrest, rfl⟩, rfl⟩
    -- the elements in the order of the encoder, two fields at a time
    obtain ⟨_, _, _, ⟨k2, value, h2, rfl, rfl⟩, ⟨_, _, _, ⟨k3, pass, h3, rfl, rfl⟩, hrest, rfl⟩, rfl⟩ :=
      hrest
    obtain ⟨_, _, _, ⟨k4, tag, h4, rfl, rfl⟩, ⟨_, _, _, ⟨k5, c, h5, rfl, rfl⟩, hrest, rfl⟩, rfl⟩ := hrest
    obtain ⟨timestamp, rfl, rfl⟩ := hrest
    refine ⟨not_lt.1 hlimit, ⟨⟨k1, nym, h1, rfl⟩, ⟨k2, value, h2, rfl⟩, ⟨k3, pass, h3, rfl⟩,
      ⟨k4, tag, h4, rfl⟩, ⟨k5, c, h5, rfl⟩⟩, ?_⟩
    show Except.ok _ = Except.ok _
    simp only [List.append_assoc]
  · obtain ⟨_, _, _, _, _, timestamp⟩ := s
    rintro ⟨hlimit, ⟨⟨k1, nym, h1, rfl⟩, ⟨k2, value, h2, rfl⟩, ⟨k3, pass, h3, rfl⟩,
      ⟨k4, tag, h4, rfl⟩, ⟨k5, c, h5, rfl⟩⟩, henc⟩
    refine ⟨not_lt.2 hlimit, (), _, _, rfl, ⟨_, _, _, ⟨k1, nym, h1, rfl, rfl⟩, ⟨_, _, _,
      ⟨k2, value, h2, rfl, rfl⟩, ⟨_, _, _, ⟨k3, pass, h3, rfl, rfl⟩, ⟨_, _, _, ⟨k4, tag, h4, rfl, rfl⟩,
      ⟨_, _, _, ⟨k5, c, h5, rfl, rfl⟩, ⟨timestamp, rfl, rfl⟩, rfl⟩, rfl⟩, rfl⟩, rfl⟩, rfl⟩, ?_⟩
    rw [← Except.ok.inj henc]
    simp only [List.append_assoc]

/-- What is accepted as a label is the encoding of the label, within the limits. -/
theorem decodeRingLabel_eq_ok {label : RingLabel r Gp} :
    decodeRingLabel wire pairing ddh raw r = .ok label ↔
      raw.length ≤ maxSerializedBytes ∧ label.Short ∧ label.Of pairing ddh ∧
        encodeRingLabel lib label = .ok raw :=
  (exact_readRingLabel hwire pairing ddh).result_eq_ok _

/-- What is accepted as a signature is the encoding of the signature. -/
theorem decodePublicSignature_eq_ok {s : PublicSignature r G₁ Gp} :
    decodePublicSignature wire pairing ddh raw r = .ok s ↔
      raw.length ≤ maxSerializedBytes ∧ s.Of pairing ddh ∧ s.encode lib = .ok raw :=
  (exact_readPublicSignature hwire pairing ddh).result_eq_ok _

end Limits

/-- A label of two contexts can be encoded. -/
theorem exists_encodeRingLabel (lib : CryptoLibrary G₁ G₂ GT Gp) {pairing : PairingContext}
    {ddh : DdhContext} {label : RingLabel r Gp} (h : label.Of pairing ddh) :
    ∃ raw, encodeRingLabel lib label = .ok raw := by
  have hkeys : ∀ keys : List (AccountPublicKey r Gp), (∀ key ∈ keys, key.Of pairing ddh) →
      ∃ parts, keys.mapM (encodePublicKey lib) = .ok parts := by
    intro keys hof
    induction keys with
    | nil => exact ⟨[], rfl⟩
    | cons key keys ih =>
        rw [List.forall_mem_cons] at hof
        obtain ⟨parts, hparts⟩ := ih hof.2
        obtain ⟨userId, accountId, uI, yI, member⟩ := key
        obtain ⟨⟨ku, u, -, rfl⟩, ⟨ky, y, -, rfl⟩, ⟨km, m, -, rfl⟩⟩ := hof.1
        simp only [List.mapM_cons, bind_eq_ok, pure_eq_ok]
        exact ⟨_, _, rfl, parts, hparts, rfl⟩
  obtain ⟨parts, hparts⟩ := hkeys label.accounts h
  exact ⟨_, bind_eq_ok.2 ⟨parts, hparts, rfl⟩⟩

/-- A signature of two contexts can be encoded, and its encoding is within the limit. -/
theorem exists_encode_signature {wire : WireLibrary G₁ Gp} {lib : CryptoLibrary G₁ G₂ GT Gp}
    (hwire : wire.Faithful lib r) {pairing : PairingContext} {ddh : DdhContext}
    {s : PublicSignature r G₁ Gp} (h : s.Of pairing ddh) :
    ∃ raw, s.encode lib = .ok raw ∧ raw.length ≤ maxSerializedBytes := by
  obtain ⟨_, _, _, _, _, timestamp⟩ := s
  obtain ⟨⟨k1, nym, -, rfl⟩, ⟨k2, value, -, rfl⟩, ⟨k3, pass, -, rfl⟩, ⟨k4, tag, -, rfl⟩,
    ⟨k5, c, -, rfl⟩⟩ := h
  refine ⟨_, rfl, ?_⟩
  have hheader : (versionHeader "lktrs/clear-signature").length = 38 := by decide
  have hscalar : (residueBytes c).length = scalarWidth r := length_bigEndian _ _
  have hg1 := hwire.g1_short
  have hr := hwire.scalar_short
  simp only [List.length_append, lengthPrefixed, length_bigEndian, hheader, hwire.g1_length,
    hwire.gp_length, hscalar]
  simp only [maxFieldBytes] at hg1 hr
  simp only [maxSerializedBytes]
  omega

/-- The codecs of labels and public signatures are exact. What a decoder accepts is the
encoding of what it returns; a label within the limits and every public signature can be
encoded and are decoded to themselves; and no byte outside of the string is read. -/
theorem cpp_codecs_exact [NeZero r] {wire : WireLibrary G₁ Gp} {lib : CryptoLibrary G₁ G₂ GT Gp}
    (hwire : wire.Faithful lib r) (pairing : PairingContext) (ddh : DdhContext) :
    (∀ raw (label : RingLabel r Gp), decodeRingLabel wire pairing ddh raw r = .ok label →
      encodeRingLabel lib label = .ok raw) ∧
    (∀ raw (s : PublicSignature r G₁ Gp), decodePublicSignature wire pairing ddh raw r = .ok s →
      s.encode lib = .ok raw) ∧
    (∀ label : RingLabel r Gp, label.Of pairing ddh → label.Short →
      ∃ raw, encodeRingLabel lib label = .ok raw ∧ (raw.length ≤ maxSerializedBytes →
        decodeRingLabel wire pairing ddh raw r = .ok label)) ∧
    (∀ s : ClearSignature r G₁ Gp, s.publicPart.Of pairing ddh →
      ∃ raw, encodePublicSignature lib s = .ok raw ∧
        decodePublicSignature wire pairing ddh raw r = .ok s.publicPart) ∧
    ∀ raw, decodeRingLabel wire pairing ddh raw r ≠ .error .outOfRange ∧
      decodePublicSignature wire pairing ddh raw r ≠ .error .outOfRange := by
  refine ⟨?_, ?_, ?_, ?_, ?_⟩
  · intro raw label h
    obtain ⟨-, -, -, henc⟩ := (decodeRingLabel_eq_ok hwire pairing ddh).1 h
    exact henc
  · intro raw s h
    obtain ⟨-, -, henc⟩ := (decodePublicSignature_eq_ok hwire pairing ddh).1 h
    exact henc
  · intro label hof hshort
    obtain ⟨raw, hraw⟩ := exists_encodeRingLabel lib hof
    exact ⟨raw, hraw, fun hlimit =>
      (decodeRingLabel_eq_ok hwire pairing ddh).2 ⟨hlimit, hshort, hof, hraw⟩⟩
  · intro s hof
    obtain ⟨raw, hraw, hlimit⟩ := exists_encode_signature hwire hof
    exact ⟨raw, hraw, (decodePublicSignature_eq_ok hwire pairing ddh).2 ⟨hlimit, hof, hraw⟩⟩
  · intro raw
    exact ⟨(exact_readRingLabel hwire pairing ddh).result_ne_outOfRange _,
      (exact_readPublicSignature hwire pairing ddh).result_ne_outOfRange _⟩

/-- A parser for residues of one width. -/
def parseResidue (width m : ℕ) (what : String) (bytes : List UInt8) :
    Except Thrown (Multiplicative (ZMod m)) :=
  if bytes.length = width ∧ bigEndianValue bytes < m then
    .ok (.ofAdd (bigEndianValue bytes : ZMod m))
  else .error ⟨.invalidArgument, what⟩

theorem parseResidue_eq_ok {width m : ℕ} [NeZero m] (hm : m < 256 ^ width) {what : String}
    {bytes : List UInt8} {g : Multiplicative (ZMod m)} :
    parseResidue width m what bytes = .ok g ↔ bytes = bigEndian width g.toAdd.val := by
  unfold parseResidue
  constructor
  · intro h
    split_ifs at h with hbytes
    rw [← Except.ok.inj h, toAdd_ofAdd, ZMod.val_natCast_of_lt hbytes.2, ← hbytes.1,
      bigEndian_bigEndianValue]
  · rintro rfl
    have hvalue := bigEndianValue_bigEndian_of_lt ((ZMod.val_lt g.toAdd).trans hm)
    rw [hvalue, if_pos ⟨length_bigEndian _ _, ZMod.val_lt g.toAdd⟩, ZMod.natCast_zmod_val,
      ofAdd_toAdd]

/-- The parsers of the sample library. -/
def sampleWire : WireLibrary SampleGroup SampleGp where
  g1Width := 1
  decodeG1 := parseResidue 1 11 "element encoding is not canonical"
  decodeGp := parseResidue 32 ristrettoOrder "invalid Ristretto255 point encoding"

theorem sampleWire_faithful : sampleWire.Faithful sampleLibrary 11 where
  g1_length := sampleLibrary_fixed.g1_length
  g1_exact bytes g := by
    have hencode : sampleLibrary.encodeG1 g = bigEndian 1 g.toAdd.val := by
      simp [sampleLibrary, bigEndian]
    rw [hencode]
    exact parseResidue_eq_ok (by decide)
  gp_length := sampleLibrary_fixed.gp_length
  gp_exact bytes x := parseResidue_eq_ok (by decide)
  g1_short := by decide
  scalar_short := by decide

/-- A ring of two accounts is encoded and decoded to itself. -/
theorem cpp_codecs_exact_sample :
    ∃ raw, encodeRingLabel sampleLibrary sampleLabel = .ok raw ∧
      decodeRingLabel sampleWire ⟨some 1, []⟩ ⟨some 2⟩ raw 11 = .ok sampleLabel := by
  have hof : sampleLabel.Of ⟨some 1, []⟩ ⟨some 2⟩ := by
    intro key hkey
    rcases List.mem_pair.1 hkey with rfl | rfl
    · exact ⟨⟨2, _, rfl, rfl⟩, ⟨2, _, rfl, rfl⟩, ⟨1, _, rfl, rfl⟩⟩
    · exact ⟨⟨2, _, rfl, rfl⟩, ⟨2, _, rfl, rfl⟩, ⟨1, _, rfl, rfl⟩⟩
  have hkeys : ∀ key ∈ sampleLabel.accounts, key.Short := by
    intro key hkey
    rcases List.mem_pair.1 hkey with rfl | rfl
    · exact ⟨by decide, by decide⟩
    · exact ⟨by decide, by decide⟩
  obtain ⟨-, -, hlabels, -⟩ := cpp_codecs_exact sampleWire_faithful ⟨some 1, []⟩ ⟨some 2⟩
  obtain ⟨raw, hraw, hdecode⟩ := hlabels sampleLabel hof ⟨by decide, by decide, hkeys⟩
  refine ⟨raw, hraw, hdecode ?_⟩
  rw [← Except.ok.inj hraw]
  decide +kernel

end Lktrs.Protocol
