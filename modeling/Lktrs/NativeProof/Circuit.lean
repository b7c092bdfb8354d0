import Lktrs.Foundation.Gadgets
import Lktrs.NativeProof.Profile

/-!
# The connected circuit

`Circuit.Define` over the ideal gadgets, and the assignments of `witness.go`. A
native variable is a residue of the BN254 scalar field, a coordinate or scalar of
another field an emulated `Element`, and a `U8` a byte. `Circuit.define` succeeds
exactly when the assignment satisfies every constraint; the sections of the one
source function are separate definitions, in its order.
-/

set_option autoImplicit false

namespace Lktrs.NativeProof

open Lktrs.Foundation

/-- A native circuit variable. -/
abbrev Variable := ZMod bn254Fr

/-- A point with emulated coordinates, which need not be reduced. -/
structure EmulatedPoint (p : ℕ) where
  x : Element p
  y : Element p
  deriving DecidableEq

/-- The point the coordinates stand for. -/
def EmulatedPoint.toAffine {p : ℕ} [NeZero p] (q : EmulatedPoint p) : Affine p :=
  ⟨Fin.ofNat p q.x.value, Fin.ofNat p q.y.value⟩

/-- A point of the twist with emulated coordinates `x.a0, x.a1, y.a0, y.a1`. -/
structure EmulatedG2 where
  xA0 : Element bn254Fp
  xA1 : Element bn254Fp
  yA0 : Element bn254Fp
  yA1 : Element bn254Fp
  deriving DecidableEq

def EmulatedG2.toAffine (q : EmulatedG2) : Bn254G2 :=
  ⟨⟨Fin.ofNat bn254Fp q.xA0.value, Fin.ofNat bn254Fp q.xA1.value⟩,
    ⟨Fin.ofNat bn254Fp q.yA0.value, Fin.ofNat bn254Fp q.yA1.value⟩⟩

abbrev SecpPoint := EmulatedPoint secp256k1Fp
abbrev SecpScalar := Element secp256k1Fr

/-- The public part of an assignment. -/
structure PublicInputs where
  v : EmulatedPoint bn254Fp
  nym : EmulatedPoint bn254Fp
  h : EmulatedG2
  hTau : EmulatedG2
  ut : SecpPoint
  sPoint : SecpPoint
  tPoint : SecpPoint
  issue : FixedBytes 32
  ringDigest : FixedBytes 32
  messageDigest : FixedBytes 32
  timestamp : Variable
  k : Variable
  r : SecpScalar
  deriving DecidableEq

/-- The private part of an assignment. -/
structure PrivateInputs where
  x : SecpScalar
  d : SecpScalar
  accountU : SecpPoint
  accountY : SecpPoint
  w : EmulatedPoint bn254Fp
  counter : Variable
  deriving DecidableEq

/-- An assignment to all circuit variables. -/
structure Circuit extends PublicInputs, PrivateInputs
  deriving DecidableEq

/-! ## Helpers -/

def sha (data : List UInt8) : List UInt8 := (sha256 data).toList

/-- The bits of one integer; a byte always has its eight bits. -/
def bytesBits (data : List UInt8) : List Bool := data.reverse.flatMap fun b => bitsOf 8 b.toNat

def integerBytes (bs : List Bool) (width : ℕ) : Except String (List UInt8) :=
  if bs.length > 8 * width then .error "integer exceeds encoding width"
  else .ok (bytesOfBits width (bs ++ List.replicate (8 * width - bs.length) false))

/-- The bits of the reduced value, as many as the modulus has. -/
def toBitsCanonical {q : ℕ} (value : Element q) : List Bool := bitsOf q.size (value.value % q)

def fieldBytes {q : ℕ} (value : Element q) : Except String (List UInt8) := do
  value.assertIsInRange
  integerBytes (toBitsCanonical value) 32

/-- The integer of the bytes as a native variable. -/
def nativeValue (data : List UInt8) : Variable :=
  data.foldl (fun out b => out * 256 + (b.toNat : Variable)) 0

/-- `ToBinary` without a width: the canonical bits of a native variable. -/
def nativeBits (v : Variable) : List Bool := bitsOf bn254Fr.size v.val

def secpValue (data : List UInt8) : SecpScalar :=
  (Element.fromBits (bytesBits data) : SecpScalar).reduceStrict

def secpEncoding (p : SecpPoint) : Except String (List UInt8) := do
  let x ← fieldBytes p.x
  let y ← fieldBytes p.y
  return x ++ y

def nonzeroPoint {p : ℕ} (q : EmulatedPoint p) : Except String Unit :=
  assertThat (¬ (q.x.isZero = true ∧ q.y.isZero = true))

/-! ## Define -/

variable (lib : GnarkCrypto)

/-- A secp256k1 input: on the curve and not both coordinates zero. -/
def assertSecpPoint (p : SecpPoint) : Except String Unit := do
  assertThat (lib.secp.isOnCurve p.toAffine = true)
  nonzeroPoint p

/-- A G1 input: on the curve, in the subgroup, not both coordinates zero. -/
def assertG1Point (p : EmulatedPoint bn254Fp) : Except String Unit := do
  assertThat (lib.bn.isOnCurve p.toAffine = true ∧ lib.bn.isInSubGroup p.toAffine = true)
  nonzeroPoint p

/-- A G2 input: on the curve, in the subgroup, not all four coordinates zero. -/
def assertG2Point (p : EmulatedG2) : Except String Unit := do
  assertThat (lib.bn2.isOnCurve p.toAffine = true ∧ lib.bn2.isInSubGroup p.toAffine = true)
  assertThat (¬ (p.xA0.isZero = true ∧ p.xA1.isZero = true ∧ p.yA0.isZero = true ∧
    p.yA1.isZero = true))

/-- A scalar input: reduced and nonzero. -/
def assertScalar (a : SecpScalar) : Except String Unit := do
  a.assertIsInRange
  a.assertIsDifferent Element.zero

namespace Circuit

variable (c : Circuit)

def definePoints : Except String Unit := do
  [c.ut, c.sPoint, c.tPoint, c.accountU, c.accountY].forM (assertSecpPoint lib)
  [c.v, c.w, c.nym].forM (assertG1Point lib)
  [c.h, c.hTau].forM (assertG2Point lib)

/-- The scalar ranges, and `Counter < K` through 32-bit decompositions. -/
def defineScalars : Except String SecpScalar := do
  assertScalar c.x
  assertScalar c.d
  assertScalar c.r
  let cntBits ← toBinary c.counter 32
  let _ ← toBinary c.k 32
  assertThat (c.k ≠ 0)
  let _ ← toBinary (c.k - c.counter - 1) 32
  return Element.fromBits cntBits

/-- The two seeds, after the bytes of `X`. -/
def defineSeeds (xbytes : List UInt8) : Except String (SecpScalar × SecpScalar) := do
  let seedMessage := xbytes ++ c.issue.toList
  let s := secpValue (sha (seedMessage ++ [0]))
  let t := secpValue (sha (seedMessage ++ [1]))
  s.assertIsDifferent Element.zero
  t.assertIsDifferent Element.zero
  return (s, t)

/-- The exponent of a pseudonym base: the integer of the bytes reduced into BN254 Fr. -/
def nymExponent (bytes : List UInt8) : Element bn254Fr :=
  Element.fromBits (nativeBits (nativeValue bytes))

def defineNym (xbytes : List UInt8) (s t : SecpScalar) : Except String Unit := do
  let xbn := nymExponent xbytes
  let sbytes ← fieldBytes s
  let sbn := nymExponent sbytes
  let tbytes ← fieldBytes t
  let tbn := nymExponent tbytes
  let g0 ← lib.bnHashToG1 (textBytes "g0") (textBytes "LKTRS-BN254-NYM-V1")
  let g1 ← lib.bnHashToG1 (textBytes "g1") (textBytes "LKTRS-BN254-NYM-V1")
  let g2 ← lib.bnHashToG1 (textBytes "g2") (textBytes "LKTRS-BN254-NYM-V1")
  let nym := lib.bn.add (lib.bn.scalarMultiplication g0 sbn.value)
    (lib.bn.scalarMultiplication g1 tbn.value)
  let nym := lib.bn.add nym (lib.bn.scalarMultiplication g2 xbn.value)
  assertThat (nym = c.nym.toAffine)

/-- Account ownership; the same private points enter the member hash below. -/
def defineAccount : Except String Unit := do
  assertThat (lib.secp.scalarMultiplication lib.secp.generator c.d.value = c.accountU.toAffine)
  assertThat (lib.secp.scalarMultiplication c.accountU.toAffine c.x.value = c.accountY.toAffine)

/-- `e(W, aH + HTau) = e(V, H)`, regrouped to `e(aW - V, H) e(W, HTau) = 1`. -/
def defineMembership : Except String Unit := do
  let u ← secpEncoding c.accountU
  let y ← secpEncoding c.accountY
  let mh := sha (textBytes "lktrs/member/v1" ++ u ++ y)
  let aNative := nativeValue mh
  assertThat (aNative ≠ 0)
  let a : Element bn254Fr := Element.fromBits (nativeBits aNative)
  let aWminusV := lib.bn.add (lib.bn.scalarMultiplication c.w.toAffine a.value)
    (lib.bn.neg c.v.toAffine)
  let ok ← wrapError "q-SDH: " (lib.pairing.pairingCheck [aWminusV, c.w.toAffine]
    [c.h.toAffine, c.hTau.toAffine])
  assertThat (ok = true)

/-- The challenge recomputed from the transcript. -/
def defineChallenge : Except String SecpScalar := do
  let nymX ← fieldBytes c.nym.x
  let nymY ← fieldBytes c.nym.y
  let timestampBits ← toBinary c.timestamp 64
  let timestampBytes ← integerBytes timestampBits 8
  let kBits ← toBinary c.k 32
  let kBytes ← integerBytes kBits 4
  let transcript := textBytes "lktrs/challenge/v1" ++ c.issue.toList ++ c.ringDigest.toList ++
    c.messageDigest.toList ++ nymX ++ nymY ++ timestampBytes ++ kBytes
  let r := secpValue (sha transcript)
  r.assertIsEqual c.r
  return r

/-- The serial number and the tracing tag. -/
def defineTags (cnt s t r : SecpScalar) : Except String Unit := do
  let denS := (s.add cnt).add Element.one
  denS.assertIsDifferent Element.zero
  let is ← denS.inverse
  assertThat (lib.secp.scalarMultiplication c.ut.toAffine is.value = c.sPoint.toAffine)
  let denT := (t.add cnt).add Element.one
  denT.assertIsDifferent Element.zero
  let it ← denT.inverse
  let tp := lib.secp.add (lib.secp.scalarMultiplication lib.secp.generator c.x.value)
    (lib.secp.scalarMultiplication c.ut.toAffine (r.mul it).value)
  assertThat (tp = c.tPoint.toAffine)

/-- `Circuit.Define`: every constraint in order. The checks that the native field is BN254 Fr
and that the gadget packages initialise are left out, as they do not depend on the assignment. -/
def define : Except String Unit := do
  c.definePoints lib
  let cnt ← c.defineScalars
  let xbytes ← fieldBytes c.x
  let (s, t) ← c.defineSeeds xbytes
  c.defineNym lib xbytes s t
  c.defineAccount lib
  c.defineMembership lib
  let r ← c.defineChallenge
  c.defineTags lib cnt s t r

end Circuit

/-! ## Assignments -/

def emulate {p : ℕ} (q : Affine p) : EmulatedPoint p := ⟨⟨q.x.val⟩, ⟨q.y.val⟩⟩

def secpPoint (p : Secp256k1G1) : SecpPoint := emulate p

def emulateG2 (q : Bn254G2) : EmulatedG2 := ⟨⟨q.x.a0.val⟩, ⟨q.x.a1.val⟩, ⟨q.y.a0.val⟩, ⟨q.y.a1.val⟩⟩

def publicAssignment (p : Params) (st : Statement) : Except String PublicInputs :=
  match st.r with
  | none => .error "missing challenge"
  | some r => do
      let ut ← issueBase lib st.issue
      return {
        v := emulate st.v
        nym := emulate st.nym
        h := emulateG2 p.h
        hTau := emulateG2 p.hTau
        ut := secpPoint ut
        sPoint := secpPoint st.s
        tPoint := secpPoint st.t
        issue := st.issue
        ringDigest := st.ringDigest
        messageDigest := st.messageDigest
        timestamp := (st.timestamp.toNat : Variable)
        k := (st.k.toNat : Variable)
        r := Element.valueOf secp256k1Fr r }

/-- `Assignment`: the public part, and the private values of the witness. -/
def assignment (p : Params) (st : Statement) (w : SecretWitness) : Except String Circuit :=
  match w.x, w.d with
  | some x, some d => do
      let c ← publicAssignment lib p st
      return {
        toPublicInputs := c
        x := Element.valueOf secp256k1Fr x
        d := Element.valueOf secp256k1Fr d
        accountU := secpPoint w.account.u
        accountY := secpPoint w.account.y
        w := emulate w.w
        counter := (w.counter.toNat : Variable) }
  | _, _ => .error "missing secret"

end Lktrs.NativeProof
