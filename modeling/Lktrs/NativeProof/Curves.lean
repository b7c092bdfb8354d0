import Lktrs.Foundation.Bytes
import Lktrs.Foundation.PointGroup
import Lktrs.NativeProof.Orders

/-!
# Affine points and the curve library

The point types of gnark-crypto as the profile uses them: reduced affine
coordinates, with the pair `(0, 0)` standing for the point at infinity, and any
other coordinates allowed by the type. `GnarkCrypto` collects what the profile
takes from the library: the groups G1 and G2 of BN254 with their pairing, the
group of secp256k1, and the two hash-to-curve functions. The group laws are part
of the structure; the hash-to-curve functions are unconstrained.
-/

set_option autoImplicit false

namespace Lktrs.NativeProof

open Lktrs.Foundation

instance : NeZero bn254Fp := ⟨by decide⟩

instance : NeZero secp256k1Fp := ⟨by decide⟩

/-- Affine coordinates in the prime field of `p` elements. -/
structure Affine (p : ℕ) where
  x : Fin p
  y : Fin p
  deriving DecidableEq

/-- The point at infinity is stored as two zero coordinates. -/
def Affine.infinity {p : ℕ} [NeZero p] : Affine p := ⟨0, 0⟩

/-- An element of the quadratic extension of the BN254 base field. -/
structure E2 where
  a0 : Fin bn254Fp
  a1 : Fin bn254Fp
  deriving DecidableEq

/-- Affine coordinates of the BN254 twist. -/
structure Bn254G2 where
  x : E2
  y : E2
  deriving DecidableEq

def Bn254G2.infinity : Bn254G2 := ⟨⟨0, 0⟩, ⟨0, 0⟩⟩

/-- `bn254.G1Affine`. -/
abbrev Bn254G1 := Affine bn254Fp

/-- `secp256k1.G1Affine`. -/
abbrev Secp256k1G1 := Affine secp256k1Fp

/-- The curve operations the profile calls. -/
structure GnarkCrypto where
  bn : PointGroup Bn254G1 Affine.infinity bn254Fr
  bn2 : PointGroup Bn254G2 Bn254G2.infinity bn254Fr
  secp : PointGroup Secp256k1G1 Affine.infinity secp256k1Fr
  pairing : Pairing bn bn2
  bnHashToG1 : List UInt8 → List UInt8 → Except String Bn254G1
  secpHashToG1 : List UInt8 → List UInt8 → Except String Secp256k1G1

/-- `x || y`, each coordinate in 32 bytes, most significant first. -/
def encodeAffine {p : ℕ} (q : Affine p) : List UInt8 := bigEndian 32 q.x.val ++ bigEndian 32 q.y.val

/-- `EncodeBNPoint`. -/
def encodeBNPoint (p : Bn254G1) : List UInt8 := encodeAffine p

/-- `EncodeSecpPoint`. -/
def encodeSecpPoint (p : Secp256k1G1) : List UInt8 := encodeAffine p

@[simp] theorem length_encodeAffine {p : ℕ} (q : Affine p) : (encodeAffine q).length = 64 := by
  simp [encodeAffine]

@[simp] theorem length_encodeBNPoint (p : Bn254G1) : (encodeBNPoint p).length = 64 :=
  length_encodeAffine p

@[simp] theorem length_encodeSecpPoint (p : Secp256k1G1) : (encodeSecpPoint p).length = 64 :=
  length_encodeAffine p

/-- Coordinates below `2 ^ 256` are determined by their encoding. -/
theorem encodeAffine_inj {p : ℕ} (hp : p ≤ 256 ^ 32) {a b : Affine p}
    (h : encodeAffine a = encodeAffine b) : a = b := by
  obtain ⟨hx, hy⟩ := List.append_inj h (by simp)
  have hx' := bigEndian_inj (lt_of_lt_of_le a.x.isLt hp) (lt_of_lt_of_le b.x.isLt hp) hx
  have hy' := bigEndian_inj (lt_of_lt_of_le a.y.isLt hp) (lt_of_lt_of_le b.y.isLt hp) hy
  cases a
  cases b
  simp_all [Fin.ext_iff]

theorem encodeBNPoint_inj {a b : Bn254G1} (h : encodeBNPoint a = encodeBNPoint b) : a = b :=
  encodeAffine_inj (by decide) h

theorem encodeSecpPoint_inj {a b : Secp256k1G1} (h : encodeSecpPoint a = encodeSecpPoint b) :
    a = b :=
  encodeAffine_inj (by decide) h

/-! ## Membership tests

One test for each of the three groups: not the point at infinity, on the curve
and in the subgroup. -/

variable (lib : GnarkCrypto)

def goodBN (p : Bn254G1) : Bool := lib.bn.good p

def goodBN2 (p : Bn254G2) : Bool := lib.bn2.good p

def goodSecp (p : Secp256k1G1) : Bool := lib.secp.good p

end Lktrs.NativeProof
