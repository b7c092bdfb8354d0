import Lktrs.Foundation.Primality

/-!
# The four moduli of the profile

The host profile keeps two scalar domains apart: the BN254 scalar field, in which
the accumulator and the circuit live, and the secp256k1 scalar field, in which
user secrets, seeds, challenges and tags live. Both orders are proved prime from
Lucas certificates. The two base field moduli only bound coordinates.
-/

set_option autoImplicit false

namespace Lktrs.NativeProof

open Lktrs.Foundation

/-- Order of the BN254 pairing groups. -/
def bn254Fr : ℕ := 21888242871839275222246405745257275088548364400416034343698204186575808495617

/-- Base field modulus of BN254. -/
def bn254Fp : ℕ := 21888242871839275222246405745257275088696311157297823662689037894645226208583

/-- Order of secp256k1. -/
def secp256k1Fr : ℕ := 0xfffffffffffffffffffffffffffffffebaaedce6af48a03bbfd25e8cd0364141

/-- Base field modulus of secp256k1. -/
def secp256k1Fp : ℕ := 0xfffffffffffffffffffffffffffffffffffffffffffffffffffffffefffffc2f

/-- The primes below five million that occur in the certificates. -/
def smallFactors : List ℕ :=
  [2, 3, 5, 7, 11, 13, 17, 29, 41, 59, 83, 107, 109, 149, 229, 293, 379, 461, 631, 661, 797, 823,
   853, 983, 1637, 3691, 4051, 4999, 9349, 11003, 16699, 28181, 85831, 93001, 120233, 237073,
   305873, 1593227, 1627771, 4681609]

theorem smallFactors_prime : ∀ q ∈ smallFactors, q.Prime := by
  simp only [smallFactors, List.forall_mem_cons, List.not_mem_nil, false_implies, implies_true,
    and_true]
  norm_num

/-- Certificates for the two orders, each after the larger factors it needs. -/
def orderCertificates : List (ℕ × LucasCertificate) :=
  [(405928799, ⟨29, 22, [(2, 1), (11, 1), (3691, 1), (4999, 1)]⟩),
   (12048837557, ⟨34, 2, [(2, 2), (7, 2), (661, 1), (93001, 1)]⟩),
   (5156902474397, ⟨43, 2, [(2, 2), (107, 1), (12048837557, 1)]⟩),
   (1670836401704629, ⟨51, 2, [(2, 2), (3, 4), (5156902474397, 1)]⟩),
   (639533339, ⟨30, 2, [(2, 1), (229, 1), (853, 1), (1637, 1)]⟩),
   (65865678001877903, ⟨56, 5, [(2, 1), (83, 1), (379, 1), (1637, 1), (639533339, 1)]⟩),
   (13818364434197438864469338081,
     ⟨94, 3, [(2, 5), (5, 1), (823, 1), (1593227, 1), (65865678001877903, 1)]⟩),
   (bn254Fr,
     ⟨254, 5, [(2, 28), (3, 2), (13, 1), (29, 1), (983, 1), (11003, 1), (237073, 1),
       (405928799, 1), (1670836401704629, 1), (13818364434197438864469338081, 1)]⟩),
   (107361793816595537, ⟨57, 3, [(2, 4), (16699, 1), (85831, 1), (4681609, 1)]⟩),
   (44706919, ⟨26, 6, [(2, 1), (3, 1), (797, 1), (9349, 1)]⟩),
   (174723607534414371449,
     ⟨68, 3, [(2, 3), (17, 1), (59, 1), (4051, 1), (120233, 1), (44706919, 1)]⟩),
   (545358713, ⟨30, 5, [(2, 3), (41, 1), (59, 1), (28181, 1)]⟩),
   (297159362677, ⟨39, 2, [(2, 2), (3, 2), (11, 1), (461, 1), (1627771, 1)]⟩),
   (29047611873442575647497758179,
     ⟨95, 2, [(2, 1), (293, 1), (305873, 1), (545358713, 1), (297159362677, 1)]⟩),
   (341948486974166000522343609283189,
     ⟨109, 2, [(2, 2), (3, 3), (109, 1), (29047611873442575647497758179, 1)]⟩),
   (secp256k1Fr,
     ⟨256, 7, [(2, 6), (3, 1), (149, 1), (631, 1), (107361793816595537, 1),
       (174723607534414371449, 1), (341948486974166000522343609283189, 1)]⟩)]

theorem orderCertificates_check : checkSequence smallFactors orderCertificates = true := by
  decide +kernel

theorem orderCertificates_prime : ∀ p ∈ orderCertificates.map Prod.fst, p.Prime :=
  checkSequence_prime smallFactors_prime orderCertificates_check

instance : Fact (Nat.Prime bn254Fr) :=
  ⟨orderCertificates_prime _ (by simp [orderCertificates])⟩

instance : Fact (Nat.Prime secp256k1Fr) :=
  ⟨orderCertificates_prime _ (by simp [orderCertificates])⟩

end Lktrs.NativeProof
