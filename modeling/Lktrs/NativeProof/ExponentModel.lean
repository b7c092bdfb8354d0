import Lktrs.Foundation.ExponentGroup
import Lktrs.NativeProof.Backend

/-!
# A curve library that computes

The ideal curve operations at the real orders, with a point held as its
logarithm: the coordinates of a point of logarithm `a` other than zero are
`(a, 1)`. The groups are isomorphic to those of the curves, so results that
assume only the laws can be evaluated here. Hashing to a curve takes the hashed
bytes as a nonzero logarithm.
-/

set_option autoImplicit false

namespace Lktrs.NativeProof

open Lktrs.Foundation

/-- The coordinates of a logarithm. -/
def affineOfLog (p : ℕ) [NeZero p] : ℕ → Affine p
  | 0 => Affine.infinity
  | a + 1 => ⟨Fin.ofNat p (a + 1), Fin.ofNat p 1⟩

def affineCode (p n : ℕ) [NeZero p] (hn : n ≤ p) (hp : 1 < p) : LogCode (Affine p) n where
  encode := affineOfLog p
  decode q :=
    if q.y.val = 1 ∧ 0 < q.x.val ∧ q.x.val < n then some q.x.val
    else if q = Affine.infinity ∧ 0 < n then some 0 else none
  decode_eq_some q a := by
    obtain ⟨x, y⟩ := q
    cases a with
    | zero =>
        simp only [affineOfLog, Affine.infinity, Affine.mk.injEq]
        constructor
        · intro h
          split at h
          · rename_i hcode
            rw [Option.some.injEq] at h
            omega
          · split at h
            · rename_i hinf
              exact ⟨hinf.2, hinf.1⟩
            · cases h
        · rintro ⟨hpos, rfl, rfl⟩
          simp [hpos]
    | succ a =>
        simp only [affineOfLog, Affine.infinity, Affine.mk.injEq, Fin.ext_iff, Fin.val_ofNat,
          Nat.mod_eq_of_lt hp]
        constructor
        · intro h
          split at h
          · rename_i hcode
            simp only [Option.some.injEq] at h
            refine ⟨by omega, ?_, hcode.1⟩
            rw [Nat.mod_eq_of_lt (by omega)]
            exact h
          · split at h
            · simp at h
            · cases h
        · rintro ⟨hlt, hx, hy⟩
          rw [Nat.mod_eq_of_lt (by omega)] at hx
          simp [hx, hy, hlt]

/-- The coordinates of a logarithm on the twist. -/
def g2OfLog : ℕ → Bn254G2
  | 0 => Bn254G2.infinity
  | a + 1 => ⟨⟨Fin.ofNat bn254Fp (a + 1), 0⟩, ⟨Fin.ofNat bn254Fp 1, 0⟩⟩

/-- The twist stores the same two numbers in the first components. -/
def g2Code : LogCode Bn254G2 bn254Fr where
  encode := g2OfLog
  decode q :=
    if q.x.a1 = 0 ∧ q.y.a1 = 0 then
      (affineCode bn254Fp bn254Fr (by decide) (by decide)).decode ⟨q.x.a0, q.y.a0⟩
    else none
  decode_eq_some q a := by
    obtain ⟨⟨x0, x1⟩, y0, y1⟩ := q
    have hcode := (affineCode bn254Fp bn254Fr (by decide) (by decide)).decode_eq_some ⟨x0, y0⟩ a
    split
    · rename_i hzero
      obtain ⟨rfl, rfl⟩ : x1 = 0 ∧ y1 = 0 := hzero
      rw [hcode]
      cases a with
      | zero => simp [affineCode, affineOfLog, g2OfLog, Affine.infinity, Bn254G2.infinity]
      | succ a => simp [affineCode, affineOfLog, g2OfLog]
    · rename_i hzero
      simp only [reduceCtorEq, false_iff, not_and]
      intro _ hq
      apply hzero
      cases a with
      | zero => simp_all [g2OfLog, Bn254G2.infinity]
      | succ a => simp_all [g2OfLog]

def bnCode : LogCode Bn254G1 bn254Fr := affineCode bn254Fp bn254Fr (by decide) (by decide)

def secpCode : LogCode Secp256k1G1 secp256k1Fr :=
  affineCode secp256k1Fp secp256k1Fr (by decide) (by decide)

theorem one_lt_bn254Fr : 1 < bn254Fr := by decide

/-- The library of logarithms. -/
def exponentLib : GnarkCrypto where
  bn := bnCode.pointGroup one_lt_bn254Fr
  bn2 := g2Code.pointGroup one_lt_bn254Fr
  secp := secpCode.pointGroup (by decide)
  pairing := bnCode.pairing g2Code one_lt_bn254Fr
  bnHashToG1 message _ := .ok (bnCode.encode (bigEndianValue message % (bn254Fr - 1) + 1))
  secpHashToG1 message _ := .ok (secpCode.encode (bigEndianValue message % (secp256k1Fr - 1) + 1))

/-! ## Sample values -/

/-- Parameters with trapdoor 5 and room for two accounts. -/
def sampleParams : Params where
  g := affineOfLog bn254Fp 1
  h := g2OfLog 1
  hTau := g2OfLog 5
  powers := [affineOfLog bn254Fp 1, affineOfLog bn254Fp 5, affineOfLog bn254Fp 25]

theorem sampleParams_valid : validateParams exponentLib sampleParams = .ok () := by
  decide

theorem sampleParams_hTau : sampleParams.hTau = exponentLib.bn2.exp 5 := by
  decide

/-- The account of secret 3 and exponent 7. -/
def sampleAccount : Account where
  u := affineOfLog secp256k1Fp 7
  y := affineOfLog secp256k1Fp 21
  d := some 7

/-- The account of secret 4 and exponent 9. -/
def otherAccount : Account where
  u := affineOfLog secp256k1Fp 9
  y := affineOfLog secp256k1Fp 36
  d := some 9

/-- A ring of both accounts, as full as the parameters allow. -/
def sampleRing : List Account := [otherAccount, sampleAccount]

/-- The bytes of a proof without commitments: three compressed points, a zero count and one
more point. -/
def sampleProofBytes : List UInt8 :=
  List.replicate 128 0xc0 ++ [0, 0, 0, 0] ++ List.replicate 32 0xc0

/-- A proof system whose prover checks the constraints and whose one proof is accepted. -/
def sampleGroth16 : Groth16 where
  ConstraintSystem := Unit
  ProvingKey := Unit
  VerifyingKey := Unit
  ProofValue := Unit
  compile := .ok ()
  writeSystem _ := .ok []
  setup _ _ := .ok ((), ())
  writeKey _ := .ok []
  commitmentKeys _ := 0
  prove _ _ a _ := a.define exponentLib
  writeProof _ := .ok sampleProofBytes
  readProof raw := .ok ((), raw.drop sampleProofBytes.length)
  verify _ _ _ := .ok ()

/-- The verifier that a setup of the sample proof system returns. -/
def sampleVerifier : Verifier sampleGroth16 where
  vk := ()
  circuitHash := sha256 []
  keyID := sha256 []

def sampleProof : Proof where
  version := circuitVersion
  circuitHash := sha256 []
  keyID := sha256 []
  data := sampleProofBytes

/-- The statement of secret 3 for the second account of the sample ring, at counter 1 of 2. -/
def sampleStatement (message : List UInt8) : Except String (Statement × SecretWitness) :=
  makeStatement exponentLib sampleParams sampleRing 1 3 7 (FixedBytes.zero 32)
    (sha256 message) 9 2 1

/-- The context of the sample ring. -/
def sampleContext : Except String VerificationContext :=
  newVerificationContext exponentLib sampleParams sampleRing (FixedBytes.zero 32) 2

/-- Five messages, and the challenges of their statements. -/
def sampleMessages : Fin 5 → List UInt8 := ![[], [1], [2], [3], [4]]

def sampleChallenges : Fin 5 → ℤ :=
  ![42040773609921716421963207399653902877193819854426332831221487966286462003235,
    85837799836758556656025767923661484115286860058076917918027191335662341112103,
    64687692548229633931701163561228047448888139491775230289638293971941203471048,
    110745630513766219153109760398231972574692357379555355300366286287294110254425,
    85372471137231179790541173766695766897064434038376619355516884741692945226789]

theorem sample_evaluated :
    (sampleContext.isOk = true ∧ ∀ i,
      (sampleStatement (sampleMessages i)).map (fun out => out.1.r) =
        .ok (some (sampleChallenges i))) ∧
    (sampleProofBytes.length ≠ 0 ∧ sampleProofBytes.length ≤ maxProofBytes) ∧
      preflightProof sampleProofBytes 0 = .ok () := by
  decide +kernel

theorem sampleContext_ok : ∃ ctx, sampleContext = .ok ctx :=
  exists_ok_of_isOk sample_evaluated.1.1

theorem sampleStatement_ok (i : Fin 5) : ∃ st w,
    sampleStatement (sampleMessages i) = .ok (st, w) ∧ st.r = some (sampleChallenges i) := by
  obtain ⟨⟨st, w⟩, hmake, hr⟩ := map_eq_ok.1 (sample_evaluated.1.2 i)
  exact ⟨st, w, hmake, hr⟩

theorem sampleChallenges_ne {i j : Fin 5} (h : i ≠ j) : sampleChallenges i ≠ sampleChallenges j :=
  (by decide : ∀ i j, i ≠ j → sampleChallenges i ≠ sampleChallenges j) i j h

/-- The statements of the first two messages differ in their challenge. -/
theorem sampleStatements_ok : ∃ st w st' w', sampleStatement [] = .ok (st, w) ∧
    sampleStatement [1] = .ok (st', w') ∧ st.r ≠ st'.r := by
  obtain ⟨st, w, hmake, hr⟩ := sampleStatement_ok 0
  obtain ⟨st', w', hmake', hr'⟩ := sampleStatement_ok 1
  refine ⟨st, w, st', w', hmake, hmake', ?_⟩
  rw [hr, hr']
  simpa using sampleChallenges_ne (i := 0) (j := 1) (by decide)

end Lktrs.NativeProof
