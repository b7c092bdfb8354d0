import Lktrs.NativeProof.Circuit

/-!
# The proof backend

`backend.go`: verification contexts and what they check of a statement, the
prover and the verifier around the Groth16 library, and the shape check made
before a proof is decoded. The library itself is the parameter `Groth16`: its
key and proof types, and its fallible operations. Proving draws randomness, an
argument here; proving and decoding may fail in any way.
-/

set_option autoImplicit false

namespace Lktrs.NativeProof

open Lktrs.Foundation

/-- The Groth16 operations the backend calls. -/
structure Groth16 where
  ConstraintSystem : Type
  ProvingKey : Type
  VerifyingKey : Type
  ProofValue : Type
  compile : Except String ConstraintSystem
  writeSystem : ConstraintSystem → Except String (List UInt8)
  setup : ConstraintSystem → ℕ → Except String (ProvingKey × VerifyingKey)
  writeKey : VerifyingKey → Except String (List UInt8)
  /-- The number of commitment keys of a verifying key. -/
  commitmentKeys : VerifyingKey → ℕ
  prove : ConstraintSystem → ProvingKey → Circuit → ℕ → Except String ProofValue
  writeProof : ProofValue → Except String (List UInt8)
  /-- Decode a proof; the second component is what was left unread. -/
  readProof : List UInt8 → Except String (ProofValue × List UInt8)
  verify : ProofValue → VerifyingKey → PublicInputs → Except String Unit

def circuitVersion : String := "lktrs-native-bn254-secp256k1-v1"

def maxProofBytes : ℕ := 2 ^ 20

structure Proof where
  version : String
  circuitHash : FixedBytes 32
  keyID : FixedBytes 32
  data : List UInt8
  deriving DecidableEq

structure Signed where
  statement : Statement
  proof : Proof
  deriving DecidableEq

structure Prover (zk : Groth16) where
  cs : zk.ConstraintSystem
  pk : zk.ProvingKey
  circuitHash : FixedBytes 32
  keyID : FixedBytes 32

structure Verifier (zk : Groth16) where
  vk : zk.VerifyingKey
  circuitHash : FixedBytes 32
  keyID : FixedBytes 32

structure VerificationContext where
  params : Params
  accounts : List Account
  issue : FixedBytes 32
  k : UInt32
  vDigest : FixedBytes 32
  deriving DecidableEq

variable (lib : GnarkCrypto) (zk : Groth16)

def newVerificationContext (p : Params) (accounts : List Account) (issue : FixedBytes 32)
    (k : UInt32) : Except String VerificationContext := do
  rejectIf (k = 0) "zero quota"
  validateParams lib p
  let _ ← accumulate lib p accounts
  let rd ← ringDigest lib accounts
  return { params := p, accounts, issue, k, vDigest := rd }

/-- `NewBackend`: a local setup, with the randomness it draws. -/
def newBackend (randomness : ℕ) : Except String (Prover zk × Verifier zk) := do
  let cs ← zk.compile
  let system ← wrapError "hash compiled circuit: " (zk.writeSystem cs)
  let circuitHash := sha256 system
  let (pk, vk) ← zk.setup cs randomness
  let key ← zk.writeKey vk
  let keyID := sha256 key
  return ({ cs, pk, circuitHash, keyID }, { vk, circuitHash, keyID })

def Prover.prove {zk : Groth16} (p : Prover zk) (params : Params) (st : Statement)
    (witness : SecretWitness) (randomness : ℕ) : Except String Signed := do
  let a ← assignment lib params st witness
  let proof ← zk.prove p.cs p.pk a randomness
  let data ← zk.writeProof proof
  return { statement := st
           proof := { version := circuitVersion, circuitHash := p.circuitHash, keyID := p.keyID,
                      data } }

/-- What a context accepts about a statement, before the proof is looked at. -/
def VerificationContext.check (ctx : VerificationContext) (message : List UInt8) (st : Statement) :
    Except String Unit := do
  rejectIf (st.issue ≠ ctx.issue ∨ st.k ≠ ctx.k) "issue or quota mismatch"
  rejectIf (st.messageDigest ≠ sha256 message) "message mismatch"
  rejectIf (st.ringDigest ≠ ctx.vDigest) "ring digest mismatch"
  let expected ← accumulate lib ctx.params ctx.accounts
  rejectIf (st.v ≠ expected) "ring accumulator mismatch"
  rejectIf (goodBN lib st.nym = false ∨ goodSecp lib st.s = false ∨ goodSecp lib st.t = false)
    "invalid signature point"
  rejectIf (canonicalNonzero st.r secp256k1Fr = false) "invalid challenge"
  let r ← challenge lib st
  rejectIf (some r ≠ st.r) "transcript challenge mismatch"

/-! ## The shape of a proof -/

/-- Sizes of compressed points. -/
def sizeOfG1Compressed : ℕ := 32
def sizeOfG2Compressed : ℕ := 64

def countOffset : ℕ := 2 * sizeOfG1Compressed + sizeOfG2Compressed

/-- The offsets of the points of a proof with this many commitments. -/
def proofPointOffsets (commitments : ℕ) : List ℕ :=
  [0, sizeOfG1Compressed, sizeOfG1Compressed + sizeOfG2Compressed] ++
    (List.range (commitments + 1)).map fun i => countOffset + 4 + i * sizeOfG1Compressed

/-- The top two bits of a compressed point's first byte are not both clear. -/
def compressedAt (raw : List UInt8) (offset : ℕ) : Bool := raw.getD offset 0 &&& 0xc0 != 0

def preflightProof (raw : List UInt8) (commitments : ℤ) : Except String Unit := do
  rejectIf (commitments < 0 ∨
      commitments > (maxProofBytes - countOffset - 4 - sizeOfG1Compressed) / sizeOfG1Compressed)
    "invalid trusted commitment count"
  rejectIf ((raw.length : ℤ) ≠ countOffset + 4 + sizeOfG1Compressed * (commitments + 1))
    "wrong compressed proof size"
  rejectIf ((bigEndianValue ((raw.drop countOffset).take 4) : ℤ) ≠ commitments % 2 ^ 32)
    "proof commitment count differs from verification key"
  (proofPointOffsets commitments.toNat).forM fun offset =>
    rejectIf (compressedAt raw offset = false) "uncompressed proof point forbidden"

def Verifier.verify {zk : Groth16} (v : Verifier zk) (ctx : VerificationContext)
    (message : List UInt8) (signed : Signed) : Except String Unit := do
  let p := signed.proof
  rejectIf (p.version ≠ circuitVersion ∨ p.circuitHash ≠ v.circuitHash ∨ p.keyID ≠ v.keyID)
    "proof profile or key mismatch"
  ctx.check lib message signed.statement
  rejectIf (p.data.length = 0 ∨ p.data.length > maxProofBytes) "invalid proof length"
  preflightProof p.data (zk.commitmentKeys v.vk)
  let (proof, rest) ← wrapError "proof encoding: " (zk.readProof p.data)
  rejectIf (rest.length ≠ 0) "trailing proof bytes"
  let assignment ← publicAssignment lib ctx.params signed.statement
  wrapError "proof rejected: " (zk.verify proof v.vk assignment)

end Lktrs.NativeProof
