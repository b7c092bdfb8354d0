import Lktrs.NativeProof.Backend

/-!
# The layout of key files

The checks made on the bytes of a verifying key and of a proving key before the
library decodes them: every count is read, bounded and compared with the locally
compiled circuit, and the bytes it announces must be there. What is left of the
file is the state of a check, so a position past the end cannot be named.
`KeyLibrary` is what the loader asks of the library beyond `Groth16`: the counts
of a compiled circuit, the two decoders, and the fields of a key that are
compared.
-/

set_option autoImplicit false

namespace Lktrs.NativeProof

open Lktrs.Foundation

/-- The points a proving key and its verifying key have in common. -/
structure SetupPoints where
  alpha : Bn254G1
  beta : Bn254G1
  delta : Bn254G1
  beta2 : Bn254G2
  delta2 : Bn254G2
  deriving DecidableEq

/-- What loading a setup asks of the library. -/
structure KeyLibrary (zk : Groth16) where
  Commitment : Type
  constraints : zk.ConstraintSystem → ℕ
  publicVariables : zk.ConstraintSystem → ℕ
  secretVariables : zk.ConstraintSystem → ℕ
  internalVariables : zk.ConstraintSystem → ℕ
  /-- The commitments of a circuit, when they are of the Groth16 kind. -/
  commitments : zk.ConstraintSystem → Option (List Commitment)
  /-- The number of private wires of a commitment. -/
  privateCommitted : Commitment → ℕ
  /-- What a verifying key records of the commitments, given the number of public variables. -/
  committedLayout : List Commitment → ℕ → List (List ℕ)
  /-- The size and the encoding of the FFT domain for a number of constraints. -/
  domainCardinality : ℕ → ℕ
  writeDomain : ℕ → Except String (List UInt8)
  /-- Decode a key; the second component is what was left unread. -/
  readVerifyingKey : List UInt8 → Except String (zk.VerifyingKey × List UInt8)
  readProvingKey : List UInt8 → Except String (zk.ProvingKey × List UInt8)
  /-- The number of points for public inputs of a verifying key. -/
  publicPoints : zk.VerifyingKey → ℕ
  verifyingLayout : zk.VerifyingKey → List (List ℕ)
  verifyingPoints : zk.VerifyingKey → SetupPoints
  provingPoints : zk.ProvingKey → SetupPoints

def sizeOfG1Uncompressed : ℕ := 64
def sizeOfG2Uncompressed : ℕ := 128

/-- The same reader a number of times. -/
def skipMany (skip : List UInt8 → Except String (List UInt8)) :
    ℕ → List UInt8 → Except String (List UInt8)
  | 0, rest => .ok rest
  | n + 1, rest => skip rest >>= skipMany skip n

/-! ## Verifying keys -/

/-- The local function `point`: the first byte says whether the point is compressed. -/
def skipPoint (compressed uncompressed : ℕ) (rest : List UInt8) :
    Except String (List UInt8) := do
  rejectIf (rest = []) "truncated verification key point"
  let size := if rest.getD 0 0 &&& 0xc0 ≠ 0 then compressed else uncompressed
  rejectIf (size = 0 ∨ size > rest.length) "invalid verification key point length"
  return rest.drop size

def skipG1 : List UInt8 → Except String (List UInt8) :=
  skipPoint sizeOfG1Compressed sizeOfG1Uncompressed

def skipG2 : List UInt8 → Except String (List UInt8) :=
  skipPoint sizeOfG2Compressed sizeOfG2Uncompressed

/-- The local function `readU32`. -/
def readLength (rest : List UInt8) : Except String (ℕ × List UInt8) := do
  rejectIf (rest.length < 4) "truncated verification key length"
  return (bigEndianValue (rest.take 4), rest.drop 4)

/-- A length that is missing or too large is refused with one text. -/
def readCount (max : ℕ) (text : String) (rest : List UInt8) : Except String (ℕ × List UInt8) :=
  match readLength rest with
  | .error _ => .error text
  | .ok (n, rest) => if n > max then .error text else .ok (n, rest)

def maxEntries : ℕ := 2 ^ 16

/-- The loop over the metadata rows, with the number of entries so far. -/
def skipMetadata : ℕ → ℕ → List UInt8 → Except String (List UInt8)
  | 0, _, rest => .ok rest
  | n + 1, total, rest => do
      let (inner, rest) ← readCount maxEntries "verification key metadata width is unsafe" rest
      rejectIf (total + inner > 2 ^ 20 ∨ inner * 8 > rest.length)
        "verification key metadata oversized"
      skipMetadata n (total + inner) (rest.drop (inner * 8))

def preflightVerifyingKey (raw : List UInt8) : Except String Unit := do
  -- [alpha]1, [beta]1, [beta]2, [gamma]2, [delta]1, [delta]2
  let rest ← skipG1 raw
  let rest ← skipG1 rest
  let rest ← skipG2 rest
  let rest ← skipG2 rest
  let rest ← skipG1 rest
  let rest ← skipG2 rest
  let (count, rest) ← readCount maxEntries "verification key public vector count is unsafe" rest
  let rest ← skipMany skipG1 count rest
  let (outer, rest) ← readCount maxEntries "verification key metadata count is unsafe" rest
  let rest ← skipMetadata outer 0 rest
  let (commitments, rest) ← readLength rest
  rejectIf (commitments > 64) "verification key commitment count is unsafe"
  -- each commitment key has two points
  let rest ← skipMany (skipMany skipG2 2) commitments rest
  rejectIf (rest.length ≠ 0) "trailing verification key bytes"

/-! ## Proving keys -/

def domainSize : ℕ := 8 + 5 * 32 + 1

/-- The local function `take`. -/
def takeBytes (n : ℕ) (rest : List UInt8) : Except String (List UInt8 × List UInt8) := do
  rejectIf (n > rest.length) "truncated proving key"
  return (rest.take n, rest.drop n)

def takeNumber (width : ℕ) (rest : List UInt8) : Except String (ℕ × List UInt8) := do
  let (b, rest) ← takeBytes width rest
  return (bigEndianValue b, rest)

/-- The local function `points`: compressed points only. -/
def skipPoints (n width : ℕ) (rest : List UInt8) : Except String (List UInt8) := do
  rejectIf (n > rest.length / width) "unsafe PK point count"
  let (b, rest) ← takeBytes (n * width) rest
  (List.range n).forM fun i =>
    rejectIf (compressedAt b (i * width) = false) "uncompressed PK point forbidden"
  return rest

/-- The local function `vector`: a count and that many points. -/
def skipVector (width max : ℕ) (rest : List UInt8) : Except String (ℕ × List UInt8) :=
  match takeNumber 4 rest with
  | .error _ => .error "unsafe PK vector length"
  | .ok (n, rest) => do
      rejectIf (n > max) "unsafe PK vector length"
      let rest ← skipPoints n width rest
      return (n, rest)

/-- A number that is missing or fails a test is refused with one text. -/
def takeChecked (width : ℕ) (bad : ℕ → Bool) (text : String) (rest : List UInt8) :
    Except String (ℕ × List UInt8) :=
  match takeNumber width rest with
  | .error _ => .error text
  | .ok (n, rest) => if bad n then .error text else .ok (n, rest)

/-- One pass of the loop over the two rows of infinity flags. -/
def checkInfinityFlags (wires count : ℕ) (rest : List UInt8) : Except String (List UInt8) := do
  let (flags, rest) ← takeBytes wires rest
  rejectIf (flags.any (fun v => v > 1) = true) "invalid PK infinity flag"
  rejectIf ((flags.map UInt8.toNat).sum ≠ count) "PK infinity flags mismatch"
  return rest

/-- The loop over the commitment bases, numbered from `i`; `widths` are the numbers of private
wires of the remaining commitments. -/
def checkCommitmentBases (wires : ℕ) : ℕ → List ℕ → List UInt8 → Except String (List UInt8)
  | _, [], rest => .ok rest
  | i, width :: widths, rest => do
      let (a, rest) ← skipVector 32 wires rest
      let (b, rest) ← skipVector 32 wires rest
      rejectIf (a ≠ b ∨ a ≠ width) s!"PK commitment basis {i} differs from circuit"
      checkCommitmentBases wires (i + 1) widths rest

section Keys

variable {zk : Groth16} (keys : KeyLibrary zk)

def preflightProvingKey (raw : List UInt8) (cs : zk.ConstraintSystem) : Except String Unit := do
  let expected ← keys.writeDomain (keys.constraints cs)
  rejectIf (raw.length < domainSize ∨ raw.take (domainSize - 1) ≠ expected.take (domainSize - 1) ∨
    raw.getD (domainSize - 1) 0 > 1) "PK FFT domain differs from circuit"
  let wires := keys.publicVariables cs + keys.secretVariables cs + keys.internalVariables cs
  match keys.commitments cs with
  | none => .error "unsupported commitments"
  | some commitments => do
      let rest ← skipPoints 3 32 (raw.drop domainSize)
      let (na, rest) ← skipVector 32 wires rest
      let (nb, rest) ← skipVector 32 wires rest
      let (nz, rest) ← skipVector 32 (keys.constraints cs).nextPowerOfTwo rest
      let widths := commitments.map keys.privateCommitted
      let privateWires : ℤ := keys.secretVariables cs + keys.internalVariables cs -
        commitments.length - widths.sum
      let (nk, rest) ← skipVector 32 wires rest
      rejectIf ((nk : ℤ) ≠ privateWires ∨
          (nz : ℤ) ≠ keys.domainCardinality (keys.constraints cs) - 1)
        "PK private or quotient vector differs from circuit"
      let rest ← skipPoints 2 64 rest
      let (nb2, rest) ← skipVector 64 wires rest
      let (nw, rest) ← takeChecked 8 (· != wires) "PK wire count differs from circuit" rest
      let (ia, rest) ← takeChecked 8 (· > nw) "invalid PK infinity count" rest
      let (ib, rest) ← takeChecked 8 (· > nw) "invalid PK infinity count" rest
      rejectIf ((na : ℤ) ≠ wires - ia ∨ (nb : ℤ) ≠ wires - ib ∨ nb2 ≠ nb)
        "inconsistent PK point vectors"
      let rest ← checkInfinityFlags wires ia rest
      let rest ← checkInfinityFlags wires ib rest
      let (_, rest) ← takeChecked 4 (· != commitments.length)
        "PK commitment count differs from circuit" rest
      let rest ← checkCommitmentBases wires 0 widths rest
      rejectIf (rest.length ≠ 0) "trailing proving key bytes"

end Keys

end Lktrs.NativeProof
