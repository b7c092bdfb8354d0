import Lktrs.Foundation.Outcome
import Lktrs.Foundation.Residues
import Lktrs.Foundation.Sha256
import Lktrs.NativeProof.Curves

/-!
# The host profile

The functions of `profile.go`: public parameters and their validation, hashes to
scalars, accounts, the member polynomial and the accumulator, the statement a
signer makes, and ring snapshots. A `big.Int` is an integer and a pointer that
may be nil an `Option`; a fixed-size array is `FixedBytes`; randomness is an
argument that holds what the reader returned. Scalars stay integers with the
reductions the code performs, so that the two scalar domains are told apart by
the modulus of each reduction.
-/

set_option autoImplicit false

namespace Lktrs.NativeProof

open Lktrs.Foundation

def memberDomain : String := "lktrs/member/v1"
def challengeDomain : String := "lktrs/challenge/v1"
def ringDomain : String := "lktrs/ring/v1"
def nymDST : String := "LKTRS-BN254-NYM-V1"
def issueDST : String := "LKTRS-SECP256K1-ISSUE-V1"

/-- Public q-SDH material: `powers[i] = [tau ^ i]g`. -/
structure Params where
  g : Bn254G1
  h : Bn254G2
  hTau : Bn254G2
  powers : List Bn254G1
  deriving DecidableEq

/-- A public account; `d` is optional metadata with `u = [d]` of the generator. -/
structure Account where
  u : Secp256k1G1
  y : Secp256k1G1
  d : Option ℤ
  deriving DecidableEq

/-- The public statement of a signature. -/
structure Statement where
  v : Bn254G1
  nym : Bn254G1
  s : Secp256k1G1
  t : Secp256k1G1
  issue : FixedBytes 32
  ringDigest : FixedBytes 32
  messageDigest : FixedBytes 32
  timestamp : UInt64
  k : UInt32
  r : Option ℤ
  deriving DecidableEq

/-- The signer's private values. -/
structure SecretWitness where
  x : Option ℤ
  d : Option ℤ
  account : Account
  w : Bn254G1
  counter : UInt32
  deriving DecidableEq

def canonicalNonzero (n : Option ℤ) (modulus : ℕ) : Bool :=
  match n with
  | none => false
  | some n => decide (0 < n) && decide (n < modulus)

/-- What `rand.Int` returned below `max`, or its error. -/
def randInt (draw : Except String ℕ) (max : ℤ) : Except String ℤ := do
  let n ← draw
  return (n : ℤ) % max

def randomNonzero (modulus : ℕ) (draw : Except String ℕ) : Except String ℤ := do
  let n ← randInt draw (modulus - 1)
  return n + 1

variable (lib : GnarkCrypto)

/-! ## Parameters -/

/-- The loop of `Setup` over the powers still to write; `power` is the current exponent. -/
def setupPowers (tau : ℤ) : ℕ → ℤ → List Bn254G1
  | 0, _ => []
  | n + 1, power =>
      lib.bn.scalarMultiplication lib.bn.generator power ::
        setupPowers tau n (power * tau % bn254Fr)

/-- `Setup`, with the outcome of its random draw. -/
def setup (capacity : ℤ) (draw : Except String ℕ) : Except String Params := do
  rejectIf (capacity < 1 ∨ capacity > 2 ^ 16) "setup capacity must be in [1,65536]"
  let tau ← wrapError "setup randomness: " (randomNonzero bn254Fr draw)
  return {
    g := lib.bn.generator
    h := lib.bn2.generator
    hTau := lib.bn2.scalarMultiplication lib.bn2.generator tau
    powers := setupPowers lib tau (capacity.toNat + 1) 1 }

/-- The pairing relation between two adjacent powers. -/
def adjacentPowers (p : Params) (previous current : Bn254G1) : Bool :=
  match lib.pairing.pairingCheck [current, lib.bn.neg previous] [p.h, p.hTau] with
  | .ok ok => ok
  | .error _ => false

/-- The loop of `ValidateParams` from index `i` on; `previous` is the power before it. -/
def validatePowers (p : Params) : ℕ → Option Bn254G1 → List Bn254G1 → Except String Unit
  | _, _, [] => .ok ()
  | i, previous, q :: qs => do
      rejectIf (goodBN lib q = false) s!"invalid powers point {i}"
      match previous with
      | none => validatePowers p (i + 1) (some q) qs
      | some before => do
          rejectIf (adjacentPowers lib p before q = false) s!"inconsistent powers at {i}"
          validatePowers p (i + 1) (some q) qs

def validateParams (p : Params) : Except String Unit := do
  rejectIf (p.powers.length < 2 ∨ p.powers.length > 2 ^ 16 + 1) "invalid powers length"
  rejectIf (goodBN lib p.g = false ∨ goodBN2 lib p.h = false ∨ goodBN2 lib p.hTau = false)
    "invalid setup point"
  rejectIf (p.g ≠ lib.bn.generator ∨ p.h ≠ lib.bn2.generator ∨ p.powers[0]? ≠ some p.g)
    "unexpected setup generators"
  validatePowers lib p 0 none p.powers

/-! ## Hashes to scalars and fixed points -/

/-- SHA-256 read as a big-endian integer modulo `modulus`; zero is rejected. -/
def hashScalar (data : List UInt8) (modulus : ℕ) : Except String ℤ := do
  rejectIf (modulus < 2) "invalid scalar modulus"
  let n : ℤ := (sha256 data).value % modulus
  rejectIf (n = 0) "hash reduced to zero"
  return n

/-- The preimage of a seed: `x` in 32 bytes, the issue, and the branch byte. -/
def seedInput (x : ℤ) (issue : FixedBytes 32) (branch : UInt8) : List UInt8 :=
  bigEndian 32 x.natAbs ++ issue.toList ++ [branch]

def seeds (x : ℤ) (issue : FixedBytes 32) : Except String (ℤ × ℤ) := do
  rejectIf (canonicalNonzero x secp256k1Fr = false) "x is not a canonical nonzero secp scalar"
  let s ← hashScalar (seedInput x issue 0) secp256k1Fr
  let t ← hashScalar (seedInput x issue 1) secp256k1Fr
  return (s, t)

/-- One hash-derived base of the pseudonym. -/
def nymBase (label : String) : Except String Bn254G1 := do
  let p ← lib.bnHashToG1 (textBytes label) (textBytes nymDST)
  rejectIf (goodBN lib p = false) "hash-derived nym base is invalid"
  return p

def bases : Except String (Bn254G1 × Bn254G1 × Bn254G1) := do
  let g0 ← nymBase lib "g0"
  let g1 ← nymBase lib "g1"
  let g2 ← nymBase lib "g2"
  return (g0, g1, g2)

def issueBase (issue : FixedBytes 32) : Except String Secp256k1G1 := do
  let p ← lib.secpHashToG1 issue.toList (textBytes issueDST)
  rejectIf (goodSecp lib p = false) "invalid issue base"
  return p

/-- The per-user value that tracing recovers. -/
def traceKey (x : ℤ) : Except String Secp256k1G1 := do
  rejectIf (canonicalNonzero x secp256k1Fr = false) "invalid user secret"
  return lib.secp.scalarMultiplication lib.secp.generator x

/-! ## Accounts -/

def validateAccount (a : Account) : Except String Unit := do
  rejectIf (goodSecp lib a.u = false ∨ goodSecp lib a.y = false)
    "account contains invalid or identity point"
  match a.d with
  | none => return ()
  | some d => do
      rejectIf (canonicalNonzero d secp256k1Fr = false) "invalid public account d"
      rejectIf (lib.secp.scalarMultiplication lib.secp.generator d ≠ a.u)
        "account U does not match d"

def newAccount (x d : ℤ) : Except String Account := do
  rejectIf (canonicalNonzero x secp256k1Fr = false ∨ canonicalNonzero d secp256k1Fr = false)
    "account scalars must be canonical nonzero secp scalars"
  let u := lib.secp.scalarMultiplication lib.secp.generator d
  let a : Account := { u, y := lib.secp.scalarMultiplication u x, d := some d }
  validateAccount lib a
  return a

/-- `KeyGen`: the account and the secret, with the draws for a new secret and for the
account exponent. -/
def keyGen (existingX : Option ℤ) (drawX drawD : Except String ℕ) :
    Except String (Account × ℤ) := do
  let x ← match existingX with
    | none => randomNonzero secp256k1Fr drawX
    | some x => do
        rejectIf (canonicalNonzero x secp256k1Fr = false) "invalid existing user secret"
        pure x
  let d ← randomNonzero secp256k1Fr drawD
  let a ← newAccount lib x d
  return (a, x)

/-- The preimage of a member handle. -/
def memberInput (a : Account) : List UInt8 :=
  textBytes memberDomain ++ encodeSecpPoint a.u ++ encodeSecpPoint a.y

def member (a : Account) : Except String ℤ := do
  validateAccount lib a
  hashScalar (memberInput a) bn254Fr

/-- The loop of `membersOf` from index `i` on, with the handles seen so far. -/
def collectMembers : ℕ → List ℤ → List Account → Except String (List ℤ)
  | _, _, [] => .ok []
  | i, seen, a :: rest => do
      let m ← wrapError s!"account {i}: " (member lib a)
      rejectIf (m ∈ seen) "duplicate member handle"
      let ms ← collectMembers (i + 1) (m :: seen) rest
      return m :: ms

def membersOf (accounts : List Account) : Except String (List ℤ) := do
  rejectIf (accounts.length = 0 ∨ accounts.length > 2 ^ 32 - 1)
    "ring must be nonempty and fit uint32 count"
  collectMembers lib 0 [] accounts

/-- The points of the accounts in order. -/
def ringPoints (accounts : List Account) : List UInt8 :=
  accounts.flatMap fun a => encodeSecpPoint a.u ++ encodeSecpPoint a.y

/-- The preimage of a ring digest. -/
def ringInput (accounts : List Account) : List UInt8 :=
  textBytes ringDomain ++ bigEndian 4 accounts.length ++ ringPoints accounts

def ringDigest (accounts : List Account) : Except String (FixedBytes 32) := do
  let _ ← membersOf lib accounts
  return sha256 (ringInput accounts)

/-- The preimage of a challenge. -/
def challengeInput (st : Statement) : List UInt8 :=
  textBytes challengeDomain ++ st.issue.toList ++ st.ringDigest.toList ++ st.messageDigest.toList ++
    encodeBNPoint st.nym ++ bigEndian 8 st.timestamp.toNat ++ bigEndian 4 st.k.toNat

def challenge (st : Statement) : Except String ℤ := do
  rejectIf (st.k = 0 ∨ goodBN lib st.nym = false) "invalid challenge k or nym"
  hashScalar (challengeInput st) secp256k1Fr

/-! ## The accumulator -/

/-- The inner loop of `memberPolynomial`: multiply by `Z + member`. `carried` is what the
previous position already wrote into the current one. -/
def multiplyLinear (member : ℤ) : ℤ → List ℤ → List ℤ
  | carried, [] => [carried]
  | carried, c :: cs =>
      (carried + c * member) % bn254Fr :: multiplyLinear member (c % bn254Fr) cs

/-- Coefficients in ascending degree of the product of `Z + member`. -/
def memberPolynomial (members : List ℤ) : List ℤ :=
  members.foldl (fun coefficients member => multiplyLinear member 0 coefficients) [1]

/-- The loop of `combinePowers` from power `i` on. -/
def sumPowers (p : Params) : ℕ → List ℤ → Bn254G1 → Except String Bn254G1
  | _, [], sum => .ok sum
  | i, c :: cs, sum =>
      match p.powers[i]? with
      | none => .error "index out of range"
      | some power => sumPowers p (i + 1) cs (lib.bn.add sum (lib.bn.scalarMultiplication power c))

def combinePowers (p : Params) (members : List ℤ) : Except String Bn254G1 := do
  rejectIf (members.length ≥ p.powers.length) "ring exceeds public powers capacity"
  let sum ← sumPowers lib p 0 (memberPolynomial members) Affine.infinity
  rejectIf (goodBN lib sum = false) "accumulator polynomial has an identity result"
  return sum

def accumulate (p : Params) (accounts : List Account) : Except String Bn254G1 := do
  validateParams lib p
  -- an empty accumulator is G; signing still requires a nonempty ring
  if accounts.length = 0 then return p.g
  else do
    let members ← membersOf lib accounts
    combinePowers lib p members

def membershipWitness (p : Params) (accounts : List Account) (selectedIdx : ℤ) :
    Except String Bn254G1 := do
  validateParams lib p
  rejectIf (selectedIdx < 0 ∨ selectedIdx ≥ accounts.length) "selected index out of range"
  let members ← membersOf lib accounts
  rejectIf (members.length ≥ p.powers.length) "ring exceeds capacity"
  combinePowers lib p (members.take selectedIdx.toNat ++ members.drop (selectedIdx.toNat + 1))

def verifyMembership (p : Params) (v w : Bn254G1) (member : ℤ) : Bool :=
  if canonicalNonzero member bn254Fr = false ∨ goodBN lib v = false ∨ goodBN lib w = false ∨
      validateParams lib p ≠ .ok () then false
  else
    let hat := lib.bn2.add (lib.bn2.scalarMultiplication p.h member) p.hTau
    if goodBN2 lib hat = false then false
    else
      match lib.pairing.pairingCheck [w, lib.bn.neg v] [hat, p.h] with
      | .ok ok => ok
      | .error _ => false

/-! ## Statements -/

/-- One step of the loop that sums the pseudonym. -/
def addNymTerm (sum base : Bn254G1) (seed : ℤ) : Bn254G1 :=
  lib.bn.add sum (lib.bn.scalarMultiplication base (seed % bn254Fr))

/-- The sum over the three bases, from the point at infinity. -/
def nymSum (b : Bn254G1 × Bn254G1 × Bn254G1) (s t x : ℤ) : Bn254G1 :=
  addNymTerm lib (addNymTerm lib (addNymTerm lib Affine.infinity b.1 s) b.2.1 t) b.2.2 x

/-- `ModInverse` modulo the secp256k1 order; its callers exclude zero first and use the result
without a check for nil. -/
def secpInverse (a : ℤ) : ℤ := (modInverse a secp256k1Fr).getD 0

def makeStatement (p : Params) (accounts : List Account) (selectedIdx : ℤ) (x d : ℤ)
    (issue messageDigest : FixedBytes 32) (timestamp : UInt64) (k counter : UInt32) :
    Except String (Statement × SecretWitness) := do
  rejectIf (k = 0 ∨ counter ≥ k) "counter must be in [0,k)"
  rejectIf (selectedIdx < 0 ∨ selectedIdx ≥ accounts.length) "selected index out of range"
  let selected ← newAccount lib x d
  match accounts[selectedIdx.toNat]? with
  | none => .error "index out of range"
  | some entry => do
      rejectIf (selected.u ≠ entry.u ∨ selected.y ≠ entry.y)
        "secret does not match selected account"
      rejectIf (entry.d ≠ none ∧ entry.d ≠ some d) "d differs from selected metadata"
      let v ← accumulate lib p accounts
      let w ← membershipWitness lib p accounts selectedIdx
      let ring ← ringDigest lib accounts
      let (s, t) ← seeds x issue
      let b ← bases lib
      let nym := nymSum lib b s t x
      rejectIf (goodBN lib nym = false) "identity nym"
      let st : Statement :=
        { v, nym, s := Affine.infinity, t := Affine.infinity, issue, ringDigest := ring,
          messageDigest, timestamp, k, r := none }
      let r ← challenge lib st
      let ut ← issueBase lib issue
      let offset : ℤ := counter.toNat + 1
      let ds := (s + offset) % secp256k1Fr
      let dt := (t + offset) % secp256k1Fr
      rejectIf (ds = 0 ∨ dt = 0) "zero seed/counter denominator"
      let is := secpInverse ds
      let it := secpInverse dt
      let ux := lib.secp.scalarMultiplication lib.secp.generator x
      let exponent := r * it % secp256k1Fr
      let rt := lib.secp.scalarMultiplication ut exponent
      let st : Statement :=
        { st with r := some r, s := lib.secp.scalarMultiplication ut is, t := lib.secp.add ux rt }
      rejectIf (goodSecp lib st.s = false ∨ goodSecp lib st.t = false) "identity S or T"
      return (st, { x := some x, d := some d, account := selected, w, counter })

/-! ## Snapshots -/

/-- An immutable ring with its accumulator value. -/
structure Snapshot where
  params : Params
  accounts : List Account
  value : Bn254G1
  deriving DecidableEq

def newSnapshot (p : Params) (accounts : List Account) : Except String Snapshot := do
  let value ← accumulate lib p accounts
  return { params := p, accounts, value }

def Snapshot.join (s : Snapshot) (a : Account) : Except String Snapshot :=
  newSnapshot lib s.params (s.accounts ++ [a])

/-- The loop of `Exit`: the accounts that stay, and whether the handle was found. -/
def dropMember (target : ℤ) : List Account → Except String (List Account × Bool)
  | [] => .ok ([], false)
  | a :: rest => do
      let m ← member lib a
      let (keep, found) ← dropMember target rest
      if m = target then return (keep, true) else return (a :: keep, found)

def Snapshot.exit (s : Snapshot) (target : ℤ) : Except String Snapshot := do
  rejectIf (canonicalNonzero target bn254Fr = false) "invalid exit member"
  let (keep, found) ← dropMember lib target s.accounts
  rejectIf (found = false) "exit member not found"
  newSnapshot lib s.params keep

end Lktrs.NativeProof
