import Std.Data.ExtTreeMap.Lemmas
import Lktrs.NativeProof.Backend

/-!
# Signing, registration, linking and tracing

`protocol.go`: the in-memory signer with its counter per issue, the registry of
accounts, and the two operations on pairs of signatures. A Go map is an
extensional tree map, and a method that changes its receiver returns the new one.
-/

set_option autoImplicit false

namespace Lktrs.NativeProof

open Lktrs.Foundation
open Std (ExtTreeMap)

/-- One user's secret and the next counter of every issue. -/
structure Signer where
  x : ℤ
  next : ExtTreeMap (FixedBytes 32) UInt32 compare

/-- A missing entry reads as zero. -/
def Signer.nextCounter (s : Signer) (issue : FixedBytes 32) : UInt32 := s.next[issue]?.getD 0

def newSigner (x : ℤ) : Except String Signer := do
  rejectIf (canonicalNonzero x secp256k1Fr = false) "invalid user secret"
  return { x, next := ∅ }

variable (lib : GnarkCrypto) {zk : Groth16}

/-- `Signer.Sign`: the signature and the signer with its counter advanced. A failed call leaves
the signer as it was. -/
def Signer.sign (s : Signer) (p : Option (Prover zk)) (ring : Snapshot) (account : ℤ)
    (issue : FixedBytes 32) (k : UInt32) (message : List UInt8) (ts : UInt64) (randomness : ℕ) :
    Except String (Signed × Signer) :=
  match p with
  | none => .error "missing prover"
  | some p => do
      rejectIf (account < 0 ∨ account ≥ ring.accounts.length) "account index outside ring"
      let count := s.nextCounter issue
      rejectIf (k = 0 ∨ count ≥ k) "user quota exhausted"
      match (ring.accounts[account.toNat]?).bind Account.d with
      | none => .error "missing account exponent"
      | some d => do
          let (st, w) ← makeStatement lib ring.params ring.accounts account s.x d issue
            (sha256 message) ts k count
          let sig ← p.prove lib ring.params st w randomness
          return (sig, { s with next := s.next.insert issue (count + 1) })

/-- A call succeeds when the counter is below the quota and the statement it makes is proved. -/
theorem Signer.sign_eq_ok {s s' : Signer} {p : Option (Prover zk)} {ring : Snapshot} {account : ℤ}
    {issue : FixedBytes 32} {k : UInt32} {message : List UInt8} {ts : UInt64} {randomness : ℕ}
    {signed : Signed} :
    s.sign lib p ring account issue k message ts randomness = .ok (signed, s') ↔
      (0 ≤ account ∧ account < ring.accounts.length) ∧ k ≠ 0 ∧ s.nextCounter issue < k ∧
        s' = { s with next := s.next.insert issue (s.nextCounter issue + 1) } ∧
        ∃ prover d st w, p = some prover ∧
          (ring.accounts[account.toNat]?).bind Account.d = some d ∧
          makeStatement lib ring.params ring.accounts account s.x d issue (sha256 message) ts k
            (s.nextCounter issue) = .ok (st, w) ∧
          prover.prove lib ring.params st w randomness = .ok signed := by
  cases p with
  | none => simp [Signer.sign]
  | some prover =>
      cases hd : (ring.accounts[account.toNat]?).bind Account.d with
      | none => simp [Signer.sign, hd]
      | some d =>
          simp only [Signer.sign, hd, bind_eq_ok, rejectIf_eq_ok, pure_eq_ok, not_or, not_lt,
            ge_iff_le, not_le, Option.some.injEq, Prod.mk.injEq, Prod.exists, UInt32.not_le]
          constructor
          · rintro ⟨_, hrange, _, ⟨hk, hlt⟩, st, w, hmake, _, hprove, rfl, rfl⟩
            exact ⟨hrange, hk, hlt, rfl, prover, d, st, w, rfl, rfl, hmake, hprove⟩
          · rintro ⟨hrange, hk, hlt, rfl, _, _, st, w, rfl, rfl, hmake, hprove⟩
            exact ⟨(), hrange, (), ⟨hk, hlt⟩, st, w, hmake, signed, hprove, rfl, rfl⟩

/-! ## The registry -/

structure Registration where
  userID : String
  account : Account
  deriving DecidableEq

structure Registry where
  entries : List Registration
  deriving DecidableEq

/-- What the loop of `NewRegistry` remembers of the entries before. -/
structure RegistryScan where
  seen : List ℤ
  traceOwners : ExtTreeMap (List UInt8) String compare
  userKeys : ExtTreeMap String (List UInt8) compare

/-- The trace key of a registered account: its second point over its exponent. -/
def registeredTraceKey (a : Account) : Secp256k1G1 :=
  lib.secp.scalarMultiplication a.y (secpInverse (a.d.getD 0))

def registerEntry (scan : RegistryScan) (e : Registration) : Except String RegistryScan := do
  rejectIf (e.userID = "" ∨ e.account.d = none) "registration needs user id and public d"
  validateAccount lib e.account
  let m ← member lib e.account
  rejectIf (m ∈ scan.seen) "duplicate registered account"
  let trace := encodeSecpPoint (registeredTraceKey lib e.account)
  rejectIf (scan.traceOwners[trace]?.any (· ≠ e.userID) = true)
    "same trace key registered to different users"
  rejectIf (scan.userKeys[e.userID]?.any (· ≠ trace) = true) "one user has inconsistent secrets"
  return { seen := m :: scan.seen
           traceOwners := scan.traceOwners.insert trace e.userID
           userKeys := scan.userKeys.insert e.userID trace }

def newRegistry (entries : List Registration) : Except String Registry := do
  rejectIf (entries.length = 0) "empty registry"
  let _ ← entries.foldlM (registerEntry lib) ⟨[], ∅, ∅⟩
  return { entries }

/-- The entry test of `Resolve`. -/
def ownsTraceKey (ux : Secp256k1G1) (e : Registration) : Bool :=
  lib.secp.scalarMultiplication ux (e.account.d.getD 0) = e.account.y

def Registry.resolve (r : Registry) (ux : Secp256k1G1) : Except String String := do
  rejectIf (goodSecp lib ux = false) "invalid extracted trace key"
  match r.entries.find? (ownsTraceKey lib ux) with
  | some e => return e.userID
  | none => .error "unregistered extracted trace key"

/-- The first loop of `RevokeUser`: the handles of the user's entries. -/
def revokedMembers (user : String) : List Registration → Except String (List ℤ)
  | [] => .ok []
  | e :: rest =>
      if e.userID = user then do
        let m ← member lib e.account
        let ms ← revokedMembers user rest
        return m :: ms
      else revokedMembers user rest

/-- The second loop of `RevokeUser`: the accounts whose handle is not revoked. -/
def remainingAccounts (members : List ℤ) : List Account → Except String (List Account)
  | [] => .ok []
  | a :: rest => do
      let m ← member lib a
      let keep ← remainingAccounts members rest
      if m ∈ members then return keep else return a :: keep

def Registry.revokeUser (r : Registry) (ring : Snapshot) (user : String) :
    Except String Snapshot := do
  let members ← revokedMembers lib user r.entries
  rejectIf (r.entries.all (·.userID ≠ user) = true) "unregistered user"
  let remaining ← remainingAccounts lib members ring.accounts
  newSnapshot lib ring.params remaining

/-! ## Linking and tracing -/

inductive TraceStatus where
  | legal
  | replay
  | invalid
  | traced
  deriving DecidableEq

/-- The key is the zero point and the user id empty unless traced. -/
structure TraceResult where
  status : TraceStatus
  userID : String := ""
  key : Secp256k1G1 := Affine.infinity
  deriving DecidableEq

def Verifier.link (v : Verifier zk) (a : VerificationContext) (ma : List UInt8) (sa : Signed)
    (b : VerificationContext) (mb : List UInt8) (sb : Signed) : Except String Bool := do
  v.verify lib a ma sa
  v.verify lib b mb sb
  return a.issue = b.issue && sa.statement.nym = sb.statement.nym

/-- The value a duplicate counter reveals: `[1 / (ry - rx)]([ry]tx - [rx]ty)`. -/
def extractTraceKey (tx ty : Secp256k1G1) (rx ry : ℤ) : Secp256k1G1 :=
  lib.secp.scalarMultiplication
    (lib.secp.sub (lib.secp.scalarMultiplication tx ry) (lib.secp.scalarMultiplication ty rx))
    (secpInverse ((ry - rx) % secp256k1Fr))

/-- The body of `Trace`; an error stands for an invalid result with that error. Verification
has excluded a missing challenge. -/
def Verifier.traceBody (v : Verifier zk) (a : VerificationContext) (ma : List UInt8) (sa : Signed)
    (b : VerificationContext) (mb : List UInt8) (sb : Signed) (registry : Registry) :
    Except String TraceResult := do
  v.verify lib a ma sa
  v.verify lib b mb sb
  rejectIf (a.issue ≠ b.issue ∨ a.k ≠ b.k ∨ sa.statement.nym ≠ sb.statement.nym)
    "trace requires same issue, quota and nym"
  let x := sa.statement
  let y := sb.statement
  if x.s ≠ y.s then return { status := .legal }
  else
    let xr := x.r.getD 0
    let yr := y.r.getD 0
    let diff := (yr - xr) % secp256k1Fr
    if diff = 0 then
      if x.t = y.t then return { status := .replay }
      else .error "serial collision with equal challenges"
    else do
      let ux := extractTraceKey lib x.t y.t xr yr
      let user ← wrapError "trace lookup: " (registry.resolve lib ux)
      return { status := .traced, userID := user, key := ux }

/-- `Trace`: the result, and the error if there is one. -/
def Verifier.trace (v : Verifier zk) (a : VerificationContext) (ma : List UInt8) (sa : Signed)
    (b : VerificationContext) (mb : List UInt8) (sb : Signed) (registry : Registry) :
    TraceResult × Option String :=
  match v.traceBody lib a ma sa b mb sb registry with
  | .ok result => (result, none)
  | .error e => ({ status := .invalid }, some e)

end Lktrs.NativeProof
