import Lktrs.NativeProof.Protocol
import Lktrs.NativeProof.Setup
import Lktrs.NativeProof.Wire

/-!
# Authorities

`trust.go`: a trust policy names two Ed25519 authorities. One approves setups,
the other authorizes the registry of one epoch, a list of enrollments each with
a Schnorr proof of possession. An authorized verifier checks both documents at
the time of every verification and takes ring, issue and quota from the second.
The command `verify-authorized` reads all of this from files.

Ed25519 is the parameter `Ed25519`, a relation between keys, messages and
signatures of the fixed size; a signer is whatever returned a signature. Go's
`json.Marshal` of a document is `documentBytes` of its value, and the setup
directory is represented by what loading it for a digest returned.
-/

set_option autoImplicit false

namespace Lktrs.NativeProof

open Lktrs.Foundation

/-- `ed25519.Verify`: signatures of any other size are refused. -/
structure Ed25519 where
  verify : List UInt8 → List UInt8 → List UInt8 → Bool
  length_signature : ∀ key message sig, verify key message sig = true → sig.length = 64

/-- A `crypto.Signer`: its public key, absent unless it is an Ed25519 key, and what signing a
message returned. -/
structure AuthoritySigner where
  publicKey : Option (List UInt8)
  sign : List UInt8 → Except String (List UInt8)

def trustDomain : String := "lktrs/authority-signature/v1" ++ String.ofList [Char.ofNat 0]

def maxTrustBytes : ℕ := 16 * 2 ^ 20

structure TrustPolicy where
  format : String
  namespaceID : String
  manifestSHA256 : String
  setupAuthority : String
  registryAuthority : String
  registryEpoch : UInt64
  issue : String
  k : UInt32
  deriving DecidableEq

structure AuthorityEnvelope where
  payload : String
  signature : String
  deriving DecidableEq

structure SetupApproval where
  format : String
  namespaceID : String
  manifestSHA256 : String
  notBefore : Int64
  notAfter : Int64
  deriving DecidableEq

structure Enrollment where
  userID : String
  accountID : String
  u : String
  y : String
  d : String
  challenge : String
  commitment : String
  response : String
  deriving DecidableEq

structure RegistryAuthorization where
  format : String
  namespaceID : String
  manifestSHA256 : String
  epoch : UInt64
  notBefore : Int64
  notAfter : Int64
  issue : String
  k : UInt32
  entries : List Enrollment
  deriving DecidableEq

/-! ## Documents -/

/-- `json.Marshal` of a value. -/
def documentBytes (ty : GoType) (v : GoValue) : List UInt8 :=
  textBytes (String.ofList (marshal ty v))

def AuthorityEnvelope.value (env : AuthorityEnvelope) : GoValue :=
  .struct [.string env.payload, .string env.signature]

def authorityEnvelopeOf : GoValue → AuthorityEnvelope
  | .struct [.string payload, .string signature] => ⟨payload, signature⟩
  | _ => ⟨"", ""⟩

def SetupApproval.value (a : SetupApproval) : GoValue :=
  .struct [.string a.format, .string a.namespaceID, .string a.manifestSHA256,
    .int a.notBefore.toInt, .int a.notAfter.toInt]

def setupApprovalOf : GoValue → SetupApproval
  | .struct [.string format, .string namespaceID, .string manifestSHA256, .int notBefore,
      .int notAfter] =>
      ⟨format, namespaceID, manifestSHA256, Int64.ofInt notBefore, Int64.ofInt notAfter⟩
  | _ => ⟨"", "", "", 0, 0⟩

def Enrollment.value (e : Enrollment) : GoValue :=
  .struct [.string e.userID, .string e.accountID, .string e.u, .string e.y, .string e.d,
    .string e.challenge, .string e.commitment, .string e.response]

def enrollmentOf : GoValue → Enrollment
  | .struct [.string userID, .string accountID, .string u, .string y, .string d,
      .string challenge, .string commitment, .string response] =>
      ⟨userID, accountID, u, y, d, challenge, commitment, response⟩
  | _ => ⟨"", "", "", "", "", "", "", ""⟩

def RegistryAuthorization.value (a : RegistryAuthorization) : GoValue :=
  .struct [.string a.format, .string a.namespaceID, .string a.manifestSHA256, .int a.epoch.toNat,
    .int a.notBefore.toInt, .int a.notAfter.toInt, .string a.issue, .int a.k.toNat,
    .slice (a.entries.map Enrollment.value)]

/-- The elements of a slice; a nil slice has none. -/
def sliceElems : GoValue → List GoValue
  | .slice elems => elems
  | _ => []

def registryAuthorizationOf : GoValue → RegistryAuthorization
  | .struct [.string format, .string namespaceID, .string manifestSHA256, .int epoch,
      .int notBefore, .int notAfter, .string issue, .int k, entries] =>
      ⟨format, namespaceID, manifestSHA256, UInt64.ofNat epoch.toNat, Int64.ofInt notBefore,
        Int64.ofInt notAfter, issue, UInt32.ofNat k.toNat, (sliceElems entries).map enrollmentOf⟩
  | _ => ⟨"", "", "", 0, 0, 0, "", 0, []⟩

def trustPolicyOf : GoValue → TrustPolicy
  | .struct [.string format, .string namespaceID, .string manifestSHA256, .string setupAuthority,
      .string registryAuthority, .int registryEpoch, .string issue, .int k] =>
      ⟨format, namespaceID, manifestSHA256, setupAuthority, registryAuthority,
        UInt64.ofNat registryEpoch.toNat, issue, UInt32.ofNat k.toNat⟩
  | _ => ⟨"", "", "", "", "", 0, "", 0⟩

/-! ## Policies -/

def trustAlphabet : List Char :=
  "abcdefghijklmnopqrstuvwxyzABCDEFGHIJKLMNOPQRSTUVWXYZ0123456789._:@/-".toList

def validTrustID (s : String) : Bool :=
  s.utf8ByteSize ≠ 0 && s.utf8ByteSize ≤ 128 && s.toList.all (· ∈ trustAlphabet)

def authorityKey (encoded : String) : Except String (List UInt8) := do
  rejectIf (encoded.utf8ByteSize ≠ 44) "invalid authority key length"
  match decodeB64 encoded with
  | .error _ => .error "authority must be an independently trusted Ed25519 public key"
  | .ok b => do
      rejectIf (b.length ≠ 32) "authority must be an independently trusted Ed25519 public key"
      return b

/-- The value of a call whose error is dropped. -/
def valueOrZero {α : Type} (zero : α) : Except String α → α
  | .ok a => a
  | .error _ => zero

def TrustPolicy.validate (p : TrustPolicy) : Except String Unit := do
  rejectIf (p.format ≠ "lktrs/trust-policy/v1" ∨ validTrustID p.namespaceID = false ∨
    p.registryEpoch = 0 ∨ p.k = 0) "invalid trust policy"
  match parseDigest p.manifestSHA256 with
  | .error _ => .error "invalid setup identity"
  | .ok h => do
      rejectIf (h = FixedBytes.zero 32) "invalid setup identity"
      let _ ← decodeIssue p.issue
      let _ ← authorityKey p.setupAuthority
      let _ ← authorityKey p.registryAuthority

def parseTrustPolicy (raw : List UInt8) : Except String TrustPolicy := do
  rejectIf (raw.length > 8192) "oversized trust policy"
  let v ← strictJSON trustPolicyType raw
  (trustPolicyOf v).validate
  return trustPolicyOf v

def validTrustTime (before after now : Int64) : Bool :=
  0 ≤ before.toInt && before.toInt < after.toInt && before.toInt ≤ now.toInt &&
    now.toInt < after.toInt

/-! ## Authority signatures -/

section Authority

variable (ed : Ed25519)

/-- `authoritySign` of the document with these bytes. -/
def authoritySign (document : List UInt8) (signer : Option AuthoritySigner) :
    Except String (List UInt8) :=
  match signer with
  | none => .error "missing authority signer"
  | some signer =>
      match signer.publicKey with
      | none => .error "authority signer must use Ed25519"
      | some key => do
          rejectIf (key.length ≠ 32) "authority signer must use Ed25519"
          rejectIf (document.length > maxTrustBytes / 2) "oversized authority document"
          let sig ← signer.sign (textBytes trustDomain ++ document)
          rejectIf (ed.verify key (textBytes trustDomain ++ document) sig = false)
            "authority signer returned invalid signature"
          return documentBytes authorityEnvelopeType
            (AuthorityEnvelope.value ⟨base64Encode document, base64Encode sig⟩)

/-- `authorityVerify` into a variable of a type. -/
def authorityVerify (raw key : List UInt8) (ty : GoType) : Except String GoValue := do
  rejectIf (raw.length > maxTrustBytes ∨ key.length ≠ 32) "invalid authority envelope or key"
  let env ← authorityEnvelopeOf <$> strictJSON authorityEnvelopeType raw
  let payload ← decodeB64 env.payload
  let sig ← decodeB64 env.signature
  rejectIf (ed.verify key (textBytes trustDomain ++ payload) sig = false)
    "invalid authority signature"
  strictJSON ty payload

def signSetupApproval (pin : FixedBytes 32) (namespaceID : String) (before after : Int64)
    (signer : Option AuthoritySigner) : Except String (List UInt8) := do
  rejectIf (pin = FixedBytes.zero 32 ∨ validTrustID namespaceID = false ∨
    validTrustTime before after before = false) "invalid setup approval"
  authoritySign ed (documentBytes setupApprovalType (SetupApproval.value
    ⟨"lktrs/setup-approval/v1", namespaceID, hexDigest pin, before, after⟩)) signer

def verifySetupApproval (policy : TrustPolicy) (raw : List UInt8) (now : Int64) :
    Except String Unit := do
  policy.validate
  let key := valueOrZero [] (authorityKey policy.setupAuthority)
  let a ← setupApprovalOf <$> authorityVerify ed raw key setupApprovalType
  rejectIf (a.format ≠ "lktrs/setup-approval/v1" ∨ a.namespaceID ≠ policy.namespaceID ∨
    a.manifestSHA256 ≠ policy.manifestSHA256 ∨ validTrustTime a.notBefore a.notAfter now = false)
    "setup approval scope or validity mismatch"

end Authority

/-! ## Enrollments -/

section Enrollments

variable (lib : GnarkCrypto)

def trustPoint (encoded : String) : Except String Secp256k1G1 := do
  rejectIf (encoded.utf8ByteSize ≠ 128) "invalid enrollment point length"
  match hexDecode encoded with
  | none => .error "noncanonical enrollment point"
  | some b => do
      rejectIf (b.length ≠ 64 ∨ hexEncode b ≠ encoded) "noncanonical enrollment point"
      let (p, _) ← readSecp lib b
      return p

/-- What the readers of points in hexadecimal do with a text, but for their refusals. -/
def decodePointHex (msg encoded : String) : Except String Secp256k1G1 :=
  match hexDecode encoded with
  | none => .error msg
  | some b => do
      rejectIf (b.length ≠ 64 ∨ hexEncode b ≠ encoded) msg
      let (p, _) ← readSecp lib b
      return p

theorem decodePointHex_eq_ok {msg encoded : String} {p : Secp256k1G1} :
    decodePointHex lib msg encoded = .ok p ↔
      encoded = hexEncode (encodeSecpPoint p) ∧ goodSecp lib p = true := by
  constructor
  · intro h
    unfold decodePointHex at h
    cases hb : hexDecode encoded with
    | none => simp [hb] at h
    | some b =>
        simp only [hb, bind_eq_ok, rejectIf_eq_ok, pure_eq_ok, not_or, not_not, Prod.exists] at h
        obtain ⟨_, ⟨hlen, henc⟩, q, rest, hread, rfl⟩ := h
        obtain ⟨hgood, hbytes⟩ := readSecp_sound lib hread
        have hrest : rest = [] := by
          apply List.eq_nil_of_length_eq_zero
          have hsum := congrArg List.length hbytes
          rw [List.length_append, length_encodeSecpPoint, hlen] at hsum
          omega
        rw [hrest, List.append_nil] at hbytes
        exact ⟨by rw [← henc, hbytes], hgood⟩
  · rintro ⟨rfl, hgood⟩
    have hread := readSecp_append lib hgood []
    rw [List.append_nil] at hread
    rw [decodePointHex, hexDecode_hexEncode]
    simp [hread]

/-- The fields of the structure an enrollment challenge is the hash of. -/
def enrollmentChallengeType : GoType :=
  .struct [("Domain", .string), ("Namespace", .string), ("Setup", .string),
    ("Authority", .string), ("Enrollment", enrollmentType)]

/-- The preimage of an enrollment challenge; the response is left out. -/
def enrollmentInput (e : Enrollment) (namespaceID : String) (pin : FixedBytes 32)
    (key : List UInt8) : List UInt8 :=
  documentBytes enrollmentChallengeType
    (.struct [.string "lktrs/enrollment-pop/v1", .string namespaceID, .string (hexDigest pin),
      .string (base64Encode key), Enrollment.value { e with response := "" }])

def enrollmentChallenge (e : Enrollment) (namespaceID : String) (pin : FixedBytes 32)
    (key : List UInt8) : Except String ℤ :=
  hashScalar (enrollmentInput e namespaceID pin key) secp256k1Fr

/-- `CreateEnrollment`, with what the random reader returned for the nonce. -/
def createEnrollment (x : Option ℤ) (a : Account) (user account namespaceID : String)
    (pin : FixedBytes 32) (key : List UInt8) (challenge : FixedBytes 32)
    (draw : Except String ℕ) : Except String Enrollment := do
  rejectIf (canonicalNonzero x secp256k1Fr = false ∨ (validateAccount lib a).isOk = false ∨
    a.d = none ∨ validTrustID user = false ∨ validTrustID account = false ∨
    validTrustID namespaceID = false ∨ pin = FixedBytes.zero 32 ∨ key.length ≠ 32 ∨
    challenge = FixedBytes.zero 32) "invalid enrollment input"
  let x := x.getD 0
  rejectIf (lib.secp.scalarMultiplication a.u x ≠ a.y) "enrollment secret does not own account"
  let r ← randomNonzero secp256k1Fr draw
  let commitment := lib.secp.scalarMultiplication a.u r
  let out : Enrollment := ⟨user, account, hexEncode (encodeSecpPoint a.u),
    hexEncode (encodeSecpPoint a.y), scalarHex (a.d.getD 0), hexDigest challenge,
    hexEncode (encodeSecpPoint commitment), ""⟩
  let c ← enrollmentChallenge out namespaceID pin key
  return { out with response := scalarHex ((c * x + r) % secp256k1Fr) }

/-- `[z]U` and `R + [c]Y` are the same point. -/
def schnorrHolds (u y r : Secp256k1G1) (c z : ℤ) : Bool :=
  lib.secp.scalarMultiplication u z = lib.secp.add r (lib.secp.scalarMultiplication y c)

def verifyEnrollment (e : Enrollment) (namespaceID : String) (pin : FixedBytes 32)
    (key : List UInt8) (expectedChallenge : FixedBytes 32) : Except String Registration := do
  rejectIf (validTrustID e.userID = false ∨ validTrustID e.accountID = false ∨
    validTrustID namespaceID = false ∨ key.length ≠ 32 ∨ pin = FixedBytes.zero 32 ∨
    expectedChallenge = FixedBytes.zero 32 ∨ e.challenge ≠ hexDigest expectedChallenge)
    "enrollment identity or challenge mismatch"
  let u ← trustPoint lib e.u
  let y ← trustPoint lib e.y
  let d ← trustScalar e.d true
  let a : Account := { u, y, d := some d }
  validateAccount lib a
  let r ← trustPoint lib e.commitment
  let z ← trustScalar e.response false
  let c ← enrollmentChallenge e namespaceID pin key
  rejectIf (schnorrHolds lib u y r c z = false) "invalid enrollment proof of possession"
  return ⟨e.userID, a⟩

/-! ## Registry authorizations -/

/-- The loop of `registryRegistrations`, with the account ids seen so far. -/
def collectRegistrations (namespaceID : String) (pin : FixedBytes 32) (key : List UInt8) :
    List String → List Enrollment → Except String (List Registration)
  | _, [] => .ok []
  | ids, e :: rest => do
      rejectIf (e.accountID ∈ ids) "duplicate account id"
      let challenge ← parseDigest e.challenge
      let entry ← verifyEnrollment lib e namespaceID pin key challenge
      let entries ← collectRegistrations namespaceID pin key (e.accountID :: ids) rest
      return entry :: entries

def registryRegistrations (a : RegistryAuthorization) (key : List UInt8) :
    Except String (List Registration) := do
  let pin ← parseDigest a.manifestSHA256
  rejectIf (a.format ≠ "lktrs/registry-authorization/v1" ∨ validTrustID a.namespaceID = false ∨
    a.epoch = 0 ∨ a.k = 0 ∨ validTrustTime a.notBefore a.notAfter a.notBefore = false ∨
    a.entries.length = 0 ∨ a.entries.length > 65536) "invalid registry authorization"
  let _ ← decodeIssue a.issue
  let entries ← collectRegistrations lib a.namespaceID pin key [] a.entries
  let _ ← newRegistry lib entries
  return entries

variable (ed : Ed25519)

def signRegistryAuthorization (a : RegistryAuthorization) (signer : Option AuthoritySigner) :
    Except String (List UInt8) :=
  match signer with
  | none => .error "missing registry signer"
  | some s =>
      match s.publicKey with
      | none => .error "registry signer must use Ed25519"
      | some key => do
          let _ ← registryRegistrations lib a key
          authoritySign ed (documentBytes registryAuthorizationType a.value) signer

/-! ## Authorized verification -/

/-- What a verifier uses of a loaded setup. -/
structure PublicSetup (zk : Groth16) where
  parameters : Params
  verifier : Verifier zk

structure AuthorizedVerifier (zk : Groth16) where
  loaded : Option (PublicSetup zk)
  policy : TrustPolicy
  approval : List UInt8

variable {zk : Groth16}

/-- `LoadAuthorizedVerifier`; `loadPublicSetup` is what loading the directory for a digest
returns. -/
def loadAuthorizedVerifier (loadPublicSetup : FixedBytes 32 → Except String (PublicSetup zk))
    (policy : TrustPolicy) (approval : List UInt8) (now : Int64) :
    Except String (AuthorizedVerifier zk) := do
  verifySetupApproval ed policy approval now
  let pin := valueOrZero (FixedBytes.zero 32) (parseDigest policy.manifestSHA256)
  let loaded ← loadPublicSetup pin
  return { loaded := some loaded, policy, approval }

def authorizedContext (params : Params) (policy : TrustPolicy) (raw : List UInt8) (now : Int64) :
    Except String (VerificationContext × Registry) := do
  policy.validate
  let key := valueOrZero [] (authorityKey policy.registryAuthority)
  let a ← registryAuthorizationOf <$> authorityVerify ed raw key registryAuthorizationType
  rejectIf (a.namespaceID ≠ policy.namespaceID ∨ a.manifestSHA256 ≠ policy.manifestSHA256 ∨
    a.epoch ≠ policy.registryEpoch ∨ a.issue ≠ policy.issue ∨ a.k ≠ policy.k ∨
    validTrustTime a.notBefore a.notAfter now = false)
    "registry authority scope, epoch, policy or validity mismatch"
  rejectIf ((a.entries.length : ℤ) > params.powers.length - 1) "registry exceeds setup capacity"
  let entries ← registryRegistrations lib a key
  let registry ← newRegistry lib entries
  let accounts := entries.map fun e => { e.account with d := none }
  let issue := valueOrZero (FixedBytes.zero 32) (decodeIssue a.issue)
  let ctx ← newVerificationContext lib params accounts issue a.k
  return (ctx, registry)

/-- The setup and the context of a verification at a time. -/
def AuthorizedVerifier.context (v : Option (AuthorizedVerifier zk)) (registry : List UInt8)
    (now : Int64) : Except String (PublicSetup zk × VerificationContext × Registry) :=
  match v with
  | none => .error "missing authorized verifier"
  | some v =>
      match v.loaded with
      | none => .error "missing authorized verifier"
      | some loaded => do
          verifySetupApproval ed v.policy v.approval now
          let context ← authorizedContext lib ed loaded.parameters v.policy registry now
          return (loaded, context)

def AuthorizedVerifier.verify (v : Option (AuthorizedVerifier zk)) (registry message : List UInt8)
    (sig : Signed) (now : Int64) : Except String Unit := do
  let (loaded, ctx, _) ← AuthorizedVerifier.context lib ed v registry now
  loaded.verifier.verify lib ctx message sig

def AuthorizedVerifier.trace (v : Option (AuthorizedVerifier zk)) (registry : List UInt8)
    (messageA : List UInt8) (sigA : Signed) (messageB : List UInt8) (sigB : Signed) (now : Int64) :
    TraceResult × Option String :=
  match AuthorizedVerifier.context lib ed v registry now with
  | .error e => ({ status := .invalid }, some e)
  | .ok (loaded, ctx, enrolled) =>
      loaded.verifier.trace lib ctx messageA sigA ctx messageB sigB enrolled

/-! ## The command `verify-authorized` -/

/-- Its flags: the directory of the setup and the names of the files. -/
structure VerifyFlags where
  setup : String
  policy : String
  setupApproval : String
  registry : String
  message : String
  signature : String

/-- The command on the files of a machine. It reads the clock twice and prints the digest and the
epoch of the policy. -/
def authorizedVerifyCommand (files : Directory) (flags : VerifyFlags)
    (loadPublicSetup : FixedBytes 32 → Except String (PublicSetup zk)) (loadTime now : Int64) :
    Except String (String × UInt64) := do
  rejectIf (flags.setup = "" ∨ flags.policy = "" ∨ flags.setupApproval = "" ∨ flags.registry = "" ∨
    flags.message = "" ∨ flags.signature = "")
    "setup, policy, setup-approval, registry, message and signature required"
  let raw ← readBoundedFile files flags.policy 8192
  let policy ← parseTrustPolicy raw
  let approval ← readBoundedFile files flags.setupApproval (16 * 2 ^ 20)
  let verifier ← loadAuthorizedVerifier ed loadPublicSetup policy approval loadTime
  let registry ← readBoundedFile files flags.registry (16 * 2 ^ 20)
  let msg ← readBoundedFile files flags.message (16 * 2 ^ 20)
  let encoded ← readBoundedFile files flags.signature (2 * 2 ^ 20)
  let sig ← unmarshalSigned lib encoded
  AuthorizedVerifier.verify lib ed (some verifier) registry msg sig now
  return (policy.manifestSHA256, policy.registryEpoch)

end Enrollments

end Lktrs.NativeProof
