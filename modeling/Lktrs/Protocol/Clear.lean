import Lktrs.Foundation.Maps
import Lktrs.Foundation.Runs
import Lktrs.Protocol.Ddh

/-!
# The clear protocol

`ClearProtocol` of `protocol/clear.cpp` with its setup: a registry of users and
accounts, the ring of active accounts, the accumulator over their handles, and
signatures that carry their witness. A mutating method takes the state and returns
what the call returned or threw together with the state it left.

Texts are byte strings. The hash tables are tree maps, whose listing is sorted by
key, so that the lists of ids that the source sorts after collecting them come out
sorted. Random elements and scalars are arguments. Elements that the state holds are
never moved from, so copying one does not throw and is not written out.
-/

set_option autoImplicit false

namespace Lktrs.Protocol

open Lktrs.Foundation
open Std (ExtTreeMap ExtTreeSet)

variable {r : ℕ} {G₁ G₂ GT Gp : Type} [CommGroup G₁] [CommGroup G₂] [CommGroup GT] [CommGroup Gp]
  [DecidableEq G₁] [DecidableEq G₂] [DecidableEq GT] [DecidableEq Gp]

/-! ## Setup -/

/-- The random elements that a setup draws, by attempt. -/
structure SetupDraws (G₁ G₂ : Type) where
  g0 : ℕ → G₁
  g1 : ℕ → G₁
  g2 : ℕ → G₁
  generator : ℕ → G₁
  pairingBase : ℕ → G₂

/-- The first of sixty-four samples that is not the identity. -/
def sampleNonidentity {G : Type} [CommGroup G] [DecidableEq G] (what : String)
    (context : PairingContext) (draw : ℕ → G) : Except Thrown (Element G) := do
  let k ← context.get
  match ((List.range 64).map draw).find? fun g => decide (g ≠ 1) with
  | some g => pure (.live k g)
  | none => .error ⟨.runtimeError, what⟩

/-- `sample_nonidentity_g1`. -/
def sampleNonidentityG1 : PairingContext → (ℕ → G₁) → Except Thrown (Element G₁) :=
  sampleNonidentity "could not sample a nonidentity G1 base"

/-- `sample_nonidentity` of the accumulator. -/
def sampleNonidentityElement {G : Type} [CommGroup G] [DecidableEq G] :
    PairingContext → (ℕ → G) → Except Thrown (Element G) :=
  sampleNonidentity "could not sample a non-identity pairing element"

/-- An element and its `n` further powers, each the power of the one before. -/
def powerChain (tau : Scalar r) : ℕ → Element G₁ → Except Thrown (List (Element G₁))
  | 0, last => pure [last]
  | n + 1, last => do
      let next ← groupPow last tau
      let rest ← powerChain tau n next
      pure (last :: rest)

/-- `AccumulatorParameters::for_testing`. -/
def AccumulatorParameters.forTesting (r : ℕ) (lib : CryptoLibrary G₁ G₂ GT Gp)
    (draws : SetupDraws G₁ G₂) (context : PairingContext) (maxMembers : UInt64) (ownership : ℕ) :
    Except Thrown (AccumulatorParameters G₁ G₂) := do
  throwIf (maxMembers = 0 ∨ maxMembers = UInt64.ofNat (2 ^ 64 - 1)) .invalidArgument
    "max_members is outside the supported range"
  let generator ← sampleNonidentityElement context draws.generator
  let pairingBase ← sampleNonidentityElement context draws.pairingBase
  let tau ← (hashToScalar context "lktrs/accumulator/testing-tau"
    (context.parameterId ++ bigEndian 8 maxMembers.toNat) : Except Thrown (Scalar r))
  let sdh ← powerChain tau maxMembers.toNat generator
  let hTau ← groupPow pairingBase tau
  AccumulatorParameters.make lib.pairing context generator pairingBase sdh hTau ownership

/-- The public parameters. -/
structure Parameters (G₁ G₂ Gp : Type) where
  pairing : PairingContext
  ddh : DdhContext
  issue : List UInt8
  limit : UInt64
  g0 : Element G₁
  g1 : Element G₁
  g2 : Element G₁
  u : Element Gp
  uT : Element Gp
  accumulatorParameters : AccumulatorParameters G₁ G₂

/-- The constructor. -/
def Parameters.make (p : Parameters G₁ G₂ Gp) : Except Thrown (Parameters G₁ G₂ Gp) := do
  throwIf (p.issue = [] ∨ p.limit = 0) .invalidArgument "invalid Lk-TRS issue or limit"
  pure p

/-- `Parameters::for_testing`. -/
def Parameters.forTesting (r : ℕ) (lib : CryptoLibrary G₁ G₂ GT Gp) (draws : SetupDraws G₁ G₂)
    (pairing : PairingContext) (ddh : DdhContext) (issue : List UInt8) (limit maxMembers : UInt64)
    (ownership : ℕ) : Except Thrown (Parameters G₁ G₂ Gp) := do
  throwIf (issue = [] ∨ limit = 0 ∨ maxMembers = 0) .invalidArgument
    "invalid Lk-TRS setup parameters"
  let g0 ← sampleNonidentityG1 pairing draws.g0
  let g1 ← sampleNonidentityG1 pairing draws.g1
  let g2 ← sampleNonidentityG1 pairing draws.g2
  let u ← gpGenerator lib ddh
  let uT ← hashToGroupGp lib ddh "lktrs/issue/v1" issue
  let accumulatorParameters ←
    AccumulatorParameters.forTesting r lib draws pairing maxMembers ownership
  Parameters.make ⟨pairing, ddh, issue, limit, g0, g1, g2, u, uT, accumulatorParameters⟩

/-! ## Records -/

/-- A user: the seed, the secrets derived from it and the next counter. -/
structure UserRecord (r : ℕ) where
  seed : List UInt8
  xPair : Scalar r
  xGp : GpScalar
  sPair : Scalar r
  tPair : Scalar r
  sGp : GpScalar
  tGp : GpScalar
  nextCounter : UInt64

/-- The public key of an account. -/
structure AccountPublicKey (r : ℕ) (Gp : Type) where
  userId : List UInt8
  accountId : List UInt8
  uI : Element Gp
  yI : Element Gp
  member : Scalar r

/-- The secret of an account. -/
structure AccountSecret (r : ℕ) (Gp : Type) where
  publicKey : AccountPublicKey r Gp
  dI : GpScalar

/-- An account and whether it is in the ring. -/
structure AccountRecord (r : ℕ) (Gp : Type) where
  secret : AccountSecret r Gp
  active : Bool

/-- A ring: the issue and the accounts in order of their ids. -/
structure RingLabel (r : ℕ) (Gp : Type) where
  issue : List UInt8
  accounts : List (AccountPublicKey r Gp)

/-- The witness that a clear signature discloses. -/
structure ClearWitness (r : ℕ) (G₁ : Type) where
  xPair : Scalar r
  sPair : Scalar r
  tPair : Scalar r
  xGp : GpScalar
  sGp : GpScalar
  tGp : GpScalar
  dI : GpScalar
  member : Scalar r
  counter : Scalar r
  membershipWitness : Element G₁

/-- A signature. -/
structure ClearSignature (r : ℕ) (G₁ Gp : Type) where
  nym : Element G₁
  accumulatorValue : Element G₁
  oneTimePass : Element Gp
  traceTag : Element Gp
  challenge : Scalar r
  timestamp : UInt64
  witness : ClearWitness r G₁

/-- The state. -/
structure ClearProtocol (r : ℕ) (G₁ G₂ Gp : Type) where
  parameters : Parameters G₁ G₂ Gp
  accumulator : Accumulator r G₁ G₂
  users : ExtTreeMap (List UInt8) (UserRecord r) compare
  accounts : ExtTreeMap (List UInt8) (AccountRecord r Gp) compare
  revokedUsers : ExtTreeSet (List UInt8) compare

/-! ## Transcripts -/

/-- `append_version`. -/
def versionHeader (name : String) : List UInt8 :=
  lengthPrefixed [1] ++ lengthPrefixed (textBytes name)

/-- `append_public_key`. -/
def encodePublicKey (lib : CryptoLibrary G₁ G₂ GT Gp) (key : AccountPublicKey r Gp) :
    Except Thrown (List UInt8) := do
  let u ← gpBytes lib key.uI
  let y ← gpBytes lib key.yI
  let member ← key.member.toBytes
  pure (lengthPrefixed key.userId ++ lengthPrefixed key.accountId ++ lengthPrefixed u ++
    lengthPrefixed y ++ lengthPrefixed member)

/-- `encode_ring_label`. -/
def encodeRingLabel (lib : CryptoLibrary G₁ G₂ GT Gp) (label : RingLabel r Gp) :
    Except Thrown (List UInt8) := do
  let keys ← label.accounts.mapM (encodePublicKey lib)
  pure (versionHeader "lktrs/ring-label" ++ lengthPrefixed label.issue ++
    bigEndian 8 label.accounts.length ++ keys.flatten)

/-- `encode_challenge_transcript`. -/
def encodeChallengeTranscript (lib : CryptoLibrary G₁ G₂ GT Gp) (label : RingLabel r Gp)
    (message : List UInt8) (nym : Element G₁) (timestamp : UInt64) :
    Except Thrown (List UInt8) := do
  let ring ← encodeRingLabel lib label
  let nym ← g1Bytes lib nym
  pure (versionHeader "lktrs/challenge" ++ lengthPrefixed ring ++ lengthPrefixed message ++
    lengthPrefixed nym ++ bigEndian 8 timestamp.toNat)

/-! ## Checks that can throw -/

/-- `&&` of two checks: the second is made only if the first holds. -/
def andAlso (x y : Except Thrown Bool) : Except Thrown Bool := do
  let holds ← x
  if holds then y else pure false

/-- `small_counter`. -/
def smallCounter (value : Scalar r) : Except Thrown UInt64 := do
  let bytes ← value.toBytes
  let first := bytes.length - 8
  throwIf ((bytes.take first).any (· != 0) = true) .domainError
    "counter does not fit the protocol counter width"
  pure ((bytes.drop first).foldl (fun result byte => (result <<< 8) ||| byte.toUInt64) 0)

/-- `static_cast<long>`. -/
def toLong (value : UInt64) : ℤ := value.toInt64.toInt

/-- `LONG_MAX`. -/
def longMax : UInt64 := UInt64.ofNat (2 ^ 63 - 1)

/-- `member_handle`. -/
def memberHandle (lib : CryptoLibrary G₁ G₂ GT Gp) (context : PairingContext) (uI yI : Element Gp) :
    Except Thrown (Scalar r) := do
  let u ← gpBytes lib uI
  let y ← gpBytes lib yI
  hashToScalar context "lktrs/member-handle/v1" (lengthPrefixed u ++ lengthPrefixed y)

/-- `same_account`. -/
def sameAccount (left right : AccountPublicKey r Gp) : Except Thrown Bool :=
  andAlso (pure (decide (left.accountId = right.accountId ∧ left.userId = right.userId))) <|
    andAlso (left.uI.equals gpElementTexts right.uI) <|
      andAlso (left.yI.equals gpElementTexts right.yI) <|
        left.member.equals pbcTexts right.member

/-- The loop of `verify_clear` over two labels of one length. -/
def sameAccounts : List (AccountPublicKey r Gp) → List (AccountPublicKey r Gp) →
    Except Thrown Bool
  | left :: lefts, right :: rights => andAlso (sameAccount left right) (sameAccounts lefts rights)
  | _, _ => pure true

/-- `find_if` with `key.member.equals(member)`. -/
def findMember (member : Scalar r) : List (AccountPublicKey r Gp) →
    Except Thrown (Option (AccountPublicKey r Gp))
  | [] => pure none
  | key :: keys => do
      let same ← key.member.equals pbcTexts member
      if same then pure (some key) else findMember member keys

namespace ClearProtocol

/-- The constructor. -/
def start (parameters : Parameters G₁ G₂ Gp) : ClearProtocol r G₁ G₂ Gp :=
  ⟨parameters, .start parameters.accumulatorParameters, ∅, ∅, ∅⟩

/-- `user`. -/
def user (p : ClearProtocol r G₁ G₂ Gp) (userId : List UInt8) : Except Thrown (UserRecord r) :=
  match p.users[userId]? with
  | some record => .ok record
  | none => .error ⟨.invalidArgument, "unknown Lk-TRS user"⟩

/-- `account`. -/
def account (p : ClearProtocol r G₁ G₂ Gp) (accountId : List UInt8) :
    Except Thrown (AccountRecord r Gp) :=
  match p.accounts[accountId]? with
  | some record => .ok record
  | none => .error ⟨.invalidArgument, "unknown Lk-TRS account"⟩

/-! ## Users and accounts -/

/-- The record that `create_user` makes; `entropy` is the sampled scalar. -/
def newUser (lib : CryptoLibrary G₁ G₂ GT Gp) (p : ClearProtocol r G₁ G₂ Gp) (userId : List UInt8)
    (entropy : ZMod r) : Except Thrown (UserRecord r) := do
  throwIf (userId = []) .invalidArgument "user id cannot be empty"
  throwIf (userId ∈ p.users) .invalidArgument "duplicate user id"
  throwIf (userId ∈ p.revokedUsers) .invalidArgument "user is revoked"
  let _ ← p.parameters.pairing.get
  let seed := (sha256 (seedMaterial (textBytes "lktrs/user-seed/v1") userId
    (residueBytes entropy))).toList
  let xPair ← hashToScalar p.parameters.pairing "lktrs/user-x/pair" seed
  let xGp ← GpScalar.hashToScalar lib p.parameters.ddh "lktrs/user-x/gp" seed
  let sMaterial := deriveMaterial seed p.parameters.issue [] 0
  let tMaterial := deriveMaterial seed p.parameters.issue [] 1
  let sPair ← hashToScalar p.parameters.pairing "lktrs/user-s/pair" sMaterial
  let tPair ← hashToScalar p.parameters.pairing "lktrs/user-t/pair" tMaterial
  let sGp ← GpScalar.hashToScalar lib p.parameters.ddh "lktrs/user-s/gp" sMaterial
  let tGp ← GpScalar.hashToScalar lib p.parameters.ddh "lktrs/user-t/gp" tMaterial
  pure ⟨seed, xPair, xGp, sPair, tPair, sGp, tGp, 0⟩

/-- `create_user`; returns the seed. -/
def createUser (lib : CryptoLibrary G₁ G₂ GT Gp) (p : ClearProtocol r G₁ G₂ Gp)
    (userId : List UInt8) (entropy : ZMod r) :
    Except Thrown (List UInt8) × ClearProtocol r G₁ G₂ Gp :=
  match p.newUser lib userId entropy with
  | .error e => (.error e, p)
  | .ok record =>
      if userId ∈ p.users then
        (.error ⟨.logicError, "user insertion unexpectedly failed"⟩, p)
      else (.ok record.seed, { p with users := p.users.insert userId record })

/-- The secret that `create_account` makes. -/
def newAccount (lib : CryptoLibrary G₁ G₂ GT Gp) (p : ClearProtocol r G₁ G₂ Gp)
    (userId accountId : List UInt8) : Except Thrown (AccountSecret r Gp) := do
  throwIf (accountId = []) .invalidArgument "account id cannot be empty"
  throwIf (accountId ∈ p.accounts) .invalidArgument "duplicate account id"
  let owner ← p.user userId
  let d ← GpScalar.hashToScalar lib p.parameters.ddh "lktrs/account-d/v1"
    (deriveMaterial owner.seed p.parameters.issue accountId 2)
  let uI ← gpPow p.parameters.u d
  let yI ← gpPow uI owner.xGp
  -- the handle is assigned to a key that holds a zero
  let blank ← scalar p.parameters.pairing 0
  let handle ← memberHandle lib p.parameters.pairing uI yI
  let member ← blank.assign pbcTexts handle
  pure ⟨⟨userId, accountId, uI, yI, member⟩, d⟩

/-- `create_account`. -/
def createAccount (lib : CryptoLibrary G₁ G₂ GT Gp) (p : ClearProtocol r G₁ G₂ Gp)
    (userId accountId : List UInt8) :
    Except Thrown (AccountSecret r Gp) × ClearProtocol r G₁ G₂ Gp :=
  match p.newAccount lib userId accountId with
  | .error e => (.error e, p)
  | .ok secret =>
      (.ok secret, { p with accounts := p.accounts.insertIfNew accountId ⟨secret, false⟩ })

/-! ## The ring -/

/-- Mark an account as active or not. -/
def setActive (p : ClearProtocol r G₁ G₂ Gp) (accountId : List UInt8) (active : Bool) :
    ClearProtocol r G₁ G₂ Gp :=
  { p with accounts := p.accounts.modify accountId fun record => { record with active := active } }

/-- What `join` and `exit` do once the accumulator was called: the flag is set only if
it returned. -/
def settle (p : ClearProtocol r G₁ G₂ Gp) (accountId : List UInt8) (active : Bool)
    (result : Except Thrown (Snapshot G₁) × Accumulator r G₁ G₂) :
    Except Thrown Unit × ClearProtocol r G₁ G₂ Gp :=
  let p := { p with accumulator := result.2 }
  match result.1 with
  | .error e => (.error e, p)
  | .ok _ => (.ok (), p.setActive accountId active)

/-- The checks of `join`. -/
def joinable (p : ClearProtocol r G₁ G₂ Gp) (accountId : List UInt8) :
    Except Thrown (AccountRecord r Gp) := do
  let record ← p.account accountId
  throwIf (record.secret.publicKey.userId ∈ p.revokedUsers) .invalidArgument "user is revoked"
  throwIf (record.active = true) .invalidArgument "account is already joined"
  pure record

/-- `join`. -/
def join (p : ClearProtocol r G₁ G₂ Gp) (accountId : List UInt8) :
    Except Thrown Unit × ClearProtocol r G₁ G₂ Gp :=
  match p.joinable accountId with
  | .error e => (.error e, p)
  | .ok record => p.settle accountId true (p.accumulator.join record.secret.publicKey.member)

/-- The checks of `exit`. -/
def exitable (p : ClearProtocol r G₁ G₂ Gp) (accountId : List UInt8) :
    Except Thrown (AccountRecord r Gp) := do
  let record ← p.account accountId
  throwIf (record.active = false) .invalidArgument "account is not joined"
  pure record

/-- `exit`. -/
def exit (p : ClearProtocol r G₁ G₂ Gp) (accountId : List UInt8) :
    Except Thrown Unit × ClearProtocol r G₁ G₂ Gp :=
  match p.exitable accountId with
  | .error e => (.error e, p)
  | .ok record => p.settle accountId false (p.accumulator.exit record.secret.publicKey.member)

/-- The loop of `revoke_user`: it ends with the first exit that throws. -/
def exitAll (p : ClearProtocol r G₁ G₂ Gp) :
    List (List UInt8) → Except Thrown Unit × ClearProtocol r G₁ G₂ Gp
  | [] => (.ok (), p)
  | accountId :: accountIds =>
      match (p.exit accountId).1 with
      | .error e => (.error e, (p.exit accountId).2)
      | .ok _ => exitAll (p.exit accountId).2 accountIds

/-- The ids of the active accounts of a user, in order. -/
def owned (p : ClearProtocol r G₁ G₂ Gp) (userId : List UInt8) : List (List UInt8) :=
  (p.accounts.toList.filter fun entry =>
    entry.2.active && decide (entry.2.secret.publicKey.userId = userId)).map Prod.fst

/-- `revoke_user`. -/
def revokeUser (p : ClearProtocol r G₁ G₂ Gp) (userId : List UInt8) :
    Except Thrown Unit × ClearProtocol r G₁ G₂ Gp :=
  match p.user userId with
  | .error e => (.error e, p)
  | .ok _ =>
      let p := { p with revokedUsers := p.revokedUsers.insert userId }
      p.exitAll (p.owned userId)

/-- The public keys of the active accounts, in order of their ids. -/
def activeKeys (p : ClearProtocol r G₁ G₂ Gp) : List (AccountPublicKey r Gp) :=
  (p.accounts.toList.filter fun entry => entry.2.active).map fun entry => entry.2.secret.publicKey

/-- `active_handles`. -/
def activeHandles (p : ClearProtocol r G₁ G₂ Gp) : List (Scalar r) :=
  p.activeKeys.map AccountPublicKey.member

/-- `current_label`. -/
def currentLabel (p : ClearProtocol r G₁ G₂ Gp) : RingLabel r Gp :=
  ⟨p.parameters.issue, p.activeKeys⟩

/-! ## Signing -/

/-- `challenge`. -/
def challenge (lib : CryptoLibrary G₁ G₂ GT Gp) (p : ClearProtocol r G₁ G₂ Gp)
    (label : RingLabel r Gp) (message : List UInt8) (nym : Element G₁) (timestamp : UInt64) :
    Except Thrown (Scalar r) := do
  let transcript ← encodeChallengeTranscript lib label message nym timestamp
  hashToScalar p.parameters.pairing "lktrs/challenge/v1" transcript

/-- `gp_challenge`. -/
def gpChallenge (lib : CryptoLibrary G₁ G₂ GT Gp) (p : ClearProtocol r G₁ G₂ Gp)
    (challenge : Scalar r) : Except Thrown GpScalar := do
  let bytes ← challenge.toBytes
  GpScalar.hashToScalar lib p.parameters.ddh "lktrs/challenge/gp/v1" bytes

/-- The pseudonym of three secrets. -/
def pseudonym (p : ClearProtocol r G₁ G₂ Gp) (s t x : Scalar r) : Except Thrown (Element G₁) := do
  let left ← groupPow p.parameters.g0 s
  let middle ← groupPow p.parameters.g1 t
  let right ← groupPow p.parameters.g2 x
  let product ← groupMul left middle
  groupMul product right

/-- The denominators of the one-time pass and of the trace tag. -/
def denominators (p : ClearProtocol r G₁ G₂ Gp) (owner : UserRecord r) (counter : UInt64) :
    Except Thrown (GpScalar × GpScalar) := do
  let counterGp ← GpScalar.ofInt p.parameters.ddh (toLong counter)
  let one ← GpScalar.ofInt p.parameters.ddh 1
  let s ← GpScalar.add owner.sGp counterGp
  let s ← GpScalar.add s one
  let t ← GpScalar.add owner.tGp counterGp
  let t ← GpScalar.add t one
  pure (s, t)

/-- `s_denom.is_zero() || t_denom.is_zero()`. -/
def anyZero (denoms : GpScalar × GpScalar) : Except Thrown Bool := do
  let zero ← denoms.1.isZero
  if zero then pure true else denoms.2.isZero

/-- The one-time pass. -/
def oneTimePass (p : ClearProtocol r G₁ G₂ Gp) (sDenom : GpScalar) : Except Thrown (Element Gp) := do
  let exponent ← sDenom.inverse
  gpPow p.parameters.uT exponent

/-- The trace tag. -/
def traceTag (p : ClearProtocol r G₁ G₂ Gp) (xGp challengeGp tDenom : GpScalar) :
    Except Thrown (Element Gp) := do
  let identity ← gpPow p.parameters.u xGp
  let inverse ← tDenom.inverse
  let exponent ← GpScalar.mul challengeGp inverse
  let mask ← gpPow p.parameters.uT exponent
  gpMul identity mask

/-- What `sign_clear` computes before it counts the signature. -/
def sign (lib : CryptoLibrary G₁ G₂ GT Gp) (p : ClearProtocol r G₁ G₂ Gp)
    (userId accountId message : List UInt8) (timestamp : UInt64) :
    Except Thrown (ClearSignature r G₁ Gp) := do
  let owner ← p.user userId
  let record ← p.account accountId
  throwIf (record.secret.publicKey.userId ≠ userId) .invalidArgument
    "account belongs to a different user"
  throwIf (record.active = false) .invalidArgument "account is not joined"
  throwIf (p.parameters.limit ≤ owner.nextCounter) .domainError "k limit exhausted"
  throwIf (longMax < owner.nextCounter) .overflowError
    "counter is too large for the scalar adapter"
  let member := record.secret.publicKey.member
  let membership ← p.accumulator.witness member
  let counter ← scalar p.parameters.pairing (toLong owner.nextCounter)
  let denoms ← p.denominators owner owner.nextCounter
  let zero ← anyZero denoms
  throwIf (zero = true) .domainError "invalid counter denominator"
  let nym ← p.pseudonym owner.sPair owner.tPair owner.xPair
  let challenge ← p.challenge lib p.currentLabel message nym timestamp
  let challengeGp ← p.gpChallenge lib challenge
  let pass ← p.oneTimePass denoms.1
  let tag ← p.traceTag owner.xGp challengeGp denoms.2
  let witness : ClearWitness r G₁ := ⟨owner.xPair, owner.sPair, owner.tPair, owner.xGp, owner.sGp,
    owner.tGp, record.secret.dI, member, counter, membership.value⟩
  pure ⟨nym, p.accumulator.value, pass, tag, challenge, timestamp, witness⟩

/-- `++owner.next_counter`. -/
def countSignature (p : ClearProtocol r G₁ G₂ Gp) (userId : List UInt8) :
    ClearProtocol r G₁ G₂ Gp :=
  { p with users := p.users.modify userId fun owner =>
      { owner with nextCounter := owner.nextCounter + 1 } }

/-- `sign_clear`. -/
def signClear (lib : CryptoLibrary G₁ G₂ GT Gp) (p : ClearProtocol r G₁ G₂ Gp)
    (userId accountId message : List UInt8) (timestamp : UInt64) :
    Except Thrown (ClearSignature r G₁ Gp) × ClearProtocol r G₁ G₂ Gp :=
  match p.sign lib userId accountId message timestamp with
  | .error e => (.error e, p)
  | .ok signature => (.ok signature, p.countSignature userId)

/-! ## Verification -/

/-- The challenge of a signature is that of its label and message. -/
def challengeMatches (lib : CryptoLibrary G₁ G₂ GT Gp) (p : ClearProtocol r G₁ G₂ Gp)
    (label : RingLabel r Gp) (message : List UInt8) (signature : ClearSignature r G₁ Gp) :
    Except Thrown Bool := do
  let expected ← p.challenge lib label message signature.nym signature.timestamp
  signature.challenge.equals pbcTexts expected

/-- The accumulator value and the label are those of the current ring. -/
def ringMatches (p : ClearProtocol r G₁ G₂ Gp) (label : RingLabel r Gp)
    (signature : ClearSignature r G₁ Gp) : Except Thrown Bool := do
  let expected ← p.accumulator.valueFor p.activeHandles
  andAlso (signature.accumulatorValue.equals pbcTexts expected) <|
    andAlso (pure (decide (label.accounts.length = p.currentLabel.accounts.length))) <|
      sameAccounts label.accounts p.currentLabel.accounts

/-- The disclosed secrets are those of the owner. -/
def secretsMatch (witness : ClearWitness r G₁) (owner : UserRecord r) : Except Thrown Bool :=
  andAlso (witness.xPair.equals pbcTexts owner.xPair) <|
    andAlso (witness.sPair.equals pbcTexts owner.sPair) <|
      andAlso (witness.tPair.equals pbcTexts owner.tPair) <|
        andAlso (witness.xGp.equals gpScalarTexts owner.xGp) <|
          andAlso (witness.sGp.equals gpScalarTexts owner.sGp) <|
            witness.tGp.equals gpScalarTexts owner.tGp

/-- The account key and its handle are those of the disclosed secrets. -/
def keyMatches (lib : CryptoLibrary G₁ G₂ GT Gp) (p : ClearProtocol r G₁ G₂ Gp)
    (witness : ClearWitness r G₁) (found : AccountPublicKey r Gp) : Except Thrown Bool := do
  let handle ← memberHandle lib p.parameters.pairing found.uI found.yI
  andAlso (witness.member.equals pbcTexts handle) <| do
    let u ← gpPow p.parameters.u witness.dI
    andAlso (u.equals gpElementTexts found.uI) <| do
      let y ← gpPow found.uI witness.xGp
      y.equals gpElementTexts found.yI

/-- The pseudonym and the two tags are those of the secrets and the counter. -/
def tagsMatch (lib : CryptoLibrary G₁ G₂ GT Gp) (p : ClearProtocol r G₁ G₂ Gp)
    (signature : ClearSignature r G₁ Gp) (owner : UserRecord r) (counter : UInt64) :
    Except Thrown Bool := do
  let nym ← p.pseudonym signature.witness.sPair signature.witness.tPair signature.witness.xPair
  andAlso (signature.nym.equals pbcTexts nym) <| do
    let denoms ← p.denominators owner counter
    let zero ← anyZero denoms
    if zero then pure false else do
      let challengeGp ← p.gpChallenge lib signature.challenge
      let pass ← p.oneTimePass denoms.1
      andAlso (signature.oneTimePass.equals gpElementTexts pass) <| do
        let tag ← p.traceTag owner.xGp challengeGp denoms.2
        signature.traceTag.equals gpElementTexts tag

/-- The checks for the account that the witness names. -/
def accountMatches (lib : CryptoLibrary G₁ G₂ GT Gp) (p : ClearProtocol r G₁ G₂ Gp)
    (signature : ClearSignature r G₁ Gp) (counter : UInt64) (found : AccountPublicKey r Gp) :
    Except Thrown Bool := do
  let record ← p.account found.accountId
  andAlso (pure record.active) <|
    andAlso (sameAccount record.secret.publicKey found) <| do
      let owner ← p.user found.userId
      andAlso (secretsMatch signature.witness owner) <|
        andAlso (p.keyMatches lib signature.witness found) <|
          andAlso (pure (p.accumulator.verifyValue lib.pairing signature.witness.member
            signature.witness.membershipWitness)) <|
            p.tagsMatch lib signature owner counter

/-- The counter is in range and the witness names an account of the label. -/
def witnessMatches (lib : CryptoLibrary G₁ G₂ GT Gp) (p : ClearProtocol r G₁ G₂ Gp)
    (label : RingLabel r Gp) (signature : ClearSignature r G₁ Gp) : Except Thrown Bool := do
  let counter ← smallCounter signature.witness.counter
  if p.parameters.limit ≤ counter then pure false else do
    let found ← findMember signature.witness.member label.accounts
    match found with
    | none => pure false
    | some found => p.accountMatches lib signature counter found

/-- `verify_clear`. -/
def verifyClear (lib : CryptoLibrary G₁ G₂ GT Gp) (p : ClearProtocol r G₁ G₂ Gp)
    (label : RingLabel r Gp) (message : List UInt8) (signature : ClearSignature r G₁ Gp) : Bool :=
  orFalse <|
    andAlso (pure (decide (label.issue = p.parameters.issue ∧ label.accounts.isEmpty = false))) <|
      andAlso (p.challengeMatches lib label message signature) <|
        andAlso (p.ringMatches label signature) <|
          p.witnessMatches lib label signature

end ClearProtocol

/-! ## Calls -/

/-- A call of a mutating method. -/
inductive ClearCall (r : ℕ) where
  | createUser (userId : List UInt8) (entropy : ZMod r)
  | createAccount (userId accountId : List UInt8)
  | join (accountId : List UInt8)
  | exit (accountId : List UInt8)
  | revokeUser (userId : List UInt8)
  | signClear (userId accountId message : List UInt8) (timestamp : UInt64)

/-- What a call returns. -/
inductive ClearReply (r : ℕ) (G₁ Gp : Type) where
  | seed (bytes : List UInt8)
  | account (secret : AccountSecret r Gp)
  | done
  | signature (signature : ClearSignature r G₁ Gp)

namespace ClearProtocol

/-- Make a call. -/
def apply (lib : CryptoLibrary G₁ G₂ GT Gp) (p : ClearProtocol r G₁ G₂ Gp) :
    ClearCall r → Except Thrown (ClearReply r G₁ Gp) × ClearProtocol r G₁ G₂ Gp
  | .createUser userId entropy =>
      ((p.createUser lib userId entropy).1.map .seed, (p.createUser lib userId entropy).2)
  | .createAccount userId accountId =>
      ((p.createAccount lib userId accountId).1.map .account,
        (p.createAccount lib userId accountId).2)
  | .join accountId => ((p.join accountId).1.map fun _ => .done, (p.join accountId).2)
  | .exit accountId => ((p.exit accountId).1.map fun _ => .done, (p.exit accountId).2)
  | .revokeUser userId => ((p.revokeUser userId).1.map fun _ => .done, (p.revokeUser userId).2)
  | .signClear userId accountId message timestamp =>
      ((p.signClear lib userId accountId message timestamp).1.map .signature,
        (p.signClear lib userId accountId message timestamp).2)

/-- The state after a list of calls, whatever they return or throw. -/
def after (lib : CryptoLibrary G₁ G₂ GT Gp) (p : ClearProtocol r G₁ G₂ Gp)
    (calls : List (ClearCall r)) : ClearProtocol r G₁ G₂ Gp :=
  run (fun p call => (p.apply lib call).2) p calls

end ClearProtocol

end Lktrs.Protocol
