import Mathlib.Data.List.Sort
import Lktrs.Protocol.Elements

/-!
# The q-SDH accumulator

`AccumulatorParameters` and `Accumulator` of `protocol/accumulator.cpp`. A mutating
method takes the state and returns what the call returned or threw together with
the state it left, so an exception in the middle of a method leaves what was
already assigned. The value of a set is computed from the published powers of the
trapdoor: the coefficients of the product polynomial are multiplied out one handle
at a time and combined with the powers.
-/

set_option autoImplicit false

namespace Lktrs.Protocol

open Lktrs.Foundation

variable {r : ℕ} {G₁ G₂ GT : Type} [CommGroup G₁] [CommGroup G₂] [CommGroup GT] [DecidableEq G₁]
  [DecidableEq G₂] [DecidableEq GT]

/-! ## Parameters -/

/-- The public tuple. `ownership` is the identity of the token that the constructor
makes. -/
structure AccumulatorParameters (G₁ G₂ : Type) where
  context : PairingContext
  generator : Element G₁
  pairingBase : Element G₂
  sdh : List (Element G₁)
  hTau : Element G₂
  ownership : ℕ

/-- `max_members`. -/
def AccumulatorParameters.maxMembers (p : AccumulatorParameters G₁ G₂) : ℕ := p.sdh.length - 1

/-- The constructor's loop over neighbouring powers. -/
def checkPowers (e : BilinearPairing G₁ G₂ GT) (pairingBase hTau : Element G₂) :
    List (Element G₁) → Except Thrown Unit
  | previous :: current :: rest => do
      let left ← pairElements e current pairingBase
      let right ← pairElements e previous hTau
      let same ← left.equals pbcTexts right
      throwIf (same = false) .invalidArgument "q-SDH public powers are inconsistent"
      checkPowers e pairingBase hTau (current :: rest)
  | _ => pure ()

/-- Reject the identity as a parameter. -/
def requireNonidentity {G : Type} [CommGroup G] [DecidableEq G] (x : Element G) :
    Except Thrown Unit := do
  let trivial ← isIdentity x
  throwIf (trivial = true) .invalidArgument "q-SDH parameters must be non-identity elements"

/-- The constructor. -/
def AccumulatorParameters.make (e : BilinearPairing G₁ G₂ GT) (context : PairingContext)
    (generator : Element G₁) (pairingBase : Element G₂) (sdh : List (Element G₁))
    (hTau : Element G₂) (ownership : ℕ) : Except Thrown (AccumulatorParameters G₁ G₂) :=
  match sdh with
  | [] => .error ⟨.invalidArgument, "q-SDH tuple must contain g"⟩
  | front :: _ => do
      requireNonidentity generator
      requireNonidentity pairingBase
      requireNonidentity hTau
      let same ← front.equals pbcTexts generator
      throwIf (same = false) .invalidArgument "q-SDH tuple does not start with its generator"
      -- these two results are only computed for their context checks
      sdh.forM fun term => do let _ ← groupMul term generator
      let _ ← pairElements e generator pairingBase
      let _ ← pairElements e generator hTau
      checkPowers e pairingBase hTau sdh
      pure ⟨context, generator, pairingBase, sdh, hTau, ownership⟩

/-! ## The set digest -/

/-- `append_u64` of the length, then the bytes. -/
def lengthPrefixed (bytes : List UInt8) : List UInt8 := bigEndian 8 bytes.length ++ bytes

/-- What `set_digest` hashes, for encodings that are already sorted. -/
def setTranscript (encoded : List (List UInt8)) : List UInt8 :=
  textBytes "lktrs/accumulator/v1" ++ bigEndian 8 encoded.length ++
    (encoded.map lengthPrefixed).flatten

/-- The order of byte vectors. -/
def bytesLe (a b : List UInt8) : Prop := (compare a b).isLE = true

instance : DecidableRel bytesLe := fun _ _ => inferInstanceAs (Decidable (_ = true))

/-- `set_digest`. -/
def setDigest (handles : List (Scalar r)) : Except Thrown (FixedBytes 32) := do
  let encoded ← handles.mapM Scalar.toBytes
  pure (sha256 (setTranscript (encoded.insertionSort bytesLe)))

/-! ## The state -/

/-- The accumulator. -/
structure Accumulator (r : ℕ) (G₁ G₂ : Type) where
  parameters : AccumulatorParameters G₁ G₂
  value : Element G₁
  members : List (Scalar r)
  version : UInt64
  setId : FixedBytes 32

/-- What a mutation returns. -/
structure Snapshot (G₁ : Type) where
  value : Element G₁
  version : UInt64
  setId : FixedBytes 32

/-- What `witness` returns. -/
structure MembershipWitness (r : ℕ) (G₁ : Type) where
  handle : Scalar r
  value : Element G₁
  version : UInt64
  setId : FixedBytes 32
  owner : ℕ

/-- `any_of` with `member.equals(handle)`: the first member that matches or throws
decides. -/
def anyEquals (handle : Scalar r) : List (Scalar r) → Except Thrown Bool
  | [] => pure false
  | member :: members => do
      let same ← member.equals pbcTexts handle
      if same then pure true else anyEquals handle members

/-- The copy constructor of an element. -/
def Element.copy {α : Type} (t : ElementTexts) (x : Element α) : Except Thrown (Element α) := do
  let _ ← x.get t
  pure x

/-- One turn of the loop of `update` and `value_for`. -/
def addDistinct (candidate : List (Scalar r)) (handle : Scalar r) :
    Except Thrown (List (Scalar r)) := do
  let seen ← anyEquals handle candidate
  throwIf (seen = true) .invalidArgument "duplicate q-SDH member handle"
  let handle ← handle.copy pbcTexts
  pure (candidate ++ [handle])

/-- The loop of `update` and `value_for`: copy the handles unless one is repeated. -/
def collectDistinct (handles : List (Scalar r)) : Except Thrown (List (Scalar r)) :=
  handles.foldlM addDistinct []

/-- Multiply a polynomial by `X + handle`. `carried` is what the turn before left in
the entry, zero at the start. -/
def timesLinear (zero handle : Scalar r) : Scalar r → List (Scalar r) →
    Except Thrown (List (Scalar r))
  | carried, [] => pure [carried]
  | carried, c :: cs => do
      let product ← Scalar.mul c handle
      let entry ← Scalar.add carried product
      let carried ← Scalar.add zero c
      let rest ← timesLinear zero handle carried cs
      pure (entry :: rest)

/-- One turn of the loop over the handles. -/
def timesHandle (context : PairingContext) (coefficients : List (Scalar r)) (handle : Scalar r) :
    Except Thrown (List (Scalar r)) := do
  let zero ← scalar context 0
  timesLinear zero handle zero coefficients

/-- The coefficients of the product of `X + a` over the handles, constant first. -/
def productCoefficients (context : PairingContext) (handles : List (Scalar r)) :
    Except Thrown (List (Scalar r)) := do
  let one ← scalar context 1
  handles.foldlM (timesHandle context) [one]

/-- Multiply a result by one published power to its coefficient. -/
def timesPower (result : Element G₁) (term : Element G₁ × Scalar r) :
    Except Thrown (Element G₁) := do
  let power ← groupPow term.1 term.2
  groupMul result power

/-- `Accumulator::accumulate`. -/
def accumulate (p : AccumulatorParameters G₁ G₂) (handles : List (Scalar r)) :
    Except Thrown (Element G₁) := do
  throwIf (p.maxMembers < handles.length) .lengthError "set exceeds q-SDH tuple degree"
  let coefficients ← productCoefficients p.context handles
  let start ← identity p.context
  let result ← (p.sdh.zip coefficients).foldlM timesPower start
  let trivial ← isIdentity result
  throwIf (trivial = true) .domainError "q-SDH member factor is zero"
  pure result

/-- The move assignment of an element. -/
def Element.assign {α : Type} (t : ElementTexts) (old new : Element α) :
    Except Thrown (Element α) := do
  let source ← new.get t
  match old.storage with
  | some s => throwIf (s.state ≠ source.state) .invalidArgument t.different
  | none => pure ()
  pure new

namespace Accumulator

/-- The constructor: the empty set. -/
def start (p : AccumulatorParameters G₁ G₂) : Accumulator r G₁ G₂ :=
  ⟨p, p.generator, [], 0, sha256 (setTranscript [])⟩

/-- `snapshot`. -/
def snapshot (acc : Accumulator r G₁ G₂) : Snapshot G₁ := ⟨acc.value, acc.version, acc.setId⟩

/-- `contains`. -/
def contains (acc : Accumulator r G₁ G₂) (handle : Scalar r) : Bool :=
  orFalse (anyEquals handle acc.members)

/-- `value_for`. -/
def valueFor (acc : Accumulator r G₁ G₂) (handles : List (Scalar r)) :
    Except Thrown (Element G₁) := do
  let candidate ← collectDistinct handles
  accumulate acc.parameters candidate

/-- `commit`: the four assignments in order. -/
def commit (acc : Accumulator r G₁ G₂) (handles : List (Scalar r)) (value : Element G₁)
    (setId : FixedBytes 32) : Except Thrown (Snapshot G₁) × Accumulator r G₁ G₂ :=
  if acc.version = UInt64.ofNat (2 ^ 64 - 1) then
    (.error ⟨.overflowError, "accumulator version exhausted"⟩, acc)
  else
    let acc := { acc with members := handles }
    match acc.value.assign pbcTexts value with
    | .error e => (.error e, acc)
    | .ok value =>
        let acc := { acc with value := value, setId := setId, version := acc.version + 1 }
        (.ok acc.snapshot, acc)

/-- The part of `update` before `commit`. -/
def prepare (acc : Accumulator r G₁ G₂) (handles : List (Scalar r)) :
    Except Thrown (List (Scalar r) × Element G₁ × FixedBytes 32) := do
  let candidate ← collectDistinct handles
  let value ← accumulate acc.parameters candidate
  let setId ← setDigest handles
  pure (candidate, value, setId)

/-- `update`. -/
def update (acc : Accumulator r G₁ G₂) (handles : List (Scalar r)) :
    Except Thrown (Snapshot G₁) × Accumulator r G₁ G₂ :=
  match acc.prepare handles with
  | .error e => (.error e, acc)
  | .ok (candidate, value, setId) => acc.commit candidate value setId

/-- The candidate of `join`. -/
def joined (acc : Accumulator r G₁ G₂) (handle : Scalar r) :
    Except Thrown (List (Scalar r)) := do
  throwIf (acc.contains handle = true) .invalidArgument "q-SDH member handle already joined"
  let handle ← handle.copy pbcTexts
  pure (acc.members ++ [handle])

/-- `join`. -/
def join (acc : Accumulator r G₁ G₂) (handle : Scalar r) :
    Except Thrown (Snapshot G₁) × Accumulator r G₁ G₂ :=
  match acc.joined handle with
  | .error e => (.error e, acc)
  | .ok candidate => acc.update candidate

/-- The loop of `exit`: the members that are not equal to the handle. -/
def others (handle : Scalar r) : List (Scalar r) → Except Thrown (List (Scalar r))
  | [] => pure []
  | member :: members => do
      let same ← member.equals pbcTexts handle
      let rest ← others handle members
      pure (if same then rest else member :: rest)

/-- The candidate of `exit`. -/
def remaining (acc : Accumulator r G₁ G₂) (handle : Scalar r) :
    Except Thrown (List (Scalar r)) := do
  let found ← anyEquals handle acc.members
  throwIf (found = false) .invalidArgument "q-SDH member handle is not joined"
  others handle acc.members

/-- `exit`. -/
def exit (acc : Accumulator r G₁ G₂) (handle : Scalar r) :
    Except Thrown (Snapshot G₁) × Accumulator r G₁ G₂ :=
  match acc.remaining handle with
  | .error e => (.error e, acc)
  | .ok candidate => acc.update candidate

/-- The loop of `witness_value`: the members without the first match. -/
def withoutFirst (handle : Scalar r) : List (Scalar r) → Except Thrown (List (Scalar r))
  | [] => pure []
  | member :: members => do
      let same ← member.equals pbcTexts handle
      if same then pure members
      else do
        let rest ← withoutFirst handle members
        pure (member :: rest)

/-- `witness_value`. -/
def witnessValue (acc : Accumulator r G₁ G₂) (handle : Scalar r) : Except Thrown (Element G₁) := do
  throwIf (acc.contains handle = false) .invalidArgument "cannot witness a non-member handle"
  let rest ← withoutFirst handle acc.members
  accumulate acc.parameters rest

/-- `witness`. -/
def witness (acc : Accumulator r G₁ G₂) (handle : Scalar r) :
    Except Thrown (MembershipWitness r G₁) := do
  let value ← acc.witnessValue handle
  let handle ← handle.copy pbcTexts
  pure ⟨handle, value, acc.version, acc.setId, acc.parameters.ownership⟩

/-- `verify` of a raw witness value. -/
def verifyValue (e : BilinearPairing G₁ G₂ GT) (acc : Accumulator r G₁ G₂) (handle : Scalar r)
    (value : Element G₁) : Bool :=
  orFalse do
    let power ← groupPow acc.parameters.pairingBase handle
    let memberTerm ← groupMul power acc.parameters.hTau
    let left ← pairElements e value memberTerm
    let right ← pairElements e acc.value acc.parameters.pairingBase
    left.equals pbcTexts right

/-- The checks of `verify` before the pairing relation. -/
def current (acc : Accumulator r G₁ G₂) (handle : Scalar r) (w : MembershipWitness r G₁) : Bool :=
  orFalse do
    if w.owner ≠ acc.parameters.ownership ∨ w.version ≠ acc.version ∨ w.setId ≠ acc.setId then
      pure false
    else w.handle.equals pbcTexts handle

/-- `verify` of a witness. -/
def verify (e : BilinearPairing G₁ G₂ GT) (acc : Accumulator r G₁ G₂) (handle : Scalar r)
    (w : MembershipWitness r G₁) : Bool :=
  acc.current handle w && acc.verifyValue e handle w.value

end Accumulator

end Lktrs.Protocol
