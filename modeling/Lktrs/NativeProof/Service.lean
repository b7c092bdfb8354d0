import Lktrs.NativeProof.Protocol
import Lktrs.NativeProof.ServiceLedger
import Lktrs.NativeProof.Wire

/-!
# The request service

`service.go`: one process that holds the parameters, the keys, the users and the
ring, and answers one request at a time. A request is run on a `Machine`, the
process together with its state file, and yields the response, the error that
turns it into a failure, and the machine it leaves behind; the maps a failing
request has already changed stay changed, as in the code.

Everything a request takes from outside is in its `Choices`: what the random
sources returned, the order in which the account map was ranged over, and how
the writes of `persistState` went. `Service.run` is cut along its operations; an
operation first computes what it is about to do, in a part that changes nothing
and may fail, and then changes the maps and persists the ledger.
-/

set_option autoImplicit false

namespace Lktrs.NativeProof

open Lktrs.Foundation
open Std (ExtTreeMap ExtTreeSet)

/-- The state of one service process; `prover` and `verifier` are set together by a setup. -/
structure Service (zk : Groth16) extends Ledger where
  params : Params
  prover : Option (Prover zk)
  verifier : Option (Verifier zk)
  users : ExtTreeMap String Signer compare
  accounts : ExtTreeMap String Registration compare
  active : ExtTreeMap String Bool compare
  statePath : String

structure Response where
  ok : Bool := false
  error : String := ""
  version : String := ""
  signature : String := ""
  verified : Bool := false
  linked : Bool := false
  trace : Option TraceStatus := none
  user : String := ""
  members : ℕ := 0
  deriving DecidableEq

/-- The operations of a request. -/
inductive Operation where
  | info
  | setup
  | keygen
  | join
  | exit
  | revokeUser
  | sign
  | verify
  | link
  | trace
  | unknown
  deriving DecidableEq

def operationOf (op : String) : Operation :=
  if op = "info" then .info
  else if op = "setup" then .setup
  else if op = "keygen" then .keygen
  else if op = "join" then .join
  else if op = "exit" then .exit
  else if op = "revoke_user" then .revokeUser
  else if op = "sign" then .sign
  else if op = "verify" then .verify
  else if op = "link" then .link
  else if op = "trace" then .trace
  else .unknown

/-- How one call of `persistState` went. A failed call has an error text, and leaves the file
with its old contents or, if it failed after the rename, with the new ones. -/
inductive PersistResult where
  | success
  | failure (text : String) (replaced : Bool)
  deriving DecidableEq

def PersistResult.error : PersistResult → Option String
  | .success => none
  | .failure text _ => some text

def PersistResult.replaces : PersistResult → Bool
  | .success => true
  | .failure _ replaced => replaced

/-- What one request takes from outside. -/
structure Choices where
  setupDraw : Except String ℕ
  backendRandomness : ℕ
  drawX : Except String ℕ
  drawD : Except String ℕ
  proverRandomness : ℕ
  /-- The order in which the accounts are ranged over. -/
  order : List Registration → List Registration
  order_perm : ∀ regs, (order regs).Perm regs
  persist : PersistResult

/-- A process and its state file, with the calls of `persistState` so far, latest first: the
ledger that was written and how the call went. -/
structure Machine (zk : Groth16) where
  service : Service zk
  file : Option (List Char)
  writes : List (Ledger × PersistResult)

/-- What `run` returns, and the machine afterwards. -/
structure Outcome (zk : Groth16) where
  out : Response
  err : Option String
  machine : Machine zk

/-! ## Starting a service -/

/-- Parameters before a setup. -/
def Params.unset : Params := ⟨Affine.infinity, Bn254G2.infinity, Bn254G2.infinity, []⟩

def newService (zk : Groth16) (path : String) : Service zk :=
  { Ledger.empty with
    params := Params.unset, prover := none, verifier := none, users := ∅, accounts := ∅,
    active := ∅, statePath := path }

/-- `NewPersistentService`, given the file at the path. -/
def newPersistentService (zk : Groth16) (path : String) (file : Option (List Char)) :
    Except String (Service zk) := do
  rejectIf (isBlank path = true) "state path is required"
  let ledger ← loadState file
  return { newService zk path with toLedger := ledger }

section

variable (lib : GnarkCrypto) {zk : Groth16}

/-- The artifacts a setup directory is loaded as: the parameters were validated, and prover and
verifier carry the digests of one manifest. -/
structure LoadedSetup (zk : Groth16) where
  parameters : Params
  prover : Prover zk
  verifier : Verifier zk
  valid : validateParams lib parameters = .ok ()
  circuitHash_eq : prover.circuitHash = verifier.circuitHash
  keyID_eq : prover.keyID = verifier.keyID

def Service.loadSetup (s : Service zk) (loaded : Except String (LoadedSetup lib zk)) :
    Except String (Service zk) := do
  rejectIf (s.prover.isSome = true) "setup already completed"
  let loaded ← loaded
  return { s with
    params := loaded.parameters, prover := some loaded.prover, verifier := some loaded.verifier }

/-! ## The ring -/

/-- What reading an absent account gives. -/
def Registration.zero : Registration := ⟨"", ⟨Affine.infinity, Affine.infinity, none⟩⟩

def Service.registration (s : Service zk) (account : String) : Registration :=
  s.accounts[account]?.getD Registration.zero

def Service.isActive (s : Service zk) (account : String) : Bool := s.active[account]?.getD false

/-- The active accounts in ascending order. -/
def Service.ringIds (s : Service zk) : List String :=
  (s.active.toList.filter (·.2)).map (·.1)

def Service.ring (s : Service zk) : List Account :=
  s.ringIds.map fun id => (s.registration id).account

/-! ## Persisting -/

/-- `persistState`: its error, and the machine after it. -/
def Machine.persistState (m : Machine zk) (r : PersistResult) : Option String × Machine zk :=
  if m.service.statePath = "" then (none, m)
  else
    (r.error,
      { m with
        file := if r.replaces then some m.service.toLedger.text else m.file
        writes := (m.service.toLedger, r) :: m.writes })

/-- Return an error without a change. -/
def Machine.refuse (m : Machine zk) (out : Response) (e : String) : Outcome zk := ⟨out, some e, m⟩

/-- Persist and return; `text` is put in front of the error. -/
def Machine.commit (m : Machine zk) (r : PersistResult) (text : String) (out : Response) :
    Outcome zk :=
  let (e, m) := m.persistState r
  ⟨out, e.map (text ++ ·), m⟩

/-! ## Setup, registration and ring changes -/

def Machine.runSetup (m : Machine zk) (q : Request) (c : Choices) (out : Response) : Outcome zk :=
  let s := m.service
  if s.prover.isSome then m.refuse out "setup already completed"
  else
    match setup lib q.capacity c.setupDraw with
    | .error e => m.refuse out e
    | .ok p =>
        match newBackend zk c.backendRandomness with
        | .error e => m.refuse out e
        | .ok (prover, verifier) =>
            Machine.commit
              { m with service :=
                  { s with params := p, prover := some prover, verifier := some verifier } }
              c.persist "persist setup state: " out

/-- The checks and the key generation of `keygen`: the account, and a signer for a new user. -/
def Service.keygen (s : Service zk) (q : Request) (c : Choices) :
    Except String (Account × Option Signer) := do
  rejectIf (isBlank q.user = true ∨ isBlank q.account = true) "user/account ids required"
  rejectIf (s.accounts[q.account]?.isSome = true) "account exists"
  rejectIf (q.user ∈ s.revoked) "user is permanently revoked"
  match s.users[q.user]? with
  | none => do
      let (a, x) ← keyGen lib none c.drawX c.drawD
      let signer ← newSigner x
      return (a, some signer)
  | some signer => do
      let (a, _) ← keyGen lib (some signer.x) c.drawX c.drawD
      return (a, none)

/-- Store the signer of a new user. -/
def Service.addUser (s : Service zk) (user : String) (signer : Option Signer) : Service zk :=
  match signer with
  | none => s
  | some signer => { s with users := s.users.insert user signer }

def Service.addAccount (s : Service zk) (account : String) (reg : Registration) : Service zk :=
  { s with accounts := s.accounts.insert account reg }

def Service.deleteAccount (s : Service zk) (account : String) : Service zk :=
  { s with accounts := s.accounts.erase account }

def Machine.runKeygen (m : Machine zk) (q : Request) (c : Choices) (out : Response) : Outcome zk :=
  match m.service.keygen lib q c with
  | .error e => m.refuse out e
  | .ok (a, signer) =>
      let s := (m.service.addUser q.user signer).addAccount q.account ⟨q.user, a⟩
      match Machine.persistState { m with service := s } c.persist with
      | (none, m) => ⟨out, none, m⟩
      | (some e, m) =>
          -- only the account is taken back
          ⟨out, some ("persist keygen state: " ++ e),
            { m with service := m.service.deleteAccount q.account }⟩

def Service.setActive (s : Service zk) (account : String) (active : Bool) : Service zk :=
  { s with active := s.active.insert account active }

/-- The checks of `join`. -/
def Service.checkJoin (s : Service zk) (q : Request) : Except String Unit :=
  match s.accounts[q.account]? with
  | none => .error "account unknown"
  | some reg => do
      let snap ← newSnapshot lib s.params s.ring
      rejectIf (reg.userID ∈ s.revoked) "user is permanently revoked"
      let _ ← snap.join lib reg.account

/-- The checks of `exit`. -/
def Service.checkExit (s : Service zk) (q : Request) : Except String Unit :=
  match s.accounts[q.account]? with
  | none => .error "account unknown"
  | some reg => do
      let snap ← newSnapshot lib s.params s.ring
      rejectIf (s.isActive q.account = false) "account inactive"
      let m ← member lib reg.account
      let _ ← snap.exit lib m

/-- `join` and `exit`, after their checks. -/
def Machine.runRing (m : Machine zk) (check : Except String Unit) (q : Request) (active : Bool)
    (c : Choices) (out : Response) : Outcome zk :=
  match check with
  | .error e => m.refuse out e
  | .ok () =>
      Machine.commit { m with service := m.service.setActive q.account active } c.persist
        "persist ring state: " out

/-- The loop of `revoke_user` over the accounts. -/
def deactivate (user : String) (active : ExtTreeMap String Bool compare)
    (accounts : List (String × Registration)) : ExtTreeMap String Bool compare :=
  accounts.foldl (fun active e => if e.2.userID = user then active.insert e.1 false else active)
    active

def Service.revokeUser (s : Service zk) (user : String) : Service zk :=
  { s with
    active := deactivate user s.active s.accounts.toList, revoked := s.revoked.insert user }

def Machine.runRevokeUser (m : Machine zk) (q : Request) (c : Choices) (out : Response) :
    Outcome zk :=
  if (m.service.users[q.user]?).isSome then
    Machine.commit { m with service := m.service.revokeUser q.user } c.persist
      "persist revocation state: " out
  else m.refuse out "unknown user"

/-! ## Operations on signatures -/

/-- What these operations read of a request before they part. -/
structure SignedRequest where
  issue : FixedBytes 32
  message : List UInt8
  ctx : VerificationContext

/-- `policy`: the quota pinned for the issue, if there is one, must be asked for. -/
def Service.policy (s : Service zk) (issue : FixedBytes 32) (k : UInt32) (create : Bool) :
    Except String Unit := do
  rejectIf (k = 0) "zero quota"
  match s.policies[issue]? with
  | some old => rejectIf (old ≠ k) "quota already pinned for issue"
  | none => rejectIf (create = false) "unknown issue policy"

def Service.signedRequest (s : Service zk) (q : Request) (create : Bool) :
    Except String SignedRequest := do
  let issue ← decodeIssue q.issue
  let message ← decodeB64 q.message
  s.policy issue q.k create
  let ctx ← newVerificationContext lib s.params s.ring issue q.k
  return { issue, message, ctx }

/-- The loop of `sign` over the ring, from position `i`: the last position of the account. -/
def accountIndex (account : String) : ℕ → ℤ → List String → ℤ
  | _, idx, [] => idx
  | i, idx, id :: ids => accountIndex account (i + 1) (if id = account then i else idx) ids

/-- The error a nil pointer stands for; no reachable state meets it. -/
def nilPointer : String := "invalid memory address or nil pointer dereference"

/-- A signature that was made, with the owner of the account and the advanced signer. -/
structure SignEffect where
  issue : FixedBytes 32
  owner : String
  signed : Signed
  signer : Signer

/-- `sign` up to the call of the signer. -/
def Service.sign (s : Service zk) (q : Request) (c : Choices) : Except String SignEffect := do
  let r ← s.signedRequest lib q true
  let idx := accountIndex q.account 0 (-1) s.ringIds
  rejectIf (idx < 0) "account not in current ring"
  let snap ← newSnapshot lib s.params s.ring
  let owner := (s.registration q.account).userID
  match s.users[owner]? with
  | none => .error nilPointer
  | some signer => do
      let (signed, signer) ← signer.sign lib s.prover snap idx r.issue q.k r.message q.timestamp
        c.proverRandomness
      return { issue := r.issue, owner, signed, signer }

/-- The signer is shared with the user map, so its counter moves when it signs. -/
def Service.advanceSigner (s : Service zk) (e : SignEffect) : Service zk :=
  { s with users := s.users.insert e.owner e.signer }

def Service.pin (s : Service zk) (issue : FixedBytes 32) (k : UInt32) : Service zk :=
  { s with policies := s.policies.insert issue k }

def Machine.runSign (m : Machine zk) (q : Request) (c : Choices) (out : Response) : Outcome zk :=
  match m.service.sign lib q c with
  | .error e => m.refuse out e
  | .ok effect =>
      let s := m.service.advanceSigner effect
      match marshalSigned lib effect.signed with
      | .error e => Machine.refuse { m with service := s } out e
      | .ok enc =>
          -- the envelope is released only after the pin was persisted
          match Machine.persistState { m with service := s.pin effect.issue q.k } c.persist with
          | (none, m) => ⟨{ out with signature := base64Encode enc }, none, m⟩
          | (some e, m) => ⟨out, some ("persist signing policy: " ++ e), m⟩

/-- The envelope of a request, as bytes and decoded. -/
def readEnvelope (text : String) : Except String (List UInt8 × Signed) := do
  let enc ← decodeB64 text
  let signed ← unmarshalSigned lib enc
  return (enc, signed)

/-- The part of a request that `verify`, `link` and `trace` share. -/
def Service.envelopeRequest (s : Service zk) (q : Request) :
    Except String (SignedRequest × List UInt8 × Signed) := do
  let r ← s.signedRequest lib q false
  let (enc, signed) ← readEnvelope lib q.signature
  return (r, enc, signed)

def Service.verifyEnvelope (s : Service zk) (r : SignedRequest) (signed : Signed) :
    Except String Unit :=
  match s.verifier with
  | none => .error nilPointer
  | some v => v.verify lib r.ctx r.message signed

/-- `verify`: the digest to consume. -/
def Service.verify (s : Service zk) (q : Request) : Except String (FixedBytes 32) := do
  let (r, enc, signed) ← s.envelopeRequest lib q
  rejectIf (sha256 enc ∈ s.seen) "signature replay already consumed"
  s.verifyEnvelope lib r signed
  return sha256 enc

def Service.consume (s : Service zk) (digest : FixedBytes 32) : Service zk :=
  { s with seen := s.seen.insert digest }

def Machine.runVerify (m : Machine zk) (q : Request) (c : Choices) (out : Response) : Outcome zk :=
  match m.service.verify lib q with
  | .error e => m.refuse out e
  | .ok digest =>
      Machine.commit { m with service := m.service.consume digest } c.persist
        "persist replay state: " { out with verified := true }

/-- The second envelope and message of `link` and `trace`. -/
def Service.pairRequest (s : Service zk) (q : Request) :
    Except String (SignedRequest × Signed × List UInt8 × Signed) := do
  let (r, _, signed) ← s.envelopeRequest lib q
  let (_, other) ← readEnvelope lib q.secondSignature
  let message2 ← decodeB64 q.secondMessage
  return (r, signed, message2, other)

def Service.link (s : Service zk) (q : Request) : Except String Bool := do
  let (r, signed, message2, other) ← s.pairRequest lib q
  match s.verifier with
  | none => .error nilPointer
  | some v => v.link lib r.ctx r.message signed r.ctx message2 other

def Machine.runLink (m : Machine zk) (q : Request) (out : Response) : Outcome zk :=
  match m.service.link lib q with
  | .error e => m.refuse out e
  | .ok linked => ⟨{ out with linked }, none, m⟩

/-- `trace` up to the call of the verifier, whose result is reported with its error. -/
def Service.trace (s : Service zk) (q : Request) (c : Choices) :
    Except String (TraceResult × Option String) := do
  let (r, signed, message2, other) ← s.pairRequest lib q
  let registry ← newRegistry lib (c.order (s.accounts.toList.map (·.2)))
  match s.verifier with
  | none => .error nilPointer
  | some v => return v.trace lib r.ctx r.message signed r.ctx message2 other registry

def Machine.runTrace (m : Machine zk) (q : Request) (c : Choices) (out : Response) : Outcome zk :=
  match m.service.trace lib q c with
  | .error e => m.refuse out e
  | .ok (result, e) => ⟨{ out with trace := some result.status, user := result.userID }, e, m⟩

/-- An operation that is not known is refused after the checks that all but the first few
operations make. -/
def Machine.runUnknown (m : Machine zk) (q : Request) (out : Response) : Outcome zk :=
  match m.service.envelopeRequest lib q with
  | .error e => m.refuse out e
  | .ok _ => m.refuse out ("unknown operation " ++ goQuote q.op)

/-! ## Requests -/

/-- The operations that need a completed setup. -/
def Machine.runAfterSetup (m : Machine zk) (q : Request) (c : Choices) (out : Response) :
    Outcome zk :=
  match operationOf q.op with
  | .keygen => m.runKeygen lib q c out
  | .join => m.runRing (m.service.checkJoin lib q) q true c out
  | .exit => m.runRing (m.service.checkExit lib q) q false c out
  | .revokeUser => m.runRevokeUser q c out
  | .sign => m.runSign lib q c out
  | .verify => m.runVerify lib q c out
  | .link => m.runLink lib q out
  | .trace => m.runTrace lib q c out
  | _ => m.runUnknown lib q out

def Machine.run (m : Machine zk) (q : Request) (c : Choices) : Outcome zk :=
  let out : Response := { version := circuitVersion }
  match operationOf q.op with
  | .info => ⟨out, none, m⟩
  | .setup => m.runSetup lib q c out
  | _ =>
      if m.service.prover.isNone then m.refuse out "setup required"
      else m.runAfterSetup lib q c out

/-- The response to what `run` returned. -/
def Outcome.response (o : Outcome zk) : Response :=
  let out : Response :=
    match o.err with
    | none => { o.out with ok := true }
    | some e => { o.out with ok := false, error := e }
  { out with members := o.machine.service.ring.length }

/-- `Handle`. -/
def Machine.handle (m : Machine zk) (raw : List UInt8) (c : Choices) : Response × Machine zk :=
  match decodeRequest raw with
  | .error e => ({ error := e, members := m.service.ring.length }, m)
  | .ok q => ((m.run lib q c).response, (m.run lib q c).machine)

end

end Lktrs.NativeProof
