import Lktrs.NativeProof.Service

/-!
# What a request does to the service

Each request leaves the machine as it was, or makes one change of the service
and persists the ledger (`Commit`), or is one of the two that change something
and fail: a key generation that could not be persisted, and a signature that
could not be encoded. `run_step` says so once for all operations; every
invariant of the service is derived from it.
-/

set_option autoImplicit false

namespace Lktrs.NativeProof

open Lktrs.Foundation
open Std (ExtTreeMap ExtTreeSet)

variable (lib : GnarkCrypto) {zk : Groth16}

/-! ## Persisting -/

@[simp] theorem Machine.persistState_service (m : Machine zk) (r : PersistResult) :
    (m.persistState r).2.service = m.service := by
  unfold Machine.persistState
  split <;> rfl

theorem Machine.persistState_fst_eq_none {m : Machine zk} {r : PersistResult} :
    (m.persistState r).1 = none ↔ m.service.statePath = "" ∨ r = .success := by
  unfold Machine.persistState
  by_cases hpath : m.service.statePath = ""
  · simp [hpath]
  · cases r with
    | success => simp [hpath, PersistResult.error]
    | failure text replaced => simp [hpath, PersistResult.error]

theorem Machine.persistState_of_no_path {m : Machine zk} (h : m.service.statePath = "")
    (r : PersistResult) : m.persistState r = (none, m) :=
  if_pos h

theorem Machine.persistState_of_path {m : Machine zk} (h : m.service.statePath ≠ "")
    (r : PersistResult) :
    m.persistState r = (r.error,
      { m with
        file := if r.replaces then some m.service.toLedger.text else m.file
        writes := (m.service.toLedger, r) :: m.writes }) :=
  if_neg h

/-- Put a changed service into the machine and persist it. -/
def Machine.commitTo (m : Machine zk) (s : Service zk) (r : PersistResult) :
    Option String × Machine zk :=
  Machine.persistState { m with service := s } r

@[simp] theorem Machine.commitTo_service (m : Machine zk) (s : Service zk) (r : PersistResult) :
    (m.commitTo s r).2.service = s :=
  Machine.persistState_service _ r

/-! ## Changes -/

/-- The changes of the service that are followed by a call of `persistState`. -/
inductive Commit (s : Service zk) (q : Request) (c : Choices) : Service zk → Prop where
  | setup {p : Params} {prover : Prover zk} {verifier : Verifier zk}
      (hop : operationOf q.op = .setup) (hprover : s.prover = none)
      (hsetup : setup lib q.capacity c.setupDraw = .ok p)
      (hbackend : newBackend zk c.backendRandomness = .ok (prover, verifier)) :
      Commit s q c { s with params := p, prover := some prover, verifier := some verifier }
  | keygen {a : Account} {signer : Option Signer} (hop : operationOf q.op = .keygen)
      (hkey : s.keygen lib q c = .ok (a, signer)) :
      Commit s q c ((s.addUser q.user signer).addAccount q.account ⟨q.user, a⟩)
  | join (hop : operationOf q.op = .join) (hprover : s.prover ≠ none)
      (hcheck : s.checkJoin lib q = .ok ()) : Commit s q c (s.setActive q.account true)
  | exit (hop : operationOf q.op = .exit) (hcheck : s.checkExit lib q = .ok ()) :
      Commit s q c (s.setActive q.account false)
  | revokeUser (hop : operationOf q.op = .revokeUser) (huser : s.users[q.user]?.isSome = true) :
      Commit s q c (s.revokeUser q.user)
  | sign {effect : SignEffect} {enc : List UInt8} (hop : operationOf q.op = .sign)
      (hsign : s.sign lib q c = .ok effect) (hmarshal : marshalSigned lib effect.signed = .ok enc) :
      Commit s q c ((s.advanceSigner effect).pin effect.issue q.k)
  | verify {digest : FixedBytes 32} (hop : operationOf q.op = .verify)
      (hverify : s.verify lib q = .ok digest) : Commit s q c (s.consume digest)

/-- All changes a request makes to the service: a persisted one, the signer of a key generation
that could not be persisted, or a counter used for a signature that could not be encoded. -/
inductive Change (s : Service zk) (q : Request) (c : Choices) : Service zk → Prop where
  | commit {s' : Service zk} (h : Commit lib s q c s') : Change s q c s'
  | user {a : Account} {signer : Option Signer} (hkey : s.keygen lib q c = .ok (a, signer)) :
      Change s q c (s.addUser q.user signer)
  | signer {effect : SignEffect} (hsign : s.sign lib q c = .ok effect) :
      Change s q c (s.advanceSigner effect)

/-- The operations that change nothing. -/
def Operation.readOnly : Operation → Bool
  | .info | .link | .trace => true
  | _ => false

/-- What a request leaves behind. -/
inductive RunStep (m : Machine zk) (q : Request) (c : Choices) : Outcome zk → Prop where
  | still {out : Response} {err : Option String}
      (herr : err = none → (operationOf q.op).readOnly = true) : RunStep m q c ⟨out, err, m⟩
  | commit {s : Service zk} {o : Outcome zk} (h : Commit lib m.service q c s)
      (hundo : operationOf q.op = .keygen → (m.commitTo s c.persist).1 = none)
      (herr : o.err = none ↔ (m.commitTo s c.persist).1 = none)
      (hmachine : o.machine = (m.commitTo s c.persist).2) : RunStep m q c o
  | keygenUndone {a : Account} {signer : Option Signer} {out : Response} {e e' : String}
      (hop : operationOf q.op = .keygen) (hkey : m.service.keygen lib q c = .ok (a, signer))
      (herr : (m.commitTo ((m.service.addUser q.user signer).addAccount q.account ⟨q.user, a⟩)
        c.persist).1 = some e') :
      RunStep m q c ⟨out, some e,
        { (m.commitTo ((m.service.addUser q.user signer).addAccount q.account ⟨q.user, a⟩)
            c.persist).2 with service := m.service.addUser q.user signer }⟩
  | unencoded {effect : SignEffect} {out : Response} {e : String} (hop : operationOf q.op = .sign)
      (hsign : m.service.sign lib q c = .ok effect) :
      RunStep m q c ⟨out, some e, { m with service := m.service.advanceSigner effect }⟩

variable {lib}

/-- The change an operation makes, read off the operation. -/
theorem Commit.spec {s s' : Service zk} {q : Request} {c : Choices} (h : Commit lib s q c s') :
    match operationOf q.op with
    | .setup => s.prover = none ∧ ∃ p prover verifier,
        NativeProof.setup lib q.capacity c.setupDraw = .ok p ∧
        newBackend zk c.backendRandomness = .ok (prover, verifier) ∧
        s' = { s with params := p, prover := some prover, verifier := some verifier }
    | .keygen => ∃ a signer, s.keygen lib q c = .ok (a, signer) ∧
        s' = (s.addUser q.user signer).addAccount q.account ⟨q.user, a⟩
    | .join => s.checkJoin lib q = .ok () ∧ s' = s.setActive q.account true
    | .exit => s.checkExit lib q = .ok () ∧ s' = s.setActive q.account false
    | .revokeUser => s.users[q.user]?.isSome = true ∧ s' = s.revokeUser q.user
    | .sign => ∃ e enc, s.sign lib q c = .ok e ∧ marshalSigned lib e.signed = .ok enc ∧
        s' = (s.advanceSigner e).pin e.issue q.k
    | .verify => ∃ digest, s.verify lib q = .ok digest ∧ s' = s.consume digest
    | _ => False := by
  cases h with
  | setup hop hprover hsetup hbackend =>
      rw [hop]
      exact ⟨hprover, _, _, _, hsetup, hbackend, rfl⟩
  | keygen hop hkey =>
      rw [hop]
      exact ⟨_, _, hkey, rfl⟩
  | join hop hprover hcheck =>
      rw [hop]
      exact ⟨hcheck, rfl⟩
  | exit hop hcheck =>
      rw [hop]
      exact ⟨hcheck, rfl⟩
  | revokeUser hop huser =>
      rw [hop]
      exact ⟨huser, rfl⟩
  | sign hop hsign hmarshal =>
      rw [hop]
      exact ⟨_, _, hsign, hmarshal, rfl⟩
  | verify hop hverify =>
      rw [hop]
      exact ⟨_, hverify, rfl⟩

/-! ## The operations one by one -/

section Operations

variable {m : Machine zk} {q : Request} {c : Choices} {out : Response}

theorem RunStep.refuse {e : String} : RunStep lib m q c (m.refuse out e) :=
  .still (fun h => by cases h)

/-- An operation that makes one change and returns. -/
theorem RunStep.of_commit {s : Service zk} {text : String} (h : Commit lib m.service q c s)
    (hop : operationOf q.op ≠ .keygen) :
    RunStep lib m q c (Machine.commit { m with service := s } c.persist text out) :=
  .commit h (fun hkey => absurd hkey hop) (by simp [Machine.commit, Machine.commitTo]) rfl

theorem runSetup_step (hop : operationOf q.op = .setup) :
    RunStep lib m q c (m.runSetup lib q c out) := by
  unfold Machine.runSetup
  dsimp only
  split
  · exact .refuse
  · rename_i hprover
    have hnone : m.service.prover = none := by simpa using hprover
    cases hsetup : setup lib q.capacity c.setupDraw with
    | error e => exact .refuse
    | ok p =>
        cases hbackend : newBackend zk c.backendRandomness with
        | error e => exact .refuse
        | ok pair =>
            apply RunStep.of_commit
            · exact .setup hop hnone hsetup hbackend
            · simp [hop]

theorem Service.keygen_new {s : Service zk} {a : Account} {signer : Option Signer}
    (h : s.keygen lib q c = .ok (a, signer)) : s.accounts[q.account]? = none := by
  unfold Service.keygen at h
  obtain ⟨_, _, h⟩ := bind_eq_ok.1 h
  obtain ⟨_, hnew, _⟩ := bind_eq_ok.1 h
  simpa using hnew

/-- Taking the account back leaves the service with the signer alone. -/
theorem Service.deleteAccount_addAccount {s : Service zk} {account : String} {reg : Registration}
    (h : s.accounts[account]? = none) : (s.addAccount account reg).deleteAccount account = s := by
  simp only [Service.addAccount, Service.deleteAccount, erase_insert_of_new h]

@[simp] theorem Service.addUser_accounts (s : Service zk) (user : String)
    (signer : Option Signer) : (s.addUser user signer).accounts = s.accounts := by
  cases signer <;> rfl

theorem runKeygen_step (hop : operationOf q.op = .keygen) :
    RunStep lib m q c (m.runKeygen lib q c out) := by
  unfold Machine.runKeygen
  cases hkey : m.service.keygen lib q c with
  | error e => exact .refuse
  | ok pair =>
      obtain ⟨a, signer⟩ := pair
      dsimp only
      rw [← Machine.commitTo]
      generalize hp : m.commitTo _ c.persist = p
      obtain ⟨err, m'⟩ := p
      cases err with
      | none =>
          refine .commit (.keygen hop hkey) (fun _ => ?_) ?_ ?_ <;> simp [hp]
      | some e =>
          have hservice := Machine.commitTo_service m
            ((m.service.addUser q.user signer).addAccount q.account ⟨q.user, a⟩) c.persist
          rw [hp] at hservice
          -- the undo removes the account again and leaves a user that was made for it
          have hback : m'.service.deleteAccount q.account = m.service.addUser q.user signer := by
            rw [hservice]
            apply Service.deleteAccount_addAccount
            rw [Service.addUser_accounts]
            exact Service.keygen_new hkey
          have herr : (m.commitTo ((m.service.addUser q.user signer).addAccount q.account
              ⟨q.user, a⟩) c.persist).1 = some e := by rw [hp]
          have hstep : RunStep lib m q c ⟨out, some ("persist keygen state: " ++ e), _⟩ :=
            .keygenUndone hop hkey herr
          rw [hp] at hstep
          simpa only [hback] using hstep

theorem runRing_join_step (hop : operationOf q.op = .join) (hprover : m.service.prover ≠ none) :
    RunStep lib m q c (m.runRing (m.service.checkJoin lib q) q true c out) := by
  unfold Machine.runRing
  cases hcheck : m.service.checkJoin lib q with
  | error e => exact .refuse
  | ok u => exact .of_commit (.join hop hprover hcheck) (by simp [hop])

theorem runRing_exit_step (hop : operationOf q.op = .exit) :
    RunStep lib m q c (m.runRing (m.service.checkExit lib q) q false c out) := by
  unfold Machine.runRing
  cases hcheck : m.service.checkExit lib q with
  | error e => exact .refuse
  | ok u => exact .of_commit (.exit hop hcheck) (by simp [hop])

theorem runRevokeUser_step (hop : operationOf q.op = .revokeUser) :
    RunStep lib m q c (m.runRevokeUser q c out) := by
  unfold Machine.runRevokeUser
  split
  · rename_i huser
    exact .of_commit (.revokeUser hop huser) (by simp [hop])
  · exact .refuse

theorem runSign_step (hop : operationOf q.op = .sign) :
    RunStep lib m q c (m.runSign lib q c out) := by
  unfold Machine.runSign
  cases hsign : m.service.sign lib q c with
  | error e => exact .refuse
  | ok effect =>
      dsimp only
      cases hmarshal : marshalSigned lib effect.signed with
      | error e => exact .unencoded hop hsign
      | ok enc =>
          dsimp only
          rw [← Machine.commitTo]
          generalize hp : m.commitTo _ c.persist = p
          obtain ⟨err, m'⟩ := p
          cases err with
          | none => refine .commit (.sign hop hsign hmarshal) (by simp [hop]) ?_ ?_ <;> simp [hp]
          | some e => refine .commit (.sign hop hsign hmarshal) (by simp [hop]) ?_ ?_ <;> simp [hp]

theorem runVerify_step (hop : operationOf q.op = .verify) :
    RunStep lib m q c (m.runVerify lib q c out) := by
  unfold Machine.runVerify
  cases hverify : m.service.verify lib q with
  | error e => exact .refuse
  | ok digest => exact .of_commit (.verify hop hverify) (by simp [hop])

theorem runLink_step (hop : operationOf q.op = .link) :
    RunStep lib m q c (m.runLink lib q out) := by
  unfold Machine.runLink
  cases m.service.link lib q with
  | error e => exact .refuse
  | ok linked => exact .still (fun _ => by rw [hop]; rfl)

theorem runTrace_step (hop : operationOf q.op = .trace) :
    RunStep lib m q c (m.runTrace lib q c out) := by
  unfold Machine.runTrace
  cases m.service.trace lib q c with
  | error e => exact .refuse
  | ok result => exact .still (fun _ => by rw [hop]; rfl)

theorem runUnknown_step : RunStep lib m q c (m.runUnknown lib q out) := by
  unfold Machine.runUnknown
  cases m.service.envelopeRequest lib q with
  | error e => exact .refuse
  | ok r => exact .refuse

theorem runAfterSetup_step (hprover : m.service.prover ≠ none) :
    RunStep lib m q c (m.runAfterSetup lib q c out) := by
  unfold Machine.runAfterSetup
  cases hop : operationOf q.op with
  | keygen => exact runKeygen_step hop
  | join => exact runRing_join_step hop hprover
  | exit => exact runRing_exit_step hop
  | revokeUser => exact runRevokeUser_step hop
  | sign => exact runSign_step hop
  | verify => exact runVerify_step hop
  | link => exact runLink_step hop
  | trace => exact runTrace_step hop
  | info => exact runUnknown_step
  | setup => exact runUnknown_step
  | unknown => exact runUnknown_step

end Operations

/-- The operations that need a setup. -/
def Operation.needsSetup : Operation → Bool
  | .info | .setup => false
  | _ => true

/-- The response every operation starts from. -/
def freshResponse : Response := { version := circuitVersion }

theorem run_of_setup {m : Machine zk} {q : Request} {c : Choices}
    (hop : (operationOf q.op).needsSetup = true) (hprover : m.service.prover ≠ none) :
    m.run lib q c = m.runAfterSetup lib q c freshResponse := by
  unfold Machine.run
  cases h : operationOf q.op with
  | info => simp [h, Operation.needsSetup] at hop
  | setup => simp [h, Operation.needsSetup] at hop
  | _ =>
      dsimp only
      rw [if_neg (by simpa using hprover)]
      rfl

theorem run_of_verify {m : Machine zk} {q : Request} {c : Choices}
    (hop : operationOf q.op = .verify) (hprover : m.service.prover ≠ none) :
    m.run lib q c = m.runVerify lib q c freshResponse := by
  rw [run_of_setup (by rw [hop]; rfl) hprover, Machine.runAfterSetup, hop]

theorem run_without_setup {m : Machine zk} {q : Request} {c : Choices}
    (hop : (operationOf q.op).needsSetup = true) (hprover : m.service.prover = none) :
    m.run lib q c = m.refuse freshResponse "setup required" := by
  unfold Machine.run
  cases h : operationOf q.op with
  | info => simp [h, Operation.needsSetup] at hop
  | setup => simp [h, Operation.needsSetup] at hop
  | _ =>
      dsimp only
      rw [if_pos (by simpa using hprover)]
      rfl

theorem RunStep.change {m : Machine zk} {q : Request} {c : Choices} {o : Outcome zk}
    (h : RunStep lib m q c o) :
    o.machine.service = m.service ∨ Change lib m.service q c o.machine.service := by
  cases h with
  | still herr => exact .inl rfl
  | commit h _ _ hmachine =>
      right
      rw [hmachine, Machine.commitTo_service]
      exact .commit h
  | keygenUndone hop hkey herr => exact .inr (.user hkey)
  | unencoded hop hsign => exact .inr (.signer hsign)

/-- An acknowledged request that is not read-only made its change. -/
theorem RunStep.commit_of_ok {m : Machine zk} {q : Request} {c : Choices} {o : Outcome zk}
    (h : RunStep lib m q c o) (hop : (operationOf q.op).readOnly = false) (herr : o.err = none) :
    Commit lib m.service q c o.machine.service := by
  cases h with
  | still hread =>
      have hfalse := hread herr
      rw [hop] at hfalse
      cases hfalse
  | commit hcommit _ _ hmachine =>
      rw [hmachine, Machine.commitTo_service]
      exact hcommit
  | keygenUndone _ _ _ => cases herr
  | unencoded _ _ => cases herr

/-- Every request is one of the four kinds. -/
theorem run_step (m : Machine zk) (q : Request) (c : Choices) :
    RunStep lib m q c (m.run lib q c) := by
  unfold Machine.run
  by_cases hinfo : operationOf q.op = .info
  · simp only [hinfo]
    exact .still (fun _ => by rw [hinfo]; rfl)
  · by_cases hsetup : operationOf q.op = .setup
    · simp only [hsetup]
      exact runSetup_step hsetup
    · have hguard : RunStep lib m q c
          (if m.service.prover.isNone then m.refuse { version := circuitVersion } "setup required"
            else m.runAfterSetup lib q c { version := circuitVersion }) := by
        split
        · exact .refuse
        · rename_i hprover
          apply runAfterSetup_step
          simpa using hprover
      cases hop : operationOf q.op with
      | info => exact absurd hop hinfo
      | setup => exact absurd hop hsetup
      | _ => exact hguard

end Lktrs.NativeProof
