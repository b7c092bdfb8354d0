import Lktrs.NativeProof.ServiceRing
import Lktrs.NativeProof.Snapshots

/-!
# Registration and ring requests that fail

`keygen`, `join` and `exit` change the maps of the service before they persist
the ledger, and of these changes only the account of a `keygen` is taken back
when the write fails. A request that is refused by a check changes nothing, so
a failing request leaves users, accounts and ring as they were exactly when it
is refused, or cannot fail to be written, or is the registration of an account
for a user that was known already (`failed_request_keeps_iff`).
-/

set_option autoImplicit false

namespace Lktrs.NativeProof

open Lktrs.Foundation
open Std (ExtTreeMap ExtTreeSet)

variable {lib : GnarkCrypto} {zk : Groth16} {s s' : Service zk} {q : Request} {c : Choices}

/-- The users, the accounts, the active accounts and the ring are the same. -/
structure Service.SameMembers (s s' : Service zk) : Prop where
  users : s'.users = s.users
  accounts : s'.accounts = s.accounts
  active : ∀ id, s'.isActive id = s.isActive id
  ring : s'.ring = s.ring

theorem Service.SameMembers.refl (s : Service zk) : s.SameMembers s :=
  ⟨rfl, rfl, fun _ => rfl, rfl⟩

/-- The operations on accounts and on the ring. -/
def Operation.registers : Operation → Bool
  | .keygen | .join | .exit => true
  | _ => false

theorem Operation.needsSetup_of_registers {op : Operation} (h : op.registers = true) :
    op.needsSetup = true := by
  cases op <;> simp [Operation.registers, Operation.needsSetup] at h ⊢

variable (lib) in
/-- The request is refused by a check, or leaves nothing behind when it is not persisted. -/
def Service.Restores (s : Service zk) (q : Request) (c : Choices) : Prop :=
  s.prover = none ∨
    match operationOf q.op with
    | .keygen =>
        isBlank q.user = true ∨ isBlank q.account = true ∨ s.accounts[q.account]? ≠ none ∨
          q.user ∈ s.revoked ∨ s.users[q.user]? ≠ none ∨ (∃ e, c.drawX = .error e) ∨
          ∃ e, c.drawD = .error e
    | .join =>
        ∀ reg, s.accounts[q.account]? = some reg → reg.userID ∈ s.revoked ∨
          ∃ e, newSnapshot lib s.params (s.ring ++ [reg.account]) = .error e
    | .exit => s.isActive q.account = false
    | _ => True

/-! ## The checks of `exit` -/

theorem Service.mem_ring {id : String} {reg : Registration} (hactive : s.isActive id = true)
    (hreg : s.accounts[id]? = some reg) : reg.account ∈ s.ring := by
  refine List.mem_map.2 ⟨id, Service.mem_ringIds.2 hactive, ?_⟩
  rw [Service.registration, hreg]
  rfl

/-- In a reachable state `exit` is refused for inactive accounts only. -/
theorem Service.RingInv.checkExit_eq_ok (h : s.RingInv lib) (hprover : s.prover ≠ none) :
    s.checkExit lib q = .ok () ↔ s.isActive q.account = true := by
  obtain ⟨snap, hsnap⟩ := h.snapshot hprover
  obtain ⟨hparams, haccounts, hrebuilt⟩ := newSnapshot_fields hsnap
  unfold Service.checkExit
  cases hreg : s.accounts[q.account]? with
  | none =>
      simp only [reduceCtorEq, false_iff]
      intro hactive
      obtain ⟨reg, hreg'⟩ := h.registered _ hactive
      rw [hreg] at hreg'
      cases hreg'
  | some reg =>
      simp only [bind_eq_ok, rejectIf_eq_ok, hsnap, Except.ok.injEq, exists_eq_left', pure_eq_ok,
        Bool.not_eq_false]
      constructor
      · rintro ⟨_, hactive, _⟩
        exact hactive
      · intro hactive
        have hmem := Service.mem_ring hactive hreg
        have hmember := (newSnapshot_members hsnap).1 _ hmem
        obtain ⟨snap', hexit⟩ := Snapshot.exit_total hparams hrebuilt (haccounts ▸ hmem)
        exact ⟨(), hactive, _, hmember, snap', hexit, trivial⟩

/-- An account that passes the checks of `join` is not in the ring yet. -/
theorem Service.inactive_of_checkJoin (h : s.checkJoin lib q = .ok ()) :
    s.isActive q.account = false := by
  obtain ⟨reg, hreg, _, _, snap, hsnap⟩ := Service.checkJoin_eq_ok.1 h
  apply Bool.eq_false_iff.2
  intro hactive
  obtain ⟨_, hnodup, _⟩ := newSnapshot_members hsnap
  rw [List.map_append, List.nodup_append] at hnodup
  exact hnodup.2.2 _ (List.mem_map_of_mem (Service.mem_ring hactive hreg)) _ (by simp) rfl

/-! ## Failing writes -/

/-- A ring request that passed its checks and is not persisted reports an error and keeps its
change. -/
theorem runRing_unpersisted {m : Machine zk} {active : Bool} {out : Response}
    (hpath : m.service.statePath ≠ "") (hfail : c.persist ≠ .success) :
    (m.runRing (.ok ()) q active c out).err ≠ none ∧
      (m.runRing (.ok ()) q active c out).machine.service =
        m.service.setActive q.account active := by
  constructor
  · dsimp only [Machine.runRing, Machine.commit]
    rw [ne_eq, Option.map_eq_none_iff, Machine.persistState_fst_eq_none]
    exact not_or.2 ⟨hpath, hfail⟩
  · exact Machine.persistState_service _ _

/-- A registration that is not persisted reports an error and keeps the signer of a new user. -/
theorem runKeygen_unpersisted {m : Machine zk} {out : Response} {a : Account}
    {signer : Option Signer} (hkey : m.service.keygen lib q c = .ok (a, signer))
    (hpath : m.service.statePath ≠ "") (hfail : c.persist ≠ .success) :
    (m.runKeygen lib q c out).err ≠ none ∧
      (m.runKeygen lib q c out).machine.service.users = (m.service.addUser q.user signer).users := by
  have hstate : ((m.service.addUser q.user signer).addAccount q.account ⟨q.user, a⟩).statePath =
      m.service.statePath := by cases signer <;> rfl
  unfold Machine.runKeygen
  rw [hkey]
  dsimp only
  generalize hp : Machine.persistState _ c.persist = p
  obtain ⟨err, m'⟩ := p
  have hservice := congrArg (fun p => p.2.service) hp
  simp only [Machine.persistState_service] at hservice
  cases err with
  | none =>
      rcases Machine.persistState_fst_eq_none.1 (congrArg Prod.fst hp) with hnone | hok
      · exact absurd (hstate ▸ hnone) hpath
      · exact absurd hok hfail
  | some e =>
      refine ⟨nofun, ?_⟩
      change m'.service.users = _
      rw [← hservice]
      rfl

/-! ## The exact condition -/

theorem randomNonzero_error {n : ℕ} {draw : Except String ℕ} :
    (∃ x, randomNonzero n draw = .ok x) ↔ ∀ e, draw ≠ .error e := by
  cases draw with
  | error e => simp [randomNonzero, randInt]
  | ok raw => simp [randomNonzero, randInt]

/-- A request that passes every check, and whose write fails, changes the maps. -/
theorem not_sameMembers_of_unpersisted {m : Machine zk} (h : m.service.RingInv lib)
    (hop : (operationOf q.op).registers = true) (hrestores : ¬ m.service.Restores lib q c)
    (hpath : m.service.statePath ≠ "") (hfail : c.persist ≠ .success) :
    (m.run lib q c).err ≠ none ∧ ¬ m.service.SameMembers (m.run lib q c).machine.service := by
  obtain ⟨hprover, hchecks⟩ := not_or.1 hrestores
  rw [run_of_setup (Operation.needsSetup_of_registers hop) hprover]
  unfold Machine.runAfterSetup
  cases hq : operationOf q.op with
  | keygen =>
      simp only [hq, not_or, not_not, not_exists, Bool.not_eq_true] at hchecks
      obtain ⟨huser, haccount, hnew, hrevoked, hunknown, hx, hd⟩ := hchecks
      obtain ⟨x, hx⟩ := (@randomNonzero_error secp256k1Fr _).2 hx
      obtain ⟨d, hd⟩ := (@randomNonzero_error secp256k1Fr _).2 hd
      have hkey : m.service.keygen lib q c = .ok (accountOf lib x d, some ⟨x, ∅⟩) :=
        Service.keygen_eq_ok.2 ⟨⟨huser, haccount⟩, hnew, hrevoked, x, d,
          canonicalNonzero_randomNonzero hx, hd, rfl, .inl ⟨hunknown, hx, rfl⟩⟩
      obtain ⟨herr, husers⟩ := runKeygen_unpersisted hkey hpath hfail
      refine ⟨herr, fun hsame => ?_⟩
      -- the signer of the new user stays
      have hfound := hsame.users.symm.trans husers
      rw [hfound] at hunknown
      simp [Service.addUser] at hunknown
  | join =>
      simp only [hq, not_forall, not_or, not_exists] at hchecks
      obtain ⟨reg, hreg, hrevoked, hsnap⟩ := hchecks
      have hjoined : ∃ snap, newSnapshot lib m.service.params (m.service.ring ++ [reg.account]) =
          .ok snap := by
        cases hcase : newSnapshot lib m.service.params (m.service.ring ++ [reg.account]) with
        | error e => exact absurd hcase (hsnap e)
        | ok snap => exact ⟨snap, rfl⟩
      have hcheck := Service.checkJoin_eq_ok.2 ⟨reg, hreg, h.snapshot hprover, hrevoked, hjoined⟩
      dsimp only
      rw [hcheck]
      obtain ⟨herr, hservice⟩ := runRing_unpersisted hpath hfail
      refine ⟨herr, fun hsame => ?_⟩
      have hactive := hsame.active q.account
      rw [hservice, Service.isActive_setActive, if_pos rfl,
        Service.inactive_of_checkJoin hcheck] at hactive
      cases hactive
  | exit =>
      simp only [hq, Bool.not_eq_false] at hchecks
      dsimp only
      rw [(h.checkExit_eq_ok hprover).2 hchecks]
      obtain ⟨herr, hservice⟩ := runRing_unpersisted hpath hfail
      refine ⟨herr, fun hsame => ?_⟩
      have hactive := hsame.active q.account
      rw [hservice, Service.isActive_setActive, if_pos rfl, hchecks] at hactive
      cases hactive
  | _ => simp [hq, Operation.registers] at hop

/-- A failing request that is refused by a check, or has nothing to leave behind, leaves the maps
as they were. -/
theorem sameMembers_of_restores {m : Machine zk} (h : m.service.RingInv lib)
    (hop : (operationOf q.op).registers = true)
    (hkeep : m.service.statePath = "" ∨ c.persist = .success ∨ m.service.Restores lib q c)
    (herr : (m.run lib q c).err ≠ none) :
    m.service.SameMembers (m.run lib q c).machine.service := by
  by_cases hprover : m.service.prover = none
  · rw [run_without_setup (Operation.needsSetup_of_registers hop) hprover]
    exact .refl _
  have hstep := @run_step lib zk m q c
  generalize m.run lib q c = o at herr hstep ⊢
  -- only a write that failed gets past the checks and is reported as an error
  have hrefused : ∀ s', s'.statePath = m.service.statePath →
      (m.commitTo s' c.persist).1 ≠ none → m.service.Restores lib q c := by
    intro s' hs' hne
    rcases hkeep with hpath | hok | hrestores
    · exact absurd (Machine.persistState_fst_eq_none.2 (.inl (hs'.trans hpath))) hne
    · exact absurd (Machine.persistState_fst_eq_none.2 (.inr hok)) hne
    · exact hrestores
  cases hstep with
  | still _ => exact .refl _
  | unencoded hsign _ => simp [hsign, Operation.registers] at hop
  | commit hcommit hundo hiff hmachine =>
      have hne := mt hiff.2 herr
      have hrestores := (hrefused _ hcommit.statePath_eq hne).resolve_left hprover
      cases hq : operationOf q.op with
      | keygen => exact absurd (hundo hq) hne
      | join =>
          have hspec := hcommit.spec
          simp only [hq] at hspec hrestores
          obtain ⟨reg, hreg, _, hrevoked, snap, hsnap⟩ := Service.checkJoin_eq_ok.1 hspec.1
          rcases hrestores reg hreg with hmem | ⟨e, he⟩
          · exact absurd hmem hrevoked
          · rw [hsnap] at he
            cases he
      | exit =>
          have hspec := hcommit.spec
          simp only [hq] at hspec hrestores
          rw [(h.checkExit_eq_ok hprover).1 hspec.1] at hrestores
          cases hrestores
      | _ => simp [hq, Operation.registers] at hop
  | keygenUndone hkeygen hkey hundone =>
      rename_i a signer _ _ _
      have hne : (m.commitTo ((m.service.addUser q.user signer).addAccount q.account ⟨q.user, a⟩)
          c.persist).1 ≠ none := by
        rw [hundone]
        simp
      have hstate : ((m.service.addUser q.user signer).addAccount q.account
          ⟨q.user, a⟩).statePath = m.service.statePath := by cases signer <;> rfl
      have hrestores := (hrefused _ hstate hne).resolve_left hprover
      simp only [hkeygen] at hrestores
      obtain ⟨⟨huser, haccount⟩, hnew, hrevoked, x, d, _, hd, _, hsigner⟩ :=
        Service.keygen_eq_ok.1 hkey
      rcases hsigner with ⟨hunknown, hx, _⟩ | ⟨_, _, _, rfl⟩
      · -- a new user passed every check
        have hdraw := (@randomNonzero_error secp256k1Fr c.drawX).1 ⟨x, hx⟩
        have hdraw' := (@randomNonzero_error secp256k1Fr c.drawD).1 ⟨d, hd⟩
        rcases hrestores with hb | hb | hold | hb | hknown | ⟨e, he⟩ | ⟨e, he⟩
        · rw [huser] at hb
          cases hb
        · rw [haccount] at hb
          cases hb
        · exact absurd hnew hold
        · exact absurd hb hrevoked
        · exact absurd hunknown hknown
        · exact absurd he (hdraw e)
        · exact absurd he (hdraw' e)
      · exact .refl _

/-- A failing `keygen`, `join` or `exit` leaves users, accounts and ring as they were exactly when
the service has no state path, or the write succeeds, or the request is refused by a check or
registers an account for a known user. -/
theorem failed_request_keeps_iff (path : StatePath) (events : List (ServiceEvent lib zk))
    (q : Request) (c : Choices) (hop : (operationOf q.op).registers = true) :
    (((World.after path events).machine.run lib q c).response.ok = false →
      (World.after path events).machine.service.SameMembers
        ((World.after path events).machine.run lib q c).machine.service) ↔
      (World.after path events).machine.service.statePath = "" ∨ c.persist = .success ∨
        (World.after path events).machine.service.Restores lib q c := by
  have h := Service.RingInv.after path events
  have herr : ((World.after path events).machine.run lib q c).response.ok = false ↔
      ((World.after path events).machine.run lib q c).err ≠ none := by
    rw [← Bool.not_eq_true, Outcome.response_ok]
  rw [herr]
  constructor
  · intro hkeeps
    by_contra hnot
    simp only [not_or] at hnot
    obtain ⟨hpath, hfail, hrestores⟩ := hnot
    obtain ⟨hne, hchanged⟩ := not_sameMembers_of_unpersisted h hop hrestores hpath hfail
    exact hchanged (hkeeps hne)
  · intro hkeep
    exact sameMembers_of_restores h hop hkeep

/-- An early refusal is one of the cases. -/
theorem failed_request_keeps_iff_sample :
    let q : Request := { (default : Request) with op := "exit", account := "a" }
    let w := World.after samplePath sampleRegistered
    (operationOf q.op).registers = true ∧
      ((w.machine.run exponentLib q (sampleChoices (.failure "disk full" false))).response.ok =
          false →
        w.machine.service.SameMembers
          (w.machine.run exponentLib q (sampleChoices (.failure "disk full" false))).machine.service)
        := by
  refine ⟨by decide, ?_⟩
  have hinactive : (World.after samplePath sampleRegistered).machine.service.isActive "a" = false := by
    decide +kernel
  apply (failed_request_keeps_iff samplePath sampleRegistered _ _ (by decide)).2
  exact .inr (.inr (.inr hinactive))

/-- A registered account whose `join` fails to be written is active all the same, and a new user
whose `keygen` fails to be written stays known. -/
theorem unpersisted_changes_stay :
    let w := World.after samplePath sampleRegistered
    let fails := sampleChoices (.failure "disk full" false)
    let join : Request := { (default : Request) with op := "join", account := "a" }
    let keygen : Request := { (default : Request) with op := "keygen", user := "v", account := "b" }
    ((w.machine.run exponentLib join fails).response.ok = false ∧
        w.machine.service.ringIds = [] ∧
        (w.machine.run exponentLib join fails).machine.service.ringIds = ["a"]) ∧
      (w.machine.run exponentLib keygen fails).response.ok = false ∧
        w.machine.service.users["v"]?.isSome = false ∧
        (w.machine.run exponentLib keygen fails).machine.service.users["v"]?.isSome = true := by
  decide +kernel

end Lktrs.NativeProof
