import Lktrs.NativeProof.ServiceQuota

/-!
# The ring and revocation

What holds of every reachable state of the service: active accounts are
registered and belong to users that are not revoked, every account belongs to
the secret of its owner's signer, and after a setup the ring has an accumulator.
A request that removes accounts needs no check of its own, since a part of a
ring that has an accumulator has one (`newSnapshot_subperm`); the ring that
`join` checks differs from the next one by its order only. Revocation is
permanent because the revoked users only grow (`ring_invariant`).
-/

set_option autoImplicit false

namespace Lktrs.NativeProof

open Lktrs.Foundation
open Std (ExtTreeMap ExtTreeSet)

variable {lib : GnarkCrypto} {zk : Groth16} {s s' : Service zk} {q : Request} {c : Choices}

/-! ## The active accounts after a change -/

theorem Service.isActive_setActive (account id : String) (active : Bool) :
    (s.setActive account active).isActive id = if account = id then active else s.isActive id := by
  by_cases h : account = id
  · subst h
    simp [Service.isActive, Service.setActive]
  · simp only [Service.isActive, Service.setActive, getElem?_insert_of_ne h, if_neg h]

/-- The loop of `revoke_user` clears the flags of the listed accounts of the user. -/
theorem deactivate_getD (user id : String) : ∀ (accounts : List (String × Registration))
    (active : ExtTreeMap String Bool compare),
    (deactivate user active accounts)[id]?.getD false =
      (active[id]?.getD false && accounts.all fun e => !(e.1 = id && e.2.userID = user)) := by
  intro accounts
  induction accounts with
  | nil =>
      intro active
      simp [deactivate]
  | cons e accounts ih =>
      intro active
      have hfold : deactivate user active (e :: accounts) =
          deactivate user (if e.2.userID = user then active.insert e.1 false else active)
            accounts := rfl
      rw [hfold, ih, List.all_cons]
      by_cases huser : e.2.userID = user
      · by_cases hid : e.1 = id
        · simp [huser, hid]
        · simp [huser, hid, getElem?_insert_of_ne hid]
      · simp [huser]

theorem Service.isActive_revokeUser (user id : String) :
    (s.revokeUser user).isActive id = true ↔
      s.isActive id = true ∧ ∀ reg, s.accounts[id]? = some reg → reg.userID ≠ user := by
  simp only [Service.isActive, Service.revokeUser, deactivate_getD, Bool.and_eq_true,
    List.all_eq_true, Bool.not_eq_true', Bool.and_eq_false_imp, decide_eq_true_eq,
    decide_eq_false_iff_not, Prod.forall, ExtTreeMap.mem_toList_iff_getElem?_eq_some]
  constructor
  · rintro ⟨hactive, hall⟩
    exact ⟨hactive, fun reg hreg => hall id reg hreg rfl⟩
  · rintro ⟨hactive, hall⟩
    refine ⟨hactive, ?_⟩
    rintro _ reg hreg rfl
    exact hall reg hreg

/-- Fewer active accounts, registered as before: a part of the ring. -/
theorem Service.ring_subperm (hactive : ∀ id, s'.isActive id = true → s.isActive id = true)
    (haccounts : ∀ id, s'.isActive id = true → s'.registration id = s.registration id) :
    s'.ring.Subperm s.ring := by
  have hids : s'.ringIds.Subperm s.ringIds := by
    apply Service.nodup_ringIds.subperm
    intro id hid
    exact Service.mem_ringIds.2 (hactive id (Service.mem_ringIds.1 hid))
  have hring : s'.ring = s'.ringIds.map fun id => (s.registration id).account := by
    apply List.map_congr_left
    intro id hid
    rw [haccounts id (Service.mem_ringIds.1 hid)]
  rw [hring]
  obtain ⟨kept, hperm, hkept⟩ := hids
  exact ⟨_, hperm.map _, hkept.map _⟩

/-! ## The invariant -/

/-- A registered account is the one its owner's secret and some exponent give. -/
def Registration.OwnedBy (lib : GnarkCrypto) (reg : Registration) (signer : Signer) : Prop :=
  canonicalNonzero (some signer.x) secp256k1Fr = true ∧
    ∃ d, canonicalNonzero (some d) secp256k1Fr = true ∧ reg.account = accountOf lib signer.x d

structure Service.RingInv (lib : GnarkCrypto) (s : Service zk) : Prop where
  registered : ∀ id, s.isActive id = true → ∃ reg, s.accounts[id]? = some reg
  unrevoked : ∀ (id : String) (reg : Registration), s.isActive id = true →
    s.accounts[id]? = some reg → reg.userID ∉ s.revoked
  owned : ∀ (id : String) (reg : Registration), s.accounts[id]? = some reg →
    ∃ signer, s.users[reg.userID]? = some signer ∧ reg.OwnedBy lib signer
  before_setup : s.prover = none → ∀ id, s.isActive id = false
  snapshot : s.prover ≠ none → ∃ snap, newSnapshot lib s.params s.ring = .ok snap

theorem Service.RingInv.of_ledger {path : String} {l : Ledger} :
    Service.RingInv lib { newService zk path with toLedger := l } where
  registered := by
    intro id h
    simp [Service.isActive, newService] at h
  unrevoked := by
    intro id reg h
    simp [Service.isActive, newService] at h
  owned := by
    intro id reg h
    simp [newService] at h
  before_setup := by
    intro _ id
    simp [Service.isActive, newService]
  snapshot := by
    intro h
    exact absurd rfl h

theorem Registration.OwnedBy.later {reg : Registration} {signer signer' : Signer}
    (h : reg.OwnedBy lib signer) (hlater : signer.Later signer') : reg.OwnedBy lib signer' := by
  rw [Registration.OwnedBy, hlater.1]
  exact h

/-- Owners stay owners when no user is lost. -/
theorem Service.RingInv.owned_later (h : s.RingInv lib)
    (hlater : ∀ (user : String) (signer : Signer), s.users[user]? = some signer →
      ∃ signer', s'.users[user]? = some signer' ∧ signer.Later signer')
    {id : String} {reg : Registration} (hreg : s.accounts[id]? = some reg) :
    ∃ signer, s'.users[reg.userID]? = some signer ∧ reg.OwnedBy lib signer := by
  obtain ⟨signer, hsigner, howned⟩ := h.owned id reg hreg
  obtain ⟨signer', hsigner', hle⟩ := hlater _ _ hsigner
  exact ⟨signer', hsigner', howned.later hle⟩

/-- Fewer active accounts, registered as before, have a snapshot. -/
theorem Service.RingInv.snapshot_shrink (h : s.RingInv lib) (hparams : s'.params = s.params)
    (hprover : s'.prover = s.prover)
    (hactive : ∀ id, s'.isActive id = true → s.isActive id = true)
    (haccounts : ∀ id, s'.isActive id = true → s'.accounts[id]? = s.accounts[id]?) :
    s'.prover ≠ none → ∃ snap, newSnapshot lib s'.params s'.ring = .ok snap := by
  intro hne
  obtain ⟨snap, hsnap⟩ := h.snapshot (hprover ▸ hne)
  rw [hparams]
  apply newSnapshot_subperm lib hsnap
  apply Service.ring_subperm hactive
  intro id hid
  rw [Service.registration, Service.registration, haccounts id hid]

theorem Service.RingInv.addUser (h : s.RingInv lib) {a : Account} {signer : Option Signer}
    (hkey : s.keygen lib q c = .ok (a, signer)) : (s.addUser q.user signer).RingInv lib := by
  have hlater (user : String) (old : Signer) (hold : s.users[user]? = some old) :=
    (Change.user hkey).signer_later hold
  cases signer with
  | none => exact h
  | some new =>
      exact ⟨h.registered, h.unrevoked, fun id reg hreg => h.owned_later hlater hreg,
        h.before_setup, h.snapshot⟩

/-- A key generation leaves a signer that owns the account. -/
theorem Service.keygen_owned {a : Account} {signer : Option Signer}
    (hkey : s.keygen lib q c = .ok (a, signer)) :
    ∃ owner, (s.addUser q.user signer).users[q.user]? = some owner ∧
      Registration.OwnedBy lib ⟨q.user, a⟩ owner := by
  obtain ⟨_, _, _, x, d, hx, hd, rfl, hsigner⟩ := Service.keygen_eq_ok.1 hkey
  have hd' := canonicalNonzero_randomNonzero hd
  rcases hsigner with ⟨_, _, rfl⟩ | ⟨old, hold, rfl, rfl⟩
  · exact ⟨⟨x, ∅⟩, ExtTreeMap.getElem?_insert_self, hx, d, hd', rfl⟩
  · exact ⟨old, hold, hx, d, hd', rfl⟩

theorem Service.RingInv.addAccount (h : s.RingInv lib) {account : String} {reg : Registration}
    (hnew : s.accounts[account]? = none)
    (hreg : ∃ signer, s.users[reg.userID]? = some signer ∧ reg.OwnedBy lib signer) :
    (s.addAccount account reg).RingInv lib := by
  -- an account that was not registered is not active
  have hne : ∀ id, s.isActive id = true → account ≠ id := by
    intro id hid heq
    obtain ⟨old, hold⟩ := h.registered id hid
    rw [← heq, hnew] at hold
    cases hold
  have hsame : ∀ id, s.isActive id = true →
      (s.addAccount account reg).accounts[id]? = s.accounts[id]? :=
    fun id hid => getElem?_insert_of_ne (hne id hid)
  refine ⟨?_, ?_, ?_, h.before_setup, ?_⟩
  · intro id hid
    rw [hsame id hid]
    exact h.registered id hid
  · intro id old hid hold
    rw [hsame id hid] at hold
    exact h.unrevoked id old hid hold
  · intro id old hold
    by_cases heq : account = id
    · subst heq
      obtain rfl : reg = old := by simpa [Service.addAccount] using hold
      exact hreg
    · exact h.owned id old ((getElem?_insert_of_ne heq).symm.trans hold)
  · exact h.snapshot_shrink rfl rfl (fun _ hid => hid) hsame

theorem Service.RingInv.keygen (h : s.RingInv lib) {a : Account} {signer : Option Signer}
    (hkey : s.keygen lib q c = .ok (a, signer)) :
    ((s.addUser q.user signer).addAccount q.account ⟨q.user, a⟩).RingInv lib := by
  apply (h.addUser hkey).addAccount
  · rw [Service.addUser_accounts]
    exact Service.keygen_new hkey
  · exact Service.keygen_owned hkey

theorem Service.checkJoin_eq_ok :
    s.checkJoin lib q = .ok () ↔ ∃ reg, s.accounts[q.account]? = some reg ∧
      (∃ snap, newSnapshot lib s.params s.ring = .ok snap) ∧ reg.userID ∉ s.revoked ∧
      ∃ snap, newSnapshot lib s.params (s.ring ++ [reg.account]) = .ok snap := by
  unfold Service.checkJoin
  cases hreg : s.accounts[q.account]? with
  | none => simp
  | some reg =>
      simp only [bind_eq_ok, rejectIf_eq_ok, pure_eq_ok, Snapshot.join, Option.some.injEq,
        exists_eq_left']
      constructor
      · rintro ⟨snap, hsnap, _, hrevoked, snap', hsnap', _⟩
        obtain ⟨v, _, rfl⟩ := (newSnapshot_eq_ok lib).1 hsnap
        exact ⟨⟨_, hsnap⟩, hrevoked, snap', hsnap'⟩
      · rintro ⟨⟨snap, hsnap⟩, hrevoked, snap', hsnap'⟩
        obtain ⟨v, _, rfl⟩ := (newSnapshot_eq_ok lib).1 hsnap
        exact ⟨_, hsnap, (), hrevoked, snap', hsnap', trivial⟩

/-- After a join the ring is the checked one in another order, or the old one. -/
theorem Service.ring_join_subperm {reg : Registration} (hreg : s.accounts[q.account]? = some reg) :
    (s.setActive q.account true).ring.Subperm (s.ring ++ [reg.account]) := by
  have hids : (s.setActive q.account true).ringIds.Subperm (s.ringIds ++ [q.account]) := by
    apply Service.nodup_ringIds.subperm
    intro id hid
    have hactive := Service.mem_ringIds.1 hid
    rw [Service.isActive_setActive] at hactive
    rw [List.mem_append, Service.mem_ringIds, List.mem_singleton]
    split_ifs at hactive with heq
    · exact .inr heq.symm
    · exact .inl hactive
  have hring : s.ring ++ [reg.account] =
      (s.ringIds ++ [q.account]).map fun id => (s.registration id).account := by
    simp [Service.ring, Service.registration, hreg]
  rw [hring]
  obtain ⟨kept, hperm, hkept⟩ := hids
  exact ⟨_, hperm.map _, hkept.map _⟩

theorem Service.RingInv.join (h : s.RingInv lib) (hprover : s.prover ≠ none)
    (hcheck : s.checkJoin lib q = .ok ()) : (s.setActive q.account true).RingInv lib := by
  obtain ⟨reg, hreg, _, hrevoked, snap, hsnap⟩ := Service.checkJoin_eq_ok.1 hcheck
  have hcases : ∀ id, (s.setActive q.account true).isActive id = true →
      q.account = id ∨ s.isActive id = true := by
    intro id hid
    rw [Service.isActive_setActive] at hid
    split_ifs at hid with heq
    · exact .inl heq
    · exact .inr hid
  refine ⟨?_, ?_, h.owned, fun hnone => absurd hnone hprover, fun _ => ?_⟩
  · intro id hid
    rcases hcases id hid with rfl | hold
    · exact ⟨reg, hreg⟩
    · exact h.registered id hold
  · intro id reg' hid hreg'
    rcases hcases id hid with rfl | hold
    · obtain rfl : reg = reg' := Option.some.inj (hreg.symm.trans hreg')
      exact hrevoked
    · exact h.unrevoked id reg' hold hreg'
  · exact newSnapshot_subperm lib hsnap (Service.ring_join_subperm hreg)

theorem Service.RingInv.exit (h : s.RingInv lib) (account : String) :
    (s.setActive account false).RingInv lib := by
  have hkept : ∀ id, (s.setActive account false).isActive id = true → s.isActive id = true := by
    intro id hid
    rw [Service.isActive_setActive] at hid
    split_ifs at hid
    exact hid
  refine ⟨fun id hid => h.registered id (hkept id hid),
    fun id reg hid => h.unrevoked id reg (hkept id hid), h.owned, ?_, ?_⟩
  · intro hnone id
    rw [Service.isActive_setActive, h.before_setup hnone id, ite_self]
  · exact h.snapshot_shrink rfl rfl hkept (fun _ _ => rfl)

theorem Service.RingInv.revokeUser (h : s.RingInv lib) (user : String) :
    (s.revokeUser user).RingInv lib := by
  have hkept : ∀ id, (s.revokeUser user).isActive id = true → s.isActive id = true :=
    fun id hid => ((Service.isActive_revokeUser user id).1 hid).1
  refine ⟨fun id hid => h.registered id (hkept id hid), ?_, h.owned, ?_, ?_⟩
  · intro id reg hid hreg hmem
    rcases mem_set_insert.1 hmem with heq | hold
    · exact ((Service.isActive_revokeUser user id).1 hid).2 reg hreg heq
    · exact h.unrevoked id reg (hkept id hid) hreg hold
  · intro hnone id
    apply Bool.eq_false_iff.2
    intro hid
    have hfalse := h.before_setup hnone id
    rw [hkept id hid] at hfalse
    cases hfalse
  · exact h.snapshot_shrink rfl rfl hkept (fun _ _ => rfl)

theorem Service.RingInv.advanceSigner (h : s.RingInv lib) {e : SignEffect}
    (hsign : s.sign lib q c = .ok e) : (s.advanceSigner e).RingInv lib := by
  have hlater (user : String) (old : Signer) (hold : s.users[user]? = some old) :=
    (Change.signer hsign).signer_later hold
  exact ⟨h.registered, h.unrevoked, fun id reg hreg => h.owned_later hlater hreg, h.before_setup,
    h.snapshot⟩

theorem Service.RingInv.ringIds_eq_nil (h : s.RingInv lib) (hnone : s.prover = none) :
    s.ringIds = [] := by
  apply List.eq_nil_iff_forall_not_mem.2
  intro id hid
  have hfalse := h.before_setup hnone id
  rw [Service.mem_ringIds.1 hid] at hfalse
  cases hfalse

/-- The empty ring has a snapshot under every valid setup. -/
theorem Service.RingInv.setup (h : s.RingInv lib) (hnone : s.prover = none) {p : Params}
    (hvalid : validateParams lib p = .ok ()) (prover : Prover zk) (verifier : Verifier zk) :
    Service.RingInv lib
      { s with params := p, prover := some prover, verifier := some verifier } := by
  refine ⟨h.registered, h.unrevoked, h.owned, fun hnot => (by cases hnot), fun _ => ?_⟩
  have hring : s.ring = [] := by rw [Service.ring, h.ringIds_eq_nil hnone, List.map_nil]
  refine ⟨⟨p, s.ring, p.g⟩, (newSnapshot_eq_ok lib).2 ⟨p.g, ?_, rfl⟩⟩
  change accumulate lib p s.ring = .ok p.g
  rw [hring]
  simp [accumulate, hvalid]

theorem Service.RingInv.change (h : s.RingInv lib) (hchange : Change lib s q c s') :
    s'.RingInv lib := by
  cases hchange with
  | user hkey => exact h.addUser hkey
  | signer hsign => exact h.advanceSigner hsign
  | commit hcommit =>
      cases hcommit with
      | setup _ hprover hsetup _ => exact h.setup hprover (validateParams_setup lib hsetup) _ _
      | keygen _ hkey => exact h.keygen hkey
      | join _ hprover hcheck => exact h.join hprover hcheck
      | exit _ _ => exact h.exit _
      | revokeUser _ _ => exact h.revokeUser _
      | sign _ hsign _ =>
          have hadvanced := h.advanceSigner hsign
          exact ⟨hadvanced.registered, hadvanced.unrevoked, hadvanced.owned,
            hadvanced.before_setup, hadvanced.snapshot⟩
      | verify _ _ => exact ⟨h.registered, h.unrevoked, h.owned, h.before_setup, h.snapshot⟩

/-- What every change of a service preserves, and a start and a loaded setup establish, holds of
every service a run reaches. -/
theorem World.service_invariant {P : Service zk → Prop}
    (hstart : ∀ (path : String) (l : Ledger), P { newService zk path with toLedger := l })
    (hchange : ∀ s q c s', Change lib s q c s' → P s → P s')
    (hload : ∀ s s' loaded, s.loadSetup lib loaded = .ok s' → P s → P s')
    {w w' : World zk} (hstep : WorldStep lib w w') (h : P w.machine.service) :
    P w'.machine.service := by
  cases hstep with
  | same => exact h
  | refuse _ _ => exact h
  | restart _ _ => exact hstart _ _
  | answer q c =>
      rcases (@run_step lib zk w.machine q c).change with hsame | hchanged
      · dsimp only
        rwa [hsame]
      · exact hchange _ _ _ _ hchanged h
  | loadSetup hloaded => exact hload _ _ _ hloaded h

theorem Service.RingInv.step {w w' : World zk} (hstep : WorldStep lib w w')
    (h : w.machine.service.RingInv lib) : w'.machine.service.RingInv lib := by
  refine World.service_invariant (P := Service.RingInv lib) (fun _ _ => .of_ledger)
    (fun _ _ _ _ hchange h => h.change hchange) ?_ hstep h
  intro s s' loaded hload hs
  obtain ⟨hnone, l, _, rfl⟩ := Service.loadSetup_eq_ok.1 hload
  exact hs.setup hnone l.valid _ _

theorem Service.RingInv.after (path : StatePath) (events : List (ServiceEvent lib zk)) :
    (World.after path events).machine.service.RingInv lib :=
  World.after_invariant (fun w => w.machine.service.RingInv lib) .of_ledger
    (fun _ _ hstep h => h.step hstep) events

/-! ## Revocation -/

/-- What every change and a loaded setup relate is related along a run without a restart. -/
theorem World.process_relation {R : Service zk → Service zk → Prop} (hrefl : ∀ s, R s s)
    (htrans : ∀ s t u, R s t → R t u → R s u)
    (hchange : ∀ s q c s', Change lib s q c s' → R s s')
    (hload : ∀ s s' loaded, s.loadSetup lib loaded = .ok s' → R s s')
    (events : List (ServiceEvent lib zk)) :
    ∀ w : World zk, .restart ∉ events →
      R w.machine.service (run (World.step lib) w events).machine.service := by
  have hstep (w : World zk) (e : ServiceEvent lib zk) (he : e ≠ .restart) :
      R w.machine.service (w.step lib e).machine.service := by
    cases e with
    | restart => exact absurd rfl he
    | request raw c =>
        rw [World.step]
        split
        · exact hrefl _
        · unfold World.serve Machine.handle
          cases decodeRequest raw with
          | error e => exact hrefl _
          | ok q =>
              rcases (@run_step lib zk w.machine q c).change with hsame | hchanged
              · dsimp only
                rw [hsame]
                exact hrefl _
              · exact hchange _ _ _ _ hchanged
    | loadSetup loaded =>
        rw [World.step]
        split
        · exact hrefl _
        · cases hloaded : w.machine.service.loadSetup lib loaded with
          | error e => exact hrefl _
          | ok s => exact hload _ _ _ hloaded
  -- one event without a restart is related, and the relation composes
  induction events with
  | nil =>
      intro w _
      exact hrefl _
  | cons e events ih =>
      intro w hnot
      rw [List.mem_cons, not_or] at hnot
      exact htrans _ _ _ (hstep w e (Ne.symm hnot.1)) (ih _ hnot.2)

/-- Within one process the ledger only grows. -/
theorem World.run_ledger_le (events : List (ServiceEvent lib zk)) (w : World zk)
    (hnot : .restart ∉ events) :
    w.machine.service.toLedger ≤ (run (World.step lib) w events).machine.service.toLedger := by
  apply World.process_relation (R := fun s s' => s.toLedger ≤ s'.toLedger) (fun _ => le_refl _)
    (fun _ _ _ => le_trans) (fun _ _ _ _ h => h.ledger_le) _ events w hnot
  intro s s' loaded hload
  obtain ⟨_, l, _, rfl⟩ := Service.loadSetup_eq_ok.1 hload
  exact le_refl _

/-- While a user is revoked, none of its accounts is active and no `keygen`, `join` or `sign` for
it succeeds. -/
structure Service.Blocks (lib : GnarkCrypto) (m : Machine zk) (user : String) : Prop where
  inactive : ∀ (id : String) (reg : Registration), m.service.isActive id = true →
    m.service.accounts[id]? = some reg → reg.userID ≠ user
  keygen : ∀ (q : Request) (c : Choices), operationOf q.op = .keygen → q.user = user →
    (m.run lib q c).response.ok = false
  join_sign : ∀ (q : Request) (c : Choices) (reg : Registration),
    operationOf q.op = .join ∨ operationOf q.op = .sign →
    m.service.accounts[q.account]? = some reg → reg.userID = user →
    (m.run lib q c).response.ok = false

/-- The account of a signature that was made is active. -/
theorem Service.sign_active {e : SignEffect} (h : s.sign lib q c = .ok e) :
    s.isActive q.account = true := by
  obtain ⟨_, j, _, _, _, hj, _⟩ := Service.sign_eq_ok.1 h
  exact Service.mem_ringIds.1 (List.mem_of_getElem? hj)

theorem Service.RingInv.blocks {m : Machine zk} (h : m.service.RingInv lib) {user : String}
    (hrevoked : user ∈ m.service.revoked) : Service.Blocks lib m user := by
  have hinactive : ∀ (id : String) (reg : Registration), m.service.isActive id = true →
      m.service.accounts[id]? = some reg → reg.userID ≠ user := by
    intro id reg hid hreg heq
    exact h.unrevoked id reg hid hreg (heq ▸ hrevoked)
  refine ⟨hinactive, ?_, ?_⟩
  · intro q c hop huser
    apply Bool.eq_false_iff.2
    intro hok
    have hspec := ((@run_step lib zk m q c).commit_of_ok (by rw [hop]; rfl)
      ((Outcome.response_ok _).1 hok)).spec
    simp only [hop] at hspec
    obtain ⟨_, _, hkey, _⟩ := hspec
    exact (Service.keygen_eq_ok.1 hkey).2.2.1 (huser ▸ hrevoked)
  · intro q c reg hop hreg howner
    apply Bool.eq_false_iff.2
    intro hok
    have hread : (operationOf q.op).readOnly = false := by
      rcases hop with hop | hop <;> rw [hop] <;> rfl
    have hspec := ((@run_step lib zk m q c).commit_of_ok hread ((Outcome.response_ok _).1 hok)).spec
    rcases hop with hop | hop
    · simp only [hop] at hspec
      -- a join checks the owner of the account itself, a signature needs the account in the ring
      obtain ⟨reg', hreg', _, hnot, _⟩ := Service.checkJoin_eq_ok.1 hspec.1
      obtain rfl : reg = reg' := Option.some.inj (hreg.symm.trans hreg')
      exact hnot (howner ▸ hrevoked)
    · simp only [hop] at hspec
      obtain ⟨_, _, hsign, _⟩ := hspec
      exact hinactive _ reg (Service.sign_active hsign) hreg howner

/-- The request revokes its user: the setup is complete and the user is known. -/
def Service.Revokes (s : Service zk) (q : Request) : Prop :=
  operationOf q.op = .revokeUser ∧ s.prover ≠ none ∧ s.users[q.user]?.isSome = true

theorem run_revokeUser {m : Machine zk} (h : m.service.Revokes q) :
    q.user ∈ (m.run lib q c).machine.service.revoked := by
  obtain ⟨hop, hprover, huser⟩ := h
  have hneeds : (operationOf q.op).needsSetup = true := by rw [hop]; rfl
  have hservice : (m.run lib q c).machine.service = m.service.revokeUser q.user := by
    rw [run_of_setup hneeds hprover]
    unfold Machine.runAfterSetup
    rw [hop]
    dsimp only [Machine.runRevokeUser]
    rw [if_pos huser]
    exact Machine.persistState_service _ _
  rw [hservice]
  exact mem_set_insert.2 (.inl rfl)

/-- A run that goes on after a request. -/
theorem World.after_request (path : StatePath) (events more : List (ServiceEvent lib zk))
    (raw : List UInt8) (c : Choices) :
    World.after path (events ++ .request raw c :: more) =
      run (World.step lib) ((World.after path events).serve lib raw c) more := by
  have hrunning := (World.LedgerInv.after path events).running
  rw [World.after_append, run_cons, World.step, hrunning]
  rfl

theorem World.serve_machine (w : World zk) {raw : List UInt8} (c : Choices)
    (hq : decodeRequest raw = .ok q) :
    (w.serve lib raw c).machine = (w.machine.run lib q c).machine := by
  simp only [World.serve, Machine.handle, hq]

/-- A user that was revoked in a run is revoked from then on: to the end of the process, and to the
end of the run when the revocation was acknowledged. -/
theorem World.revoked_after (path : StatePath) (events more : List (ServiceEvent lib zk))
    {raw : List UInt8} (hq : decodeRequest raw = .ok q)
    (hrevokes : (World.after path events).machine.service.Revokes q)
    (hmore : ((World.after path events).machine.run lib q c).response.ok = true ∨
      .restart ∉ more) :
    q.user ∈ (World.after path (events ++ .request raw c :: more)).machine.service.revoked := by
  rw [World.after_request]
  rcases hmore with hok | hnot
  · -- the acknowledged request is recorded in every later ledger
    have hinv := World.LedgerInv.after path (events ++ .request raw c :: more)
    rw [World.after_request] at hinv
    have hanswer : (q, ((World.after path events).machine.run lib q c).response) ∈
        ((World.after path events).serve lib raw c).answers := by
      simp [World.serve, Machine.handle, hq]
    have hrecords := hinv.memory q
      (World.mem_acked.2 ⟨_, World.answers_run _ more hanswer, hok⟩)
    rw [Ledger.Records, hrevokes.1] at hrecords
    exact hrecords
  · -- no process ends, so the memory only grows
    have hfirst : q.user ∈ ((World.after path events).serve lib raw c).machine.service.revoked := by
      rw [World.serve_machine _ c hq]
      exact run_revokeUser hrevokes
    exact (World.run_ledger_le more _ hnot).2.1 _ hfirst

/-! ## The whole invariant -/

/-- The ring in every reachable state. -/
structure Service.RingSound (lib : GnarkCrypto) (s : Service zk) : Prop where
  registered : ∀ id, s.isActive id = true →
    ∃ reg, s.accounts[id]? = some reg ∧ reg.userID ∉ s.revoked
  handles : (∀ a ∈ s.ring, ∃ m, member lib a = .ok m) ∧
    s.ring.Pairwise fun a b => member lib a ≠ member lib b
  capacity : s.ringIds.length ≤ s.params.capacity
  snapshot : s.prover ≠ none → ∃ snap, newSnapshot lib s.params s.ring = .ok snap
  owned : ∀ (id : String) (reg : Registration), s.accounts[id]? = some reg →
    ∃ signer, s.users[reg.userID]? = some signer ∧
      reg.account.y = lib.secp.scalarMultiplication reg.account.u signer.x

theorem Service.RingInv.sound (h : s.RingInv lib) : s.RingSound lib := by
  have hring : (∀ a ∈ s.ring, member lib a = .ok (handle a)) ∧ (s.ring.map handle).Nodup ∧
      s.ring.length ≤ s.params.capacity := by
    by_cases hnone : s.prover = none
    · simp [Service.ring, h.ringIds_eq_nil hnone]
    · obtain ⟨snap, hsnap⟩ := h.snapshot hnone
      obtain ⟨v, hv, _⟩ := (newSnapshot_eq_ok lib).1 hsnap
      exact accumulate_members lib hv
  obtain ⟨hmember, hnodup, hlen⟩ := hring
  refine ⟨?_, ⟨fun a ha => ⟨_, hmember a ha⟩, ?_⟩, ?_, h.snapshot, ?_⟩
  · intro id hid
    obtain ⟨reg, hreg⟩ := h.registered id hid
    exact ⟨reg, hreg, h.unrevoked id reg hid hreg⟩
  · refine (List.pairwise_map.1 hnodup).imp_of_mem ?_
    intro a b ha hb hne heq
    rw [hmember a ha, hmember b hb] at heq
    exact hne (Except.ok.inj heq)
  · rwa [Service.length_ring] at hlen
  · intro id reg hreg
    obtain ⟨signer, hsigner, _, d, _, haccount⟩ := h.owned id reg hreg
    refine ⟨signer, hsigner, ?_⟩
    rw [haccount, accountOf, lib.secp.scalarMultiplication_exp]

theorem Service.addUser_prover (s : Service zk) (user : String) (signer : Option Signer) :
    (s.addUser user signer).prover = s.prover := by
  cases signer <;> rfl

/-- A setup request makes room for as many accounts as it asks for. -/
theorem run_setup_capacity {m : Machine zk} (hnone : m.service.prover = none)
    (hsome : (m.run lib q c).machine.service.prover ≠ none) :
    ((m.run lib q c).machine.service.params.capacity : ℤ) = q.capacity := by
  rcases (@run_step lib zk m q c).change with hsame | hchange
  · rw [hsame] at hsome
    exact absurd hnone hsome
  · generalize (m.run lib q c).machine.service = s' at hchange hsome ⊢
    cases hchange with
    | user hkey =>
        rw [Service.addUser_prover] at hsome
        exact absurd hnone hsome
    | signer hsign => exact absurd hnone hsome
    | commit hcommit =>
        cases hcommit with
        | setup _ _ hsetup _ =>
            obtain ⟨hmin, _, _, _, rfl⟩ := (setup_eq_ok lib).1 hsetup
            simp only [Params.capacity, length_powers_srs]
            omega
        | keygen _ hkey =>
            exact absurd hnone ((Service.addUser_prover _ _ _).symm.trans_ne hsome)
        | join _ hprover _ => exact absurd hnone hprover
        | exit _ _ => exact absurd hnone hsome
        | revokeUser _ _ => exact absurd hnone hsome
        | sign _ _ _ => exact absurd hnone hsome
        | verify _ _ => exact absurd hnone hsome

/-- The ring and revocation invariant of every run: the ring is sound in every state, within the
capacity of its setup; and a user that was revoked stays blocked, to the end of the process and,
when the revocation was acknowledged, through every restart. -/
theorem ring_invariant (path : StatePath) (events : List (ServiceEvent lib zk)) :
    (World.after path events).machine.service.RingSound lib ∧
      (∀ (q : Request) (c : Choices), (World.after path events).machine.service.prover = none →
        ((World.after path events).machine.run lib q c).machine.service.prover ≠ none →
        (((World.after path events).machine.run lib q c).machine.service.params.capacity : ℤ) =
          q.capacity) ∧
      ∀ (raw : List UInt8) (q : Request) (c : Choices) (more : List (ServiceEvent lib zk)),
        decodeRequest raw = .ok q → (World.after path events).machine.service.Revokes q →
        (((World.after path events).machine.run lib q c).response.ok = true ∨ .restart ∉ more) →
        Service.Blocks lib (World.after path (events ++ .request raw c :: more)).machine
          q.user := by
  refine ⟨(Service.RingInv.after path events).sound, ?_, ?_⟩
  · intro q c hnone hsome
    exact run_setup_capacity hnone hsome
  · intro raw q c more hq hrevokes hmore
    apply (Service.RingInv.after path _).blocks
    exact World.revoked_after path events more hq hrevokes hmore

end Lktrs.NativeProof
