import Lktrs.NativeProof.HashInputs
import Lktrs.NativeProof.HostCircuit
import Lktrs.NativeProof.ServiceRing

/-!
# Signing and verifying across ring changes

A signature is made for the ring of the moment, and `verify` rebuilds the
context from the ring it finds. Within one process the parameters, the keys and
the registered accounts stay what they are (`Service.Extends`), and the ring
lists the active accounts in a fixed order. So the context is the one of the
signature exactly when the active accounts are the same; otherwise the ring
digest in the statement differs (`sign_verify_agree`).
-/

set_option autoImplicit false

namespace Lktrs.NativeProof

open Lktrs.Foundation
open Std (ExtTreeMap ExtTreeSet)

variable {lib : GnarkCrypto} {zk : Groth16} {s s' : Service zk} {q : Request} {c : Choices}

/-! ## What stays within a process -/

/-- A later state of the same process. -/
structure Service.Extends (s s' : Service zk) : Prop where
  keys : s.prover ≠ none →
    s'.params = s.params ∧ s'.prover = s.prover ∧ s'.verifier = s.verifier
  accounts : ∀ (id : String) (reg : Registration), s.accounts[id]? = some reg →
    s'.accounts[id]? = some reg
  ledger : s.toLedger ≤ s'.toLedger

theorem Service.Extends.refl (s : Service zk) : s.Extends s :=
  ⟨fun _ => ⟨rfl, rfl, rfl⟩, fun _ _ h => h, le_refl _⟩

theorem Service.Extends.trans {t : Service zk} (h : s.Extends t) (h' : t.Extends s') :
    s.Extends s' := by
  refine ⟨?_, fun id reg hreg => h'.accounts id reg (h.accounts id reg hreg),
    h.ledger.trans h'.ledger⟩
  intro hprover
  obtain ⟨hparams, hp, hv⟩ := h.keys hprover
  obtain ⟨hparams', hp', hv'⟩ := h'.keys (hp ▸ hprover)
  exact ⟨hparams'.trans hparams, hp'.trans hp, hv'.trans hv⟩

theorem Service.addUser_keys (s : Service zk) (user : String) (signer : Option Signer) :
    (s.addUser user signer).params = s.params ∧ (s.addUser user signer).prover = s.prover ∧
      (s.addUser user signer).verifier = s.verifier := by
  cases signer with
  | none => exact ⟨rfl, rfl, rfl⟩
  | some signer => exact ⟨rfl, rfl, rfl⟩

/-- Accounts are only added under new names, and a setup is made once. -/
theorem Change.extends (h : Change lib s q c s') : s.Extends s' := by
  have hledger := h.ledger_le
  cases h with
  | user hkey =>
      refine ⟨fun _ => Service.addUser_keys _ _ _, ?_, hledger⟩
      intro id reg hreg
      rw [Service.addUser_accounts]
      exact hreg
  | signer hsign => exact ⟨fun _ => ⟨rfl, rfl, rfl⟩, fun _ _ h => h, hledger⟩
  | commit hcommit =>
      cases hcommit with
      | setup _ hprover _ _ => exact ⟨fun hne => absurd hprover hne, fun _ _ h => h, hledger⟩
      | keygen _ hkey =>
          refine ⟨fun _ => Service.addUser_keys _ _ _, ?_, hledger⟩
          intro id reg hreg
          have hne : q.account ≠ id := by
            rintro rfl
            rw [Service.keygen_new hkey] at hreg
            cases hreg
          simp only [Service.addAccount, getElem?_insert_of_ne hne, Service.addUser_accounts]
          exact hreg
      | _ => exact ⟨fun _ => ⟨rfl, rfl, rfl⟩, fun _ _ h => h, hledger⟩

theorem World.run_extends (events : List (ServiceEvent lib zk)) (w : World zk)
    (hnot : .restart ∉ events) :
    w.machine.service.Extends (run (World.step lib) w events).machine.service := by
  apply World.process_relation Service.Extends.refl (fun _ _ _ => Service.Extends.trans)
    (fun _ _ _ _ h => h.extends) _ events w hnot
  intro s s' loaded hload
  obtain ⟨hnone, l, _, rfl⟩ := Service.loadSetup_eq_ok.1 hload
  exact ⟨fun hne => absurd hnone hne, fun _ _ h => h, le_refl _⟩

/-! ## The keys of a service -/

/-- Prover and verifier come together and carry the same digests. -/
structure Service.KeysMatch (s : Service zk) : Prop where
  both : s.prover ≠ none → s.verifier ≠ none
  same : ∀ (p : Prover zk) (v : Verifier zk), s.prover = some p → s.verifier = some v →
    p.circuitHash = v.circuitHash ∧ p.keyID = v.keyID

theorem Service.KeysMatch.congr (h : s.KeysMatch) (hp : s'.prover = s.prover)
    (hv : s'.verifier = s.verifier) : s'.KeysMatch := by
  constructor
  · rw [hp, hv]
    exact h.both
  · rw [hp, hv]
    exact h.same

theorem newBackend_hashes {randomness : ℕ} {p : Prover zk} {v : Verifier zk}
    (h : newBackend zk randomness = .ok (p, v)) :
    p.circuitHash = v.circuitHash ∧ p.keyID = v.keyID := by
  simp only [newBackend, bind_eq_ok, pure_eq_ok, Prod.exists, Prod.mk.injEq] at h
  obtain ⟨_, _, _, _, _, _, _, _, _, rfl, rfl⟩ := h
  exact ⟨rfl, rfl⟩

theorem Service.KeysMatch.of_pair {p : Prover zk} {v : Verifier zk} (hp : s.prover = some p)
    (hv : s.verifier = some v) (h : p.circuitHash = v.circuitHash ∧ p.keyID = v.keyID) :
    s.KeysMatch := by
  constructor
  · intro _ hnone
    rw [hv] at hnone
    cases hnone
  · intro p' v' hp' hv'
    rw [hp] at hp'
    rw [hv] at hv'
    cases hp'
    cases hv'
    exact h

theorem Service.KeysMatch.change (h : s.KeysMatch) (hchange : Change lib s q c s') :
    s'.KeysMatch := by
  cases hchange with
  | user hkey =>
      obtain ⟨_, hp, hv⟩ := Service.addUser_keys s q.user _
      exact h.congr hp hv
  | signer hsign => exact h.congr rfl rfl
  | commit hcommit =>
      cases hcommit with
      | setup _ _ _ hbackend => exact .of_pair rfl rfl (newBackend_hashes hbackend)
      | keygen _ hkey =>
          obtain ⟨_, hp, hv⟩ := Service.addUser_keys s q.user _
          exact h.congr hp hv
      | _ => exact h.congr rfl rfl

theorem Service.KeysMatch.after (path : StatePath) (events : List (ServiceEvent lib zk)) :
    (World.after path events).machine.service.KeysMatch := by
  have hfresh (text : String) (l : Ledger) :
      Service.KeysMatch { newService zk text with toLedger := l } :=
    ⟨fun hne => absurd rfl hne, nofun⟩
  apply World.after_invariant (fun w : World zk => w.machine.service.KeysMatch) (hfresh _ _)
  intro w w' hstep h
  apply World.service_invariant hfresh (fun _ _ _ _ hchange h => h.change hchange) _ hstep h
  intro s s' loaded hload _
  obtain ⟨_, l, _, rfl⟩ := Service.loadSetup_eq_ok.1 hload
  exact .of_pair rfl rfl ⟨l.circuitHash_eq, l.keyID_eq⟩

/-! ## The ring of a set of active accounts -/

/-- The listing of the ring is determined by the active accounts. -/
theorem Service.ringIds_congr (h : ∀ id, s'.isActive id = s.isActive id) :
    s'.ringIds = s.ringIds := by
  have hperm : s'.ringIds.Perm s.ringIds := by
    rw [List.perm_ext_iff_of_nodup Service.nodup_ringIds Service.nodup_ringIds]
    intro id
    rw [Service.mem_ringIds, Service.mem_ringIds, h id]
  refine hperm.eq_of_pairwise ?_ Service.sorted_ringIds Service.sorted_ringIds
  intro a b _ _ hab hba
  rw [@Std.OrientedCmp.eq_swap String compare _ a b, hba] at hab
  cases hab

/-- An account that was active is registered as before. -/
theorem Service.Extends.registration_eq (h : s.Extends s') (hinv : s.RingInv lib) {id : String}
    (hid : s.isActive id = true) : s'.registration id = s.registration id := by
  obtain ⟨reg, hreg⟩ := hinv.registered id hid
  rw [Service.registration, Service.registration, hreg, h.accounts id reg hreg]

theorem Service.Extends.ring_eq (h : s.Extends s') (hinv : s.RingInv lib)
    (hactive : ∀ id, s'.isActive id = s.isActive id) : s'.ring = s.ring := by
  rw [Service.ring, Service.ring, Service.ringIds_congr hactive]
  apply List.map_congr_left
  intro id hid
  rw [h.registration_eq hinv (Service.mem_ringIds.1 hid)]

/-- No two registered accounts have the same pair of points. -/
def Service.DistinctKeys (s : Service zk) : Prop :=
  ∀ (id id' : String) (reg reg' : Registration), s.accounts[id]? = some reg →
    s.accounts[id']? = some reg' → reg.account.u = reg'.account.u →
      reg.account.y = reg'.account.y → id = id'

theorem eq_of_map_eq_of_injOn {α β : Type} {f : α → β} {P : α → Prop}
    (hf : ∀ a b, P a → P b → f a = f b → a = b) : ∀ {l l' : List α}, (∀ a ∈ l, P a) →
      (∀ a ∈ l', P a) → l.map f = l'.map f → l = l' := by
  intro l
  induction l with
  | nil =>
      intro l' _ _ h
      exact (List.map_eq_nil_iff.1 h.symm).symm
  | cons a l ih =>
      intro l' hl hl' h
      cases l' with
      | nil => cases h
      | cons b l' =>
          rw [List.forall_mem_cons] at hl hl'
          obtain ⟨hhead, htail⟩ := List.cons.inj h
          rw [hf a b hl.1 hl'.1 hhead, ih hl.2 hl'.2 htail]

/-- Two states of a process whose rings have the same points have the same active accounts. -/
theorem Service.Extends.ringIds_eq (h : s.Extends s') (hinv : s.RingInv lib)
    (hinv' : s'.RingInv lib) (hkeys : s'.DistinctKeys)
    (hring : s.ring.map (fun a => (a.u, a.y)) = s'.ring.map fun a => (a.u, a.y)) :
    s.ringIds = s'.ringIds := by
  have hsame : s.ring = s.ringIds.map fun id => (s'.registration id).account := by
    apply List.map_congr_left
    intro id hid
    rw [h.registration_eq hinv (Service.mem_ringIds.1 hid)]
  rw [hsame, Service.ring, List.map_map, List.map_map] at hring
  refine eq_of_map_eq_of_injOn (P := fun id => ∃ reg, s'.accounts[id]? = some reg) ?_ ?_ ?_ hring
  · rintro id id' ⟨reg, hreg⟩ ⟨reg', hreg'⟩ hpoints
    simp only [Function.comp_apply, Service.registration, hreg, hreg', Option.getD_some,
      Prod.mk.injEq] at hpoints
    exact hkeys id id' reg reg' hreg hreg' hpoints.1 hpoints.2
  · intro id hid
    obtain ⟨reg, hreg⟩ := hinv.registered id (Service.mem_ringIds.1 hid)
    exact ⟨reg, h.accounts id reg hreg⟩
  · intro id hid
    exact hinv'.registered id (Service.mem_ringIds.1 hid)

/-! ## Signatures -/

theorem assignment_public {p : Params} {st : Statement} {w : SecretWitness} {a : Circuit}
    (h : assignment lib p st w = .ok a) : publicAssignment lib p st = .ok a.toPublicInputs := by
  obtain ⟨x, d, account, witness, counter⟩ := w
  cases x with
  | none => cases h
  | some x =>
      cases d with
      | none => cases h
      | some d =>
          simp only [assignment, bind_eq_ok, pure_eq_ok] at h
          obtain ⟨pub, hpub, rfl⟩ := h
          exact hpub

/-- Every proof the prover writes passes the shape check, is read back without a rest and is
accepted for the public part of its assignment. -/
def Prover.AcceptedBy (prover : Prover zk) (verifier : Verifier zk) : Prop :=
  ∀ (a : Circuit) (randomness : ℕ) (proof : zk.ProofValue) (data : List UInt8),
    zk.prove prover.cs prover.pk a randomness = .ok proof → zk.writeProof proof = .ok data →
      preflightProof data (zk.commitmentKeys verifier.vk) = .ok () ∧
        ∃ read, zk.readProof data = .ok (read, []) ∧
          zk.verify read verifier.vk a.toPublicInputs = .ok ()

/-- What a call of `sign` made: a statement for the ring of the service, and its proof. -/
theorem Service.sign_made {e : SignEffect} (h : s.sign lib q c = .ok e) :
    ∃ r prover i x d k st w, s.signedRequest lib q true = .ok r ∧ e.issue = r.issue ∧
      s.prover = some prover ∧
      makeStatement lib s.params s.ring i x d r.issue (sha256 r.message) q.timestamp q.k k =
        .ok (st, w) ∧
      prover.prove lib s.params st w c.proverRandomness = .ok e.signed := by
  obtain ⟨r, j, snap, signer, hr, _, _, hsnap, _, hsign, hissue, _⟩ := Service.sign_eq_ok.1 h
  obtain ⟨_, _, _, _, prover, d, st, w, hprover, _, hmake, hprove⟩ := (Signer.sign_eq_ok lib).1 hsign
  obtain ⟨v, _, rfl⟩ := (newSnapshot_eq_ok lib).1 hsnap
  exact ⟨r, prover, _, _, d, _, st, w, hr, hissue, hprover, hmake, hprove⟩

theorem Prover.prove_eq_ok {p : Prover zk} {params : Params} {st : Statement} {w : SecretWitness}
    {randomness : ℕ} {signed : Signed} :
    p.prove lib params st w randomness = .ok signed ↔
      ∃ a proof data, assignment lib params st w = .ok a ∧
        zk.prove p.cs p.pk a randomness = .ok proof ∧ zk.writeProof proof = .ok data ∧
        signed = ⟨st, ⟨circuitVersion, p.circuitHash, p.keyID, data⟩⟩ := by
  simp only [Prover.prove, bind_eq_ok, pure_eq_ok]
  constructor
  · rintro ⟨a, ha, proof, hproof, data, hdata, rfl⟩
    exact ⟨a, proof, data, ha, hproof, hdata, rfl⟩
  · rintro ⟨a, proof, data, ha, hproof, hdata, rfl⟩
    exact ⟨a, ha, proof, hproof, data, hdata, rfl⟩

/-! ## Agreement -/

/-- With the ring of the signature, the verifier of the same process accepts its envelope. -/
theorem Service.verify_of_same_ring {e : SignEffect} (hsign : s.sign lib q c = .ok e)
    {enc : List UInt8} (hmarshal : marshalSigned lib e.signed = .ok enc) (hkeys : s.KeysMatch)
    (hproofs : ∀ p v, s.prover = some p → s.verifier = some v → p.AcceptedBy v)
    (hext : s.Extends s') (hring : s'.ring = s.ring) (hpinned : s'.policies[e.issue]? = some q.k)
    {q' : Request} (hissue : q'.issue = q.issue) (hk : q'.k = q.k)
    (hmessage : q'.message = q.message) (hsignature : q'.signature = base64Encode enc)
    (hfresh : sha256 enc ∉ s'.seen) : s'.verify lib q' = .ok (sha256 enc) := by
  obtain ⟨r, prover, i, x, d, k, st, w, hr, hissue', hprover, hmake, hprove⟩ :=
    Service.sign_made hsign
  obtain ⟨hissueText, hmessageText, hpolicy, hctx⟩ := Service.signedRequest_eq_ok.1 hr
  obtain ⟨hk0, _⟩ := Service.policy_eq_ok.1 hpolicy
  obtain ⟨a, proof, data, ha, hproof, hdata, hsigned⟩ := Prover.prove_eq_ok.1 hprove
  have hprover' : s.prover ≠ none := by simp [hprover]
  obtain ⟨v, hv⟩ := Option.ne_none_iff_exists'.1 (hkeys.both hprover')
  obtain ⟨hparams, _, hverifier⟩ := hext.keys hprover'
  obtain ⟨hcircuit, hkeyID⟩ := hkeys.same prover v hprover hv
  obtain ⟨hpreflight, read, hread, haccepted⟩ :=
    hproofs prover v hprover hv a _ proof data hproof hdata
  -- the envelope carries a proof of admissible length
  have hlength : data.length ≠ 0 ∧ data.length ≤ maxProofBytes := by
    rw [hsigned] at hmarshal
    simp only [marshalSigned, bind_eq_ok, rejectIf_eq_ok, not_or, not_lt, gt_iff_lt] at hmarshal
    obtain ⟨_, ⟨_, hne, hle⟩, _⟩ := hmarshal
    exact ⟨hne, hle⟩
  have hctxParams : r.ctx.params = s.params := by
    obtain ⟨_, _, _, _, _, hfields⟩ := (newVerificationContext_eq_ok lib).1 hctx
    rw [hfields]
  have hverify : v.verify lib r.ctx r.message e.signed = .ok () := by
    rw [hsigned]
    refine (NativeProof.verify_eq_ok lib).2 ⟨⟨rfl, hcircuit, hkeyID⟩, ?_, hlength, hpreflight, read, _, hread,
      ?_, haccepted⟩
    · exact check_of_makeStatement lib hctx ((makeStatement_eq_ok lib).1 hmake)
    · rw [hctxParams]
      exact assignment_public ha
  apply Service.verify_eq_ok.2
  refine ⟨r, enc, e.signed, v, ?_, ?_, unmarshalSigned_marshalSigned lib hmarshal, hfresh,
    hverifier.trans hv, hverify, rfl⟩
  · apply Service.signedRequest_eq_ok.2
    rw [hissue, hk, hmessage, hring, hparams]
    exact ⟨hissueText, hmessageText,
      Service.policy_eq_ok.2 ⟨hk0, .inl (hissue' ▸ hpinned)⟩, hctx⟩
  · exact decodeB64_eq_ok.2 hsignature

/-- An envelope is accepted only for a ring with the points of the signature's ring. -/
theorem Service.ring_of_verify {e : SignEffect} (hsign : s.sign lib q c = .ok e)
    {enc : List UInt8} (hmarshal : marshalSigned lib e.signed = .ok enc) {q' : Request}
    (hsignature : q'.signature = base64Encode enc) {digest : FixedBytes 32}
    (hverify : s'.verify lib q' = .ok digest)
    (hsha : sha256 (ringInput s.ring) = sha256 (ringInput s'.ring) →
      ringInput s.ring = ringInput s'.ring) :
    s.ring.map (fun a => (a.u, a.y)) = s'.ring.map fun a => (a.u, a.y) := by
  obtain ⟨_, _, _, _, _, _, st, w, _, _, _, hmake, hprove⟩ := Service.sign_made hsign
  obtain ⟨_, _, _, _, _, _, hsigned⟩ := Prover.prove_eq_ok.1 hprove
  obtain ⟨r', enc', signed', v, hr', henc', hsigned', _, _, hok, _⟩ := Service.verify_eq_ok.1 hverify
  obtain rfl : enc = enc' := by
    rw [hsignature] at henc'
    exact base64Encode_inj (decodeB64_eq_ok.1 henc')
  obtain rfl : e.signed = signed' :=
    Except.ok.inj ((unmarshalSigned_marshalSigned lib hmarshal).symm.trans hsigned')
  obtain ⟨_, _, _, hctx⟩ := Service.signedRequest_eq_ok.1 hr'
  obtain ⟨_, _, _, rd, hrd, hfields⟩ := (newVerificationContext_eq_ok lib).1 hctx
  -- the digest in the statement is that of the ring it was made for, and the context compares it
  have hchecked := (check_eq_ok lib).1 ((NativeProof.verify_eq_ok lib).1 hok).2.1
  have hmade := ((makeStatement_eq_ok lib).1 hmake).ringDigest_eq
  obtain ⟨⟨ms, hms⟩, hdigest⟩ := (ringDigest_eq_ok lib).1 hmade
  obtain ⟨⟨ms', hms'⟩, hdigest'⟩ := (ringDigest_eq_ok lib).1 hrd
  obtain ⟨_, hlen, _⟩ := (membersOf_eq_map lib).1 hms
  obtain ⟨_, hlen', _⟩ := (membersOf_eq_map lib).1 hms'
  have hsame := hchecked.ringDigest_eq
  rw [hsigned, hfields] at hsame
  apply ringInput_inj (by omega) (by omega)
  apply hsha
  rw [← hdigest, ← hdigest']
  exact hsame

/-- A `verify` whose checks pass is answered as verified once its digest is persisted. -/
theorem run_verify_ok {m : Machine zk} {digest : FixedBytes 32} (hop : operationOf q.op = .verify)
    (hprover : m.service.prover ≠ none) (hverify : m.service.verify lib q = .ok digest)
    (hpersist : c.persist = .success) :
    (m.run lib q c).response.ok = true ∧ (m.run lib q c).response.verified = true := by
  have hnone : (Machine.persistState { m with service := m.service.consume digest } c.persist).1 =
      none :=
    Machine.persistState_fst_eq_none.2 (.inr hpersist)
  rw [Outcome.response_ok, Outcome.response_verified, run_of_verify hop hprover]
  dsimp only [Machine.runVerify]
  rw [hverify]
  dsimp only [Machine.commit]
  rw [hnone]
  exact ⟨rfl, rfl⟩

/-- A released envelope is accepted, in every later state of the process in which it was not
consumed, exactly while the active accounts are those it was signed for. -/
theorem sign_verify_agree (path : StatePath) (events more : List (ServiceEvent lib zk))
    (raw : List UInt8) (q q' : Request) (c c' : Choices) (w w' : World zk)
    (hw : World.after path events = w)
    (hw' : World.after path (events ++ .request raw c :: more) = w') (hmore : .restart ∉ more)
    (hq : decodeRequest raw = .ok q) (hop : operationOf q.op = .sign)
    (hsigned : (w.machine.run lib q c).response.ok = true)
    (hop' : operationOf q'.op = .verify) (hissue : q'.issue = q.issue) (hk : q'.k = q.k)
    (hmessage : q'.message = q.message)
    (hsignature : q'.signature = (w.machine.run lib q c).response.signature)
    (hfresh : ∀ enc, decodeB64 q'.signature = .ok enc → sha256 enc ∉ w'.machine.service.seen)
    (hproofs : ∀ p v, w.machine.service.prover = some p → w.machine.service.verifier = some v →
      p.AcceptedBy v)
    (hkeys : w'.machine.service.DistinctKeys)
    (hsha : sha256 (ringInput w.machine.service.ring) = sha256 (ringInput w'.machine.service.ring) →
      ringInput w.machine.service.ring = ringInput w'.machine.service.ring)
    (hpersist : c'.persist = .success) :
    ((∀ id, w'.machine.service.isActive id = w.machine.service.isActive id) →
      (w'.machine.run lib q' c').response.ok = true ∧
        (w'.machine.run lib q' c').response.verified = true) ∧
    ((∃ id, w'.machine.service.isActive id ≠ w.machine.service.isActive id) →
      (w'.machine.run lib q' c').response.ok = false) := by
  obtain ⟨e, enc, hsign, hmarshal, hout, hservice⟩ :=
    run_sign_ok hop ((Outcome.response_ok _).1 hsigned)
  rw [Outcome.response_signature, hout] at hsignature
  -- the state after the signature, and the later one
  have hnext : (w.serve lib raw c).machine.service =
      (w.machine.service.advanceSigner e).pin e.issue q.k := by
    rw [World.serve_machine w c hq, hservice]
  have hlater : (w.serve lib raw c).machine.service.Extends w'.machine.service := by
    rw [← hw', World.after_request, hw]
    exact World.run_extends more _ hmore
  have hfirst : w.machine.service.Extends (w.serve lib raw c).machine.service := by
    rw [hnext]
    exact (Change.commit (.sign hop hsign hmarshal)).extends
  have hext := hfirst.trans hlater
  have hinv : w.machine.service.RingInv lib := hw ▸ Service.RingInv.after path events
  have hinv' : w'.machine.service.RingInv lib := hw' ▸ Service.RingInv.after path _
  constructor
  · intro hactive
    have hpinned : w'.machine.service.policies[e.issue]? = some q.k := by
      apply hlater.ledger.1
      rw [hnext]
      exact ExtTreeMap.getElem?_insert_self
    have hmatch : w.machine.service.KeysMatch := hw ▸ Service.KeysMatch.after path events
    obtain ⟨_, prover, _, _, _, _, _, _, _, _, hprover, _, _⟩ := Service.sign_made hsign
    have hne : w.machine.service.prover ≠ none := by simp [hprover]
    have hverify := Service.verify_of_same_ring hsign hmarshal hmatch hproofs hext
      (hext.ring_eq hinv hactive) hpinned hissue hk hmessage hsignature
      (hfresh enc (decodeB64_eq_ok.2 hsignature))
    apply run_verify_ok hop' _ hverify hpersist
    rw [(hext.keys hne).2.1]
    exact hne
  · rintro ⟨id, hid⟩
    apply Bool.eq_false_iff.2
    intro hok
    obtain ⟨digest, hverify⟩ := (@run_step lib zk w'.machine q' c').verify_ok hop'
      ((Outcome.response_ok _).1 hok)
    have hids := hext.ringIds_eq hinv hinv' hkeys
      (Service.ring_of_verify hsign hmarshal hsignature hverify hsha)
    apply hid
    rw [Bool.eq_iff_iff, ← Service.mem_ringIds, ← Service.mem_ringIds, hids]

/-! ## A sample signature -/

/-- A user with one account, made from these draws. -/
def sampleKeygen (text : String) (drawX drawD : ℕ) : ServiceEvent exponentLib sampleGroth16 :=
  .request (textBytes text)
    { sampleChoices .success with drawX := .ok drawX, drawD := .ok drawD }

/-- The sample account and another one join the ring. -/
def sampleJoined : List (ServiceEvent exponentLib sampleGroth16) :=
  sampleRegistered ++
    [sampleKeygen "\x7b\"op\":\"keygen\",\"user\":\"w\",\"account\":\"b\"\x7d" 3 8,
      sampleRequest "\x7b\"op\":\"join\",\"account\":\"a\"\x7d",
      sampleRequest "\x7b\"op\":\"join\",\"account\":\"b\"\x7d"]

def sampleSign : Request :=
  { (default : Request) with
    op := "sign", account := "a", issue := hexDigest (FixedBytes.zero 32), k := 2 }

def sampleSignText : List UInt8 :=
  textBytes ("\x7b\"op\":\"sign\",\"account\":\"a\",\"issue\":\"" ++
    hexDigest (FixedBytes.zero 32) ++ "\",\"k\":2\x7d")

/-- A third account is made after the signature. -/
def sampleMore : List (ServiceEvent exponentLib sampleGroth16) :=
  [sampleKeygen "\x7b\"op\":\"keygen\",\"user\":\"x\",\"account\":\"c\"\x7d" 4 10]

theorem sampleGroth16_accepts (p : Prover sampleGroth16) (v : Verifier sampleGroth16) :
    p.AcceptedBy v := by
  intro a randomness proof data _ hdata
  obtain rfl : sampleProofBytes = data := Except.ok.inj hdata
  have hread : sampleGroth16.readProof sampleProofBytes = .ok ((), []) := by
    simp [sampleGroth16]
  have hpreflight : preflightProof sampleProofBytes ((0 : ℕ) : ℤ) = .ok () := sample_evaluated.2.2
  exact ⟨hpreflight, (), hread, rfl⟩

theorem Service.distinctKeys_of_nodup {s : Service zk}
    (h : (s.accounts.toList.map fun entry => (entry.2.account.u, entry.2.account.y)).Nodup) :
    s.DistinctKeys := by
  intro id id' reg reg' hreg hreg' hu hy
  have hentry := ExtTreeMap.mem_toList_iff_getElem?_eq_some.2 hreg
  have hentry' := ExtTreeMap.mem_toList_iff_getElem?_eq_some.2 hreg'
  exact congrArg Prod.fst (List.inj_on_of_nodup_map h hentry hentry' (Prod.ext hu hy))

theorem Service.isActive_eq_of_ringIds {s s' : Service zk} (h : s'.ringIds = s.ringIds)
    (id : String) : s'.isActive id = s.isActive id := by
  rw [Bool.eq_iff_iff, ← Service.mem_ringIds, ← Service.mem_ringIds, h]

theorem World.mem_answers_after (path : StatePath) (events more : List (ServiceEvent lib zk))
    {raw : List UInt8} (c : Choices) (hq : decodeRequest raw = .ok q) :
    (q, ((World.after path events).machine.run lib q c).response) ∈
      (World.after path (events ++ .request raw c :: more)).answers := by
  rw [World.after_request]
  apply World.answers_run
  simp only [World.serve, Machine.handle, hq]
  exact List.mem_cons_self

/-- No request fails; the later state has consumed nothing, its accounts have different keys, and
its ring is that of the signature. -/
theorem sampleMore_ring :
    let s := (World.after samplePath sampleJoined).machine.service
    let w' := World.after samplePath (sampleJoined ++
      .request sampleSignText (sampleChoices .success) :: sampleMore)
    let s' := w'.machine.service
    (w'.answers.all fun answer => answer.2.ok) = true ∧ s'.seen.toList = [] ∧
      (s'.accounts.toList.map fun entry => (entry.2.account.u, entry.2.account.y)).Nodup ∧
      s.ringIds = ["a", "b"] ∧ s'.ringIds = s.ringIds ∧ ringInput s.ring = ringInput s'.ring := by
  decide +kernel

/-- The signature of the sample account is accepted while the ring stays. -/
theorem sign_verify_agree_sample :
    ∃ (w w' : World sampleGroth16) (q' : Request),
      World.after samplePath sampleJoined = w ∧ w.machine.service.ringIds = ["a", "b"] ∧
      (w.machine.run exponentLib sampleSign (sampleChoices .success)).response.ok = true ∧
      World.after samplePath (sampleJoined ++
        .request sampleSignText (sampleChoices .success) :: sampleMore) = w' ∧
      q'.signature =
        (w.machine.run exponentLib sampleSign (sampleChoices .success)).response.signature ∧
      (w'.machine.run exponentLib q' (sampleChoices .success)).response.verified = true := by
  obtain ⟨w, hw⟩ : ∃ w, World.after samplePath sampleJoined = w := ⟨_, rfl⟩
  obtain ⟨w', hw'⟩ : ∃ w', World.after samplePath (sampleJoined ++
      .request sampleSignText (sampleChoices .success) :: sampleMore) = w' := ⟨_, rfl⟩
  have hq : decodeRequest sampleSignText = .ok sampleSign := by decide +kernel
  obtain ⟨hanswers, hseen, hkeys, hids, hsame, hring⟩ := sampleMore_ring
  have hok := List.all_eq_true.1 hanswers _
    (World.mem_answers_after samplePath sampleJoined sampleMore (sampleChoices .success) hq)
  rw [hw'] at hseen hkeys hsame hring
  rw [hw] at hok hids hsame hring
  have hfresh : ∀ digest, digest ∉ w'.machine.service.seen := by
    intro digest hmem
    have hlist := ExtTreeSet.mem_toList.2 hmem
    rw [hseen] at hlist
    cases hlist
  obtain ⟨haccepted, _⟩ := sign_verify_agree samplePath sampleJoined sampleMore sampleSignText
    sampleSign
    { sampleSign with
      op := "verify"
      signature := (w.machine.run exponentLib sampleSign (sampleChoices .success)).response.signature }
    (sampleChoices .success) (sampleChoices .success) w w' hw hw' (by simp [sampleMore, sampleKeygen])
    hq (by decide) hok (by decide : operationOf "verify" = .verify) rfl rfl rfl rfl
    (fun enc _ => hfresh _) (fun p v _ _ => sampleGroth16_accepts p v)
    (Service.distinctKeys_of_nodup hkeys) (fun _ => hring) rfl
  exact ⟨w, w', _, hw, hids, hok, hw', rfl, (haccepted (Service.isActive_eq_of_ringIds hsame)).2⟩

end Lktrs.NativeProof
