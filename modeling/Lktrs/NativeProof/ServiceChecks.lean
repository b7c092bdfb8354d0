import Lktrs.NativeProof.Accumulator
import Lktrs.NativeProof.Service

/-!
# What the checks of an operation establish

The part of an operation that changes nothing, characterised by the conditions
under which it succeeds: `policy_eq_ok`, `keygen_eq_ok`, `sign_eq_ok`,
`verify_eq_ok`. The invariants of the service read the checks through these.
-/

set_option autoImplicit false

namespace Lktrs.NativeProof

open Lktrs.Foundation
open Std (ExtTreeMap ExtTreeSet)

variable {lib : GnarkCrypto} {zk : Groth16} {s : Service zk} {q : Request} {c : Choices}

/-! ## Reading the ring -/

theorem Service.mem_ringIds {id : String} : id ∈ s.ringIds ↔ s.isActive id = true := by
  simp only [Service.ringIds, Service.isActive, List.mem_map, List.mem_filter, Prod.exists,
    ExtTreeMap.mem_toList_iff_getElem?_eq_some]
  constructor
  · rintro ⟨_, active, ⟨hget, hactive⟩, rfl⟩
    rw [hget]
    exact hactive
  · intro h
    cases hget : s.active[id]? with
    | none => simp [hget] at h
    | some active => exact ⟨id, active, ⟨hget, by simpa [hget] using h⟩, rfl⟩

theorem Service.nodup_ringIds : s.ringIds.Nodup :=
  (nodup_keys_toList s.active).sublist (List.filter_sublist.map Prod.fst)

/-- The listing is ascending, so it is determined by its elements. -/
theorem Service.sorted_ringIds : s.ringIds.Pairwise fun a b => compare a b = .lt := by
  apply List.Pairwise.map Prod.fst (fun _ _ h => h)
  exact ExtTreeMap.ordered_keys_toList.filter _

@[simp] theorem Service.length_ring : s.ring.length = s.ringIds.length := by
  simp [Service.ring]

/-- The loop of `sign` ends with a position of the account, or with what it started from. -/
theorem accountIndex_cases (account : String) : ∀ (ids : List String) (i : ℕ) (idx : ℤ),
    accountIndex account i idx ids = idx ∨
      ∃ j : ℕ, ids[j]? = some account ∧ accountIndex account i idx ids = i + j := by
  intro ids
  induction ids with
  | nil =>
      intro i idx
      exact .inl rfl
  | cons id ids ih =>
      intro i idx
      rw [accountIndex]
      rcases ih (i + 1) (if id = account then i else idx) with hkeep | ⟨j, hj, hidx⟩
      · rw [hkeep]
        by_cases hid : id = account
        · exact .inr ⟨0, by simp [hid], by simp [hid]⟩
        · exact .inl (if_neg hid)
      · exact .inr ⟨j + 1, by simpa using hj, by rw [hidx]; push_cast; ring⟩

theorem accountIndex_nonneg {account : String} {ids : List String}
    (h : ¬ accountIndex account 0 (-1) ids < 0) :
    ∃ j : ℕ, ids[j]? = some account ∧ accountIndex account 0 (-1) ids = j := by
  rcases accountIndex_cases account ids 0 (-1) with hnone | ⟨j, hj, hidx⟩
  · omega
  · exact ⟨j, hj, by omega⟩

/-! ## Requests that carry a signature -/

theorem Service.policy_eq_ok {issue : FixedBytes 32} {k : UInt32} {create : Bool} :
    s.policy issue k create = .ok () ↔
      k ≠ 0 ∧ (s.policies[issue]? = some k ∨ s.policies[issue]? = none ∧ create = true) := by
  cases hold : s.policies[issue]? with
  | none => simp [Service.policy, hold]
  | some old => simp [Service.policy, hold]

theorem Service.signedRequest_eq_ok {create : Bool} {r : SignedRequest} :
    s.signedRequest lib q create = .ok r ↔
      decodeIssue q.issue = .ok r.issue ∧ decodeB64 q.message = .ok r.message ∧
        s.policy r.issue q.k create = .ok () ∧
        newVerificationContext lib s.params s.ring r.issue q.k = .ok r.ctx := by
  simp only [Service.signedRequest, bind_eq_ok, pure_eq_ok]
  constructor
  · rintro ⟨issue, hissue, message, hmessage, _, hpolicy, ctx, hctx, rfl⟩
    exact ⟨hissue, hmessage, hpolicy, hctx⟩
  · rintro ⟨hissue, hmessage, hpolicy, hctx⟩
    exact ⟨r.issue, hissue, r.message, hmessage, (), hpolicy, r.ctx, hctx, rfl⟩

theorem Service.sign_eq_ok {e : SignEffect} :
    s.sign lib q c = .ok e ↔
      ∃ (r : SignedRequest) (j : ℕ) (snap : Snapshot) (signer : Signer),
        s.signedRequest lib q true = .ok r ∧ s.ringIds[j]? = some q.account ∧
        accountIndex q.account 0 (-1) s.ringIds = j ∧
        newSnapshot lib s.params s.ring = .ok snap ∧
        s.users[(s.registration q.account).userID]? = some signer ∧
        signer.sign lib s.prover snap j r.issue q.k r.message q.timestamp c.proverRandomness =
          .ok (e.signed, e.signer) ∧
        e.issue = r.issue ∧ e.owner = (s.registration q.account).userID := by
  unfold Service.sign
  cases huser : s.users[(s.registration q.account).userID]? with
  | none => simp [huser]
  | some signer =>
      simp only [huser, bind_eq_ok, rejectIf_eq_ok, pure_eq_ok, Prod.exists, Option.some.injEq]
      constructor
      · rintro ⟨r, hr, _, hidx, snap, hsnap, signed, signer', hsign, rfl⟩
        obtain ⟨j, hj, hj'⟩ := accountIndex_nonneg hidx
        exact ⟨r, j, snap, signer, hr, hj, hj', hsnap, rfl, hj' ▸ hsign, rfl, rfl⟩
      · rintro ⟨r, j, snap, _, hr, hj, hj', hsnap, rfl, hsign, hissue, howner⟩
        refine ⟨r, hr, (), by omega, snap, hsnap, e.signed, e.signer, hj' ▸ hsign, ?_⟩
        obtain ⟨issue, owner, signed, signer'⟩ := e
        simp_all

theorem readEnvelope_eq_ok {text : String} {enc : List UInt8} {signed : Signed} :
    readEnvelope lib text = .ok (enc, signed) ↔
      decodeB64 text = .ok enc ∧ unmarshalSigned lib enc = .ok signed := by
  simp only [readEnvelope, bind_eq_ok, pure_eq_ok, Prod.mk.injEq]
  constructor
  · rintro ⟨_, henc, _, hsigned, rfl, rfl⟩
    exact ⟨henc, hsigned⟩
  · rintro ⟨henc, hsigned⟩
    exact ⟨enc, henc, signed, hsigned, rfl, rfl⟩

theorem Service.verify_eq_ok {digest : FixedBytes 32} :
    s.verify lib q = .ok digest ↔
      ∃ (r : SignedRequest) (enc : List UInt8) (signed : Signed) (v : Verifier zk),
        s.signedRequest lib q false = .ok r ∧ decodeB64 q.signature = .ok enc ∧
        unmarshalSigned lib enc = .ok signed ∧ sha256 enc ∉ s.seen ∧ s.verifier = some v ∧
        v.verify lib r.ctx r.message signed = .ok () ∧ digest = sha256 enc := by
  simp only [Service.verify, Service.envelopeRequest, Service.verifyEnvelope, bind_eq_ok,
    rejectIf_eq_ok, pure_eq_ok, Prod.exists, readEnvelope_eq_ok, Prod.mk.injEq]
  cases hv : s.verifier with
  | none => simp
  | some v =>
      constructor
      · rintro ⟨r, enc, signed, ⟨_, hr, _, _, ⟨henc, hsigned⟩, rfl, rfl, rfl⟩, _, hseen, _, hverify,
          rfl⟩
        exact ⟨_, _, _, v, hr, henc, hsigned, hseen, rfl, hverify, rfl⟩
      · rintro ⟨r, enc, signed, v', hr, henc, hsigned, hseen, hv', hverify, rfl⟩
        cases hv'
        exact ⟨r, enc, signed, ⟨r, hr, enc, signed, ⟨henc, hsigned⟩, rfl, rfl, rfl⟩, (), hseen, (),
          hverify, rfl⟩

/-! ## Registration -/

theorem canonicalNonzero_randomNonzero {draw : Except String ℕ} {n : ℤ}
    (h : randomNonzero secp256k1Fr draw = .ok n) : canonicalNonzero (some n) secp256k1Fr = true :=
  randomNonzero_canonical (by decide) h

/-- Key generation for a new user fails with its draws only. -/
theorem keyGen_none_eq_ok {drawX drawD : Except String ℕ} {a : Account} {x : ℤ} :
    keyGen lib none drawX drawD = .ok (a, x) ↔
      randomNonzero secp256k1Fr drawX = .ok x ∧
        ∃ d, randomNonzero secp256k1Fr drawD = .ok d ∧ a = accountOf lib x d := by
  simp only [keyGen, bind_eq_ok, pure_eq_ok, newAccount_eq_ok, Prod.mk.injEq]
  constructor
  · rintro ⟨_, hx, d, hd, _, ⟨_, _, rfl⟩, rfl, rfl⟩
    exact ⟨hx, d, hd, rfl⟩
  · rintro ⟨hx, d, hd, rfl⟩
    exact ⟨x, hx, d, hd, _, ⟨canonicalNonzero_randomNonzero hx, canonicalNonzero_randomNonzero hd,
      rfl⟩, rfl, rfl⟩

theorem keyGen_some_eq_ok {drawX drawD : Except String ℕ} {a : Account} {x y : ℤ} :
    keyGen lib (some y) drawX drawD = .ok (a, x) ↔
      y = x ∧ canonicalNonzero (some x) secp256k1Fr = true ∧
        ∃ d, randomNonzero secp256k1Fr drawD = .ok d ∧ a = accountOf lib x d := by
  simp only [keyGen, bind_eq_ok, pure_eq_ok, rejectIf_eq_ok, newAccount_eq_ok, Prod.mk.injEq,
    Bool.not_eq_false]
  constructor
  · rintro ⟨_, _, _, rfl, d, hd, _, ⟨hx, _, rfl⟩, rfl, rfl⟩
    exact ⟨rfl, hx, d, hd, rfl⟩
  · rintro ⟨rfl, hx, d, hd, rfl⟩
    exact ⟨(), hx, y, rfl, d, hd, _, ⟨hx, canonicalNonzero_randomNonzero hd, rfl⟩, rfl, rfl⟩

/-- The new account belongs to the secret of its owner's signer, which is made for a new user. -/
theorem Service.keygen_eq_ok {a : Account} {signer : Option Signer} :
    s.keygen lib q c = .ok (a, signer) ↔
      (isBlank q.user = false ∧ isBlank q.account = false) ∧ s.accounts[q.account]? = none ∧
        q.user ∉ s.revoked ∧ ∃ x d, canonicalNonzero (some x) secp256k1Fr = true ∧
          randomNonzero secp256k1Fr c.drawD = .ok d ∧ a = accountOf lib x d ∧
          (s.users[q.user]? = none ∧ randomNonzero secp256k1Fr c.drawX = .ok x ∧
              signer = some ⟨x, ∅⟩ ∨
            ∃ old, s.users[q.user]? = some old ∧ old.x = x ∧ signer = none) := by
  unfold Service.keygen
  cases huser : s.users[q.user]? with
  | none =>
      simp only [bind_eq_ok, rejectIf_eq_ok, pure_eq_ok, Prod.exists, keyGen_none_eq_ok, newSigner,
        not_or, Bool.not_eq_true, Bool.not_eq_false, Prod.mk.injEq, Option.isSome_eq_false_iff,
        Option.isNone_iff_eq_none]
      constructor
      · rintro ⟨_, hblank, _, hnew, _, hrevoked, _, x, ⟨hx, d, hd, rfl⟩, _, ⟨_, hcanonical, rfl⟩,
          rfl, rfl⟩
        exact ⟨hblank, hnew, hrevoked, x, d, hcanonical, hd, rfl, .inl ⟨trivial, hx, rfl⟩⟩
      · rintro ⟨hblank, hnew, hrevoked, x, d, hcanonical, hd, rfl, ⟨_, hx, rfl⟩ | ⟨_, h, _⟩⟩
        · exact ⟨(), hblank, (), hnew, (), hrevoked, _, x, ⟨hx, d, hd, rfl⟩, _,
            ⟨(), hcanonical, rfl⟩, rfl, rfl⟩
        · cases h
  | some old =>
      simp only [bind_eq_ok, rejectIf_eq_ok, pure_eq_ok, Prod.exists, keyGen_some_eq_ok, not_or,
        Bool.not_eq_true, Prod.mk.injEq, Option.isSome_eq_false_iff, Option.isNone_iff_eq_none]
      constructor
      · rintro ⟨_, hblank, _, hnew, _, hrevoked, _, x, ⟨rfl, hcanonical, d, hd, rfl⟩, rfl, rfl⟩
        exact ⟨hblank, hnew, hrevoked, _, d, hcanonical, hd, rfl, .inr ⟨old, rfl, rfl, rfl⟩⟩
      · rintro ⟨hblank, hnew, hrevoked, x, d, hcanonical, hd, rfl, ⟨h, _⟩ | ⟨_, h, rfl, rfl⟩⟩
        · cases h
        · cases h
          exact ⟨(), hblank, (), hnew, (), hrevoked, _, _, ⟨rfl, hcanonical, d, hd, rfl⟩, rfl, rfl⟩

end Lktrs.NativeProof
