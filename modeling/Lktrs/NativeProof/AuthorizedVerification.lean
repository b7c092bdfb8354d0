import Lktrs.NativeProof.Registrations
import Lktrs.NativeProof.TrustChecks

/-!
# Authorized verification

The two directions of trust. An authorized verifier accepts only a signature
that was checked against the ring, issue and quota of an authorization which the
registry authority signed, while both authorities' documents are in force
(`authorized_verification_sound`). Conversely the bytes that
`signRegistryAuthorization` returns are accepted by every verifier whose policy
has the same labels (`signed_registry_accepted`): the envelope of a document
within the signer's limit stays within the verifier's, and reading the document
gives back the value that was signed. The command `verify-authorized` says no
more than this (`authorizedVerifyCommand_sound`).
-/

set_option autoImplicit false

namespace Lktrs.NativeProof

open Lktrs.Foundation

variable {lib : GnarkCrypto} {ed : Ed25519} {zk : Groth16}

/-! ## A sample authority -/

/-- Any 64 bytes are a signature. -/
def sampleEd25519 : Ed25519 where
  verify _ _ sig := sig.length = 64
  length_signature _ _ _ h := of_decide_eq_true h

def sampleSigner (key : List UInt8) : AuthoritySigner where
  publicKey := some key
  sign _ := .ok (List.replicate 64 0)

def samplePolicy : TrustPolicy where
  format := "lktrs/trust-policy/v1"
  namespaceID := "test"
  manifestSHA256 := hexDigest (sha256 [])
  setupAuthority := base64Encode (List.replicate 32 1)
  registryAuthority := base64Encode (List.replicate 32 2)
  registryEpoch := 1
  issue := hexDigest (FixedBytes.zero 32)
  k := 2

/-- A user of the sample registry, who owns an account. -/
structure SampleUser where
  name : String
  id : String
  account : Account
  x : ℤ
  d : ℤ
  named : validTrustID name = true ∧ validTrustID id = true
  secret : canonicalNonzero (some x) secp256k1Fr = true
  valid : (validateAccount exponentLib account).isOk = true
  opened : account.d = some d
  owned : exponentLib.secp.scalarMultiplication account.u x = account.y

def bob : SampleUser where
  name := "bob"
  id := "b"
  account := otherAccount
  x := 4
  d := 9
  named := by decide
  secret := by decide
  valid := by decide +kernel
  opened := rfl
  owned := by decide

def alice : SampleUser where
  name := "alice"
  id := "a"
  account := sampleAccount
  x := 3
  d := 7
  named := by decide
  secret := by decide
  valid := by decide +kernel
  opened := rfl
  owned := by decide

theorem sampleDigest_ne_zero : sha256 [] ≠ FixedBytes.zero 32 := by
  decide +kernel

/-- The account enrolled for its user, with nonce 11, before the response is filled in. -/
def SampleUser.unanswered (s : SampleUser) : Enrollment where
  userID := s.name
  accountID := s.id
  u := hexEncode (encodeSecpPoint s.account.u)
  y := hexEncode (encodeSecpPoint s.account.y)
  d := scalarHex s.d
  challenge := hexDigest (sha256 [])
  commitment := hexEncode (encodeSecpPoint (exponentLib.secp.scalarMultiplication s.account.u 11))
  response := ""

def SampleUser.enrollment (s : SampleUser) (c : ℤ) : Enrollment :=
  { s.unanswered with response := scalarHex ((c * s.x + 11) % secp256k1Fr) }

/-- The challenge a user answers. -/
def SampleUser.Challenged (s : SampleUser) (c : ℤ) : Prop :=
  enrollmentChallenge s.unanswered "test" (sha256 []) (List.replicate 32 2) = .ok c

def sampleAuthorization (entries : List Enrollment) : RegistryAuthorization where
  format := "lktrs/registry-authorization/v1"
  namespaceID := "test"
  manifestSHA256 := hexDigest (sha256 [])
  epoch := 1
  notBefore := 0
  notAfter := 10
  issue := hexDigest (FixedBytes.zero 32)
  k := 2
  entries

def samplePublicSetup : PublicSetup sampleGroth16 where
  parameters := sampleParams
  verifier := sampleVerifier

theorem sample_challenged : (∃ c, bob.Challenged c) ∧ ∃ c, alice.Challenged c := by
  have hboth : (enrollmentChallenge bob.unanswered "test" (sha256 []) (List.replicate 32 2)).isOk =
        true ∧
      (enrollmentChallenge alice.unanswered "test" (sha256 []) (List.replicate 32 2)).isOk =
        true := by
    -- the fields are hexadecimal, so their characters are written as they are
    simp only [enrollmentChallenge, enrollmentInput, SampleUser.unanswered, bob, alice,
      documentBytes, textBytes_ofList, marshal, enrollmentChallengeType, enrollmentType,
      Enrollment.value, encodeValue, encodeFields, Json.render, renderMembers, hexDigest,
      renderString_hexEncode, renderString_base64Encode, scalarHex]
    decide +kernel
  exact ⟨exists_ok_of_isOk hboth.1, exists_ok_of_isOk hboth.2⟩

/-- The sample enrollments are what their holders make, so they are accepted. -/
theorem SampleUser.verifies (s : SampleUser) {c : ℤ} (hc : s.Challenged c) :
    verifyEnrollment exponentLib (s.enrollment c) "test" (sha256 []) (List.replicate 32 2)
      (sha256 []) = .ok ⟨s.name, s.account⟩ := by
  have hmade : createEnrollment exponentLib (some s.x) s.account s.name s.id "test" (sha256 [])
      (List.replicate 32 2) (sha256 []) (.ok 10) = .ok (s.enrollment c) := by
    simp only [createEnrollment, bind_eq_ok, rejectIf_eq_ok, pure_eq_ok]
    have hinput : ¬ (canonicalNonzero (some s.x) secp256k1Fr = false ∨
        (validateAccount exponentLib s.account).isOk = false ∨ s.account.d = none ∨
        validTrustID s.name = false ∨ validTrustID s.id = false ∨ validTrustID "test" = false ∨
        sha256 [] = FixedBytes.zero 32 ∨ (List.replicate 32 (2 : UInt8)).length ≠ 32 ∨
        sha256 [] = FixedBytes.zero 32) := by
      simp [s.secret, s.valid, s.opened, s.named, sampleDigest_ne_zero,
        (by decide : validTrustID "test" = true)]
    refine ⟨(), hinput, (), not_not.2 s.owned, 11, by decide, c, ?_, ?_⟩
    · rw [s.opened]
      exact hc
    · rw [s.opened]
      rfl
  exact (verifyEnrollment_createEnrollment hmade).2.2

theorem sampleAuthorization_registrations {c c' : ℤ} (hc : bob.Challenged c)
    (hc' : alice.Challenged c') :
    registryRegistrations exponentLib (sampleAuthorization [bob.enrollment c, alice.enrollment c'])
      (List.replicate 32 2) = .ok sampleEntries := by
  obtain ⟨registry, hregistry⟩ := sampleEntries_accepted
  have hcollect : collectRegistrations exponentLib "test" (sha256 []) (List.replicate 32 2) []
      [bob.enrollment c, alice.enrollment c'] = .ok sampleEntries := by
    simp only [collectRegistrations, bind_eq_ok, rejectIf_eq_ok, pure_eq_ok]
    have hids : (alice.enrollment c').accountID ∉ [(bob.enrollment c).accountID] :=
      (by decide : "a" ∉ ["b"])
    exact ⟨(), List.not_mem_nil, sha256 [], decodeHex32_eq_ok.2 rfl, _,
      bob.verifies hc, _, ⟨(), hids, sha256 [], decodeHex32_eq_ok.2 rfl, _,
        alice.verifies hc', [], rfl, rfl⟩, rfl⟩
  simp only [registryRegistrations, bind_eq_ok, rejectIf_eq_ok, pure_eq_ok]
  refine ⟨sha256 [], decodeHex32_eq_ok.2 rfl, (), ?_, FixedBytes.zero 32, decodeHex32_eq_ok.2 rfl,
    _, hcollect, registry, hregistry, rfl⟩
  exact (by decide : ¬ (("lktrs/registry-authorization/v1" : String) ≠
    "lktrs/registry-authorization/v1" ∨ validTrustID "test" = false ∨ (1 : UInt64) = 0 ∨
    (2 : UInt32) = 0 ∨ validTrustTime 0 10 0 = false ∨ 2 = 0 ∨ 2 > 65536))

/-- The sample authority signs whatever is short enough. -/
theorem sampleSigner_signs (key : List UInt8) {document : List UInt8} (hkey : key.length = 32)
    (hsize : document.length ≤ maxTrustBytes / 2) :
    ∃ raw, authoritySign sampleEd25519 document (some (sampleSigner key)) = .ok raw :=
  ⟨_, (authoritySign_eq_ok rfl).2 ⟨hkey, hsize, List.replicate 64 0, rfl, rfl, rfl⟩⟩

theorem sampleRegistry_signed {c c' : ℤ} (hc : bob.Challenged c) (hc' : alice.Challenged c') :
    ∃ raw, signRegistryAuthorization exponentLib sampleEd25519
      (sampleAuthorization [bob.enrollment c, alice.enrollment c'])
      (some (sampleSigner (List.replicate 32 2))) = .ok raw := by
  have hsize : 4 * (marshal registryAuthorizationType (sampleAuthorization
      [bob.enrollment c, alice.enrollment c']).value).length ≤ maxTrustBytes / 2 := by
    simp only [marshal, registryAuthorizationType, enrollmentType, RegistryAuthorization.value,
      sampleAuthorization, SampleUser.enrollment, SampleUser.unanswered, bob, alice, List.map_cons,
      List.map_nil, Enrollment.value, encodeValue, encodeFields, encodeElems, Json.render,
      renderMembers, renderElems, hexDigest, scalarHex, renderString_hexEncode, List.length_append,
      List.length_cons, List.length_nil, length_hexChars, length_bigEndian, FixedBytes.length_toList,
      length_encodeSecpPoint]
    decide
  obtain ⟨raw, hraw⟩ := sampleSigner_signs (List.replicate 32 2) (by decide)
    ((byteLength_le _).trans hsize)
  refine ⟨raw, ?_⟩
  simp only [signRegistryAuthorization, sampleSigner, bind_eq_ok]
  exact ⟨_, sampleAuthorization_registrations hc hc', hraw⟩

theorem sampleAuthorization_matches (entries : List Enrollment) :
    RegistryMatches samplePolicy 5 (sampleAuthorization entries) :=
  ⟨rfl, rfl, rfl, rfl, rfl, (by decide : (0 : Int64).toInt ≤ (5 : Int64).toInt),
    (by decide : (5 : Int64).toInt < (10 : Int64).toInt)⟩

theorem samplePolicy_keys :
    authorityKey samplePolicy.registryAuthority = .ok (List.replicate 32 2) ∧
      authorityKey samplePolicy.setupAuthority = .ok (List.replicate 32 1) := by
  decide

theorem samplePolicy_valid : samplePolicy.validate = .ok () :=
  TrustPolicy.validate_eq_ok.2 ⟨⟨rfl, by decide, by decide, by decide⟩,
    ⟨_, parseDigest_hexDigest _, sampleDigest_ne_zero⟩, ⟨_, decodeIssue_hexDigest _⟩,
    ⟨_, samplePolicy_keys.2⟩, _, samplePolicy_keys.1⟩

/-- The handles of the sample accounts are not opposite to the trapdoor. -/
theorem sampleEnrollment_handle {c c' : ℤ} :
    ∀ e ∈ (sampleAuthorization [bob.enrollment c, alice.enrollment c']).entries,
    ∀ (u y : Secp256k1G1) (m : ℤ), trustPoint exponentLib e.u = .ok u →
      trustPoint exponentLib e.y = .ok y → member exponentLib { u, y, d := none } = .ok m →
        (m : ZMod bn254Fr) ≠ -5 := by
  have hof {a : Account} (ha : a ∈ sampleRing) {e : Enrollment}
      (heu : e.u = hexEncode (encodeSecpPoint a.u)) (hey : e.y = hexEncode (encodeSecpPoint a.y))
      (u y : Secp256k1G1) (m : ℤ)
      (hu : trustPoint exponentLib e.u = .ok u) (hy : trustPoint exponentLib e.y = .ok y)
      (hm : member exponentLib { u, y, d := none } = .ok m) : (m : ZMod bn254Fr) ≠ -5 := by
    obtain ⟨hu, _⟩ := trustPoint_eq_ok.1 hu
    obtain ⟨hy, _⟩ := trustPoint_eq_ok.1 hy
    obtain rfl := encodeSecpPoint_inj (hexEncode_inj (heu.symm.trans hu))
    obtain rfl := encodeSecpPoint_inj (hexEncode_inj (hey.symm.trans hy))
    rw [member_eq_handle exponentLib hm]
    intro heq
    exact sampleRing_handles.2 a ha (by rw [← neg_add_cancel (5 : ZMod bn254Fr), add_comm, ← heq]; rfl)
  intro e he
  rcases List.mem_cons.1 he with rfl | he
  · exact hof (a := otherAccount) List.mem_cons_self rfl rfl
  · obtain rfl := List.mem_singleton.1 he
    exact hof (a := sampleAccount) (List.mem_cons_of_mem _ List.mem_cons_self) rfl rfl

/-! ## Completeness -/

theorem enrollmentOf_value_map (entries : List Enrollment) :
    (entries.map Enrollment.value).map enrollmentOf = entries := by
  rw [List.map_map]
  exact List.map_id entries

theorem registryAuthorizationOf_value (a : RegistryAuthorization) :
    registryAuthorizationOf a.value = a := by
  have hentries := enrollmentOf_value_map a.entries
  simp only [RegistryAuthorization.value, registryAuthorizationOf, sliceElems, hentries,
    Int.toNat_natCast, UInt64.ofNat_toNat, UInt32.ofNat_toNat, Int64.ofInt_toInt]

theorem hasType_registryAuthorization (a : RegistryAuthorization) :
    HasType registryAuthorizationType a.value := by
  refine ⟨rfl, rfl, rfl, hasType_uint64 a.epoch, hasType_int64 a.notBefore,
    hasType_int64 a.notAfter, rfl, hasType_uint32 a.k, ?_, rfl⟩
  exact elemsHaveType_map hasType_enrollment a.entries

theorem exists_of_forall₂_right {α β : Type} {R : α → β → Prop} {as : List α} {bs : List β}
    (h : List.Forall₂ R as bs) {b : β} (hb : b ∈ bs) : ∃ a ∈ as, R a b := by
  induction h with
  | nil => cases hb
  | cons hab _ ih =>
      rcases List.mem_cons.1 hb with rfl | hb
      · exact ⟨_, List.mem_cons_self, hab⟩
      · obtain ⟨a, ha, hr⟩ := ih hb
        exact ⟨a, List.mem_cons_of_mem _ ha, hr⟩

/-- A ring of accounts with distinct handles, none of them opposite to the trapdoor, has a context
under parameters with room for it. -/
theorem newVerificationContext_of_handles {p : Params} {τ : ZMod bn254Fr}
    (hvalid : validateParams lib p = .ok ()) (hτ : p.hTau = lib.bn2.exp τ)
    (accounts : List Account) (hne : accounts ≠ []) (hcap : accounts.length ≤ p.capacity)
    (hmembers : ∀ a ∈ accounts, member lib a = .ok (handle a))
    (hnodup : (accounts.map handle).Nodup) (hfactors : ∀ a ∈ accounts, τ + handle a ≠ 0)
    (issue : FixedBytes 32) {k : UInt32} (hk : k ≠ 0) :
    ∃ ctx, newVerificationContext lib p accounts issue k = .ok ctx := by
  obtain ⟨_, _, _, hmax⟩ := eq_srs_of_valid lib hvalid hτ
  have hprod : linearProduct τ (accounts.map handle) ≠ 0 := by
    apply List.prod_ne_zero
    simp only [List.mem_map, not_exists, not_and]
    rintro _ ⟨a, ha, rfl⟩
    exact hfactors a ha
  have hsize : accounts.length ≤ 2 ^ 32 - 1 := by
    rw [Params.capacity] at hcap
    omega
  have haccumulate := (accumulate_iff lib hvalid hτ).2 ⟨hcap, hmembers, hnodup, hprod, rfl⟩
  have hms : membersOf lib accounts = .ok (accounts.map handle) :=
    (membersOf_eq_map lib).2 ⟨hne, hsize, hmembers, rfl, hnodup⟩
  have hdigest := (ringDigest_eq_ok lib).2 ⟨⟨_, hms⟩, rfl⟩
  exact ⟨_, (newVerificationContext_eq_ok lib).2 ⟨hk, hvalid, ⟨_, haccumulate⟩, _, hdigest, rfl⟩⟩

/-- The context a verifier builds from a signed authorization. -/
theorem authorizedContext_signRegistryAuthorization {a : RegistryAuthorization}
    {signer : AuthoritySigner} {key raw : List UInt8} (hkey : signer.publicKey = some key)
    (hsign : signRegistryAuthorization lib ed a (some signer) = .ok raw) {policy : TrustPolicy}
    (hpolicy : policy.validate = .ok ()) (hauthority : authorityKey policy.registryAuthority = .ok key)
    {now : Int64} (hforce : RegistryMatches policy now a) {params : Params} {τ : ZMod bn254Fr}
    (hvalid : validateParams lib params = .ok ()) (hτ : params.hTau = lib.bn2.exp τ)
    (hcapacity : a.entries.length ≤ params.capacity)
    (hhandles : ∀ e ∈ a.entries, ∀ (u y : Secp256k1G1) (m : ℤ), trustPoint lib e.u = .ok u →
      trustPoint lib e.y = .ok y → member lib { u, y, d := none } = .ok m → (m : ZMod bn254Fr) ≠ -τ) :
    ∃ ctx registry pin entries issue,
      authorizedContext lib ed params policy raw now = .ok (ctx, registry) ∧
      RegistrationsOf lib a key pin entries ∧ newRegistry lib entries = .ok registry ∧
      decodeIssue a.issue = .ok issue ∧
      newVerificationContext lib params (entries.map fun e => { e.account with d := none }) issue
        a.k = .ok ctx := by
  simp only [signRegistryAuthorization, hkey, bind_eq_ok] at hsign
  obtain ⟨entries, hentries, hsigned⟩ := hsign
  obtain ⟨⟨registry, hregistry⟩, ⟨issue, hissue⟩, ⟨hk, hpos, hne, _⟩, pin, hregs⟩ :=
    registryRegistrations_sound hentries
  have hread := authorityVerify_authoritySign (strictTypes_foldDistinct _ (by simp [strictTypes]))
    (hasType_registryAuthorization a) hkey hsigned
  have hlength := hregs.enrolled.length_eq
  -- the ring of the entries, whose handles the registry has compared
  have hctx := newVerificationContext_of_handles hvalid hτ
    (entries.map fun e => { e.account with d := none }) ?_ ?_ ?_ ?_ ?_ issue hk
  · obtain ⟨ctx, hctx⟩ := hctx
    refine ⟨ctx, registry, pin, entries, issue, ?_, hregs, hregistry, hissue, hctx⟩
    refine authorizedContext_eq_ok.2 ⟨hpolicy, key, a.value, entries, issue, hauthority, hread, ?_⟩
    rw [registryAuthorizationOf_value]
    rw [Params.capacity] at hcapacity
    exact ⟨hforce, hpos, by omega, hentries, hregistry, hissue, hctx⟩
  · intro hnil
    rw [List.map_eq_nil_iff] at hnil
    rw [hnil, List.length_nil] at hlength
    exact hne hlength
  · rw [List.length_map]
    omega
  · rw [List.forall_mem_map]
    intro e he
    exact member_without_d lib (hregs.members e he)
  · rw [List.map_map]
    exact hregs.handles
  · rw [List.forall_mem_map]
    intro e he hzero
    obtain ⟨entry, hentry, henrolled⟩ := exists_of_forall₂_right hregs.enrolled he
    obtain ⟨hu, hy, _⟩ := (validateAccount_eq_ok lib).1 henrolled.account_valid
    apply hhandles entry hentry _ _ _ (trustPoint_eq_ok.2 ⟨henrolled.u_eq, hu⟩)
      (trustPoint_eq_ok.2 ⟨henrolled.y_eq, hy⟩) (member_without_d lib (hregs.members e he))
    rw [eq_neg_iff_add_eq_zero, add_comm]
    exact hzero

/-- What the registry authority signs is accepted by every verifier whose policy has its labels:
the envelope is within the size limit, and the context holds the accounts of the entries in order
without their exponents, the issue and the quota, with a registry that resolves every entry's trace
key to its user. -/
theorem signed_registry_accepted (a : RegistryAuthorization) (signer : AuthoritySigner)
    (key raw : List UInt8) (hkey : signer.publicKey = some key)
    (hsign : signRegistryAuthorization lib ed a (some signer) = .ok raw) (policy : TrustPolicy)
    (hpolicy : policy.validate = .ok ()) (hauthority : authorityKey policy.registryAuthority = .ok key)
    (now : Int64) (hforce : RegistryMatches policy now a) (params : Params) (τ : ZMod bn254Fr)
    (hvalid : validateParams lib params = .ok ()) (hτ : params.hTau = lib.bn2.exp τ)
    (hcapacity : a.entries.length ≤ params.capacity)
    (hhandles : ∀ e ∈ a.entries, ∀ (u y : Secp256k1G1) (m : ℤ), trustPoint lib e.u = .ok u →
      trustPoint lib e.y = .ok y → member lib { u, y, d := none } = .ok m → (m : ZMod bn254Fr) ≠ -τ) :
    raw.length ≤ maxTrustBytes ∧ ∃ ctx registry pin entries,
      authorizedContext lib ed params policy raw now = .ok (ctx, registry) ∧
      RegistrationsOf lib a key pin entries ∧ ctx.params = params ∧
      ctx.accounts = entries.map (fun e => { e.account with d := none }) ∧
      decodeIssue a.issue = .ok ctx.issue ∧ ctx.k = a.k ∧
      ∀ e ∈ entries, registry.resolve lib (registeredTraceKey lib e.account) = .ok e.userID := by
  obtain ⟨ctx, registry, pin, entries, issue, hctx, hregs, hregistry, hissue, hnew⟩ :=
    authorizedContext_signRegistryAuthorization hkey hsign hpolicy hauthority hforce hvalid hτ
      hcapacity hhandles
  simp only [signRegistryAuthorization, hkey, bind_eq_ok] at hsign
  obtain ⟨_, _, hsigned⟩ := hsign
  refine ⟨authoritySign_size hkey hsigned, ctx, registry, pin, entries, hctx, hregs, ?_⟩
  obtain ⟨_, _, _, rd, _, rfl⟩ := (newVerificationContext_eq_ok lib).1 hnew
  exact ⟨rfl, rfl, hissue, rfl, fun e he => resolve_registeredTraceKey hregistry he⟩

theorem signed_registry_accepted_sample :
    ∃ c c' raw, signRegistryAuthorization exponentLib sampleEd25519
        (sampleAuthorization [bob.enrollment c, alice.enrollment c'])
        (some (sampleSigner (List.replicate 32 2))) = .ok raw ∧
      raw.length ≤ maxTrustBytes ∧ ∃ ctx registry,
        authorizedContext exponentLib sampleEd25519 sampleParams samplePolicy raw 5 =
          .ok (ctx, registry) ∧ ctx.accounts.length = 2 ∧ ctx.k = 2 := by
  obtain ⟨⟨c, hc⟩, c', hc'⟩ := sample_challenged
  obtain ⟨raw, hraw⟩ := sampleRegistry_signed hc hc'
  obtain ⟨hsize, ctx, registry, _, _, hctx, hregs, _, haccounts, _, hk, _⟩ :=
    signed_registry_accepted _ _ _ raw rfl hraw samplePolicy samplePolicy_valid
      samplePolicy_keys.1 5 (sampleAuthorization_matches _) sampleParams 5 sampleParams_valid
      sampleParams_hTau (by decide : 2 ≤ sampleParams.capacity) sampleEnrollment_handle
  refine ⟨c, c', raw, hraw, hsize, ctx, registry, hctx, ?_, hk⟩
  rw [haccounts, List.length_map, ← hregs.enrolled.length_eq]
  rfl

/-! ## Soundness -/

theorem loadAuthorizedVerifier_sound
    {load : FixedBytes 32 → Except String (PublicSetup zk)} {policy : TrustPolicy}
    {approval : List UInt8} {now : Int64} {av : AuthorizedVerifier zk}
    (h : loadAuthorizedVerifier ed load policy approval now = .ok av) :
    av.policy = policy ∧ av.approval = approval ∧ ∃ pin setup,
      parseDigest policy.manifestSHA256 = .ok pin ∧ load pin = .ok setup ∧
        av.loaded = some setup := by
  simp only [loadAuthorizedVerifier, bind_eq_ok, pure_eq_ok] at h
  obtain ⟨_, happroval, setup, hsetup, rfl⟩ := h
  obtain ⟨hpolicy, _⟩ := verifySetupApproval_sound happroval
  obtain ⟨_, ⟨pin, hpin, _⟩, _⟩ := TrustPolicy.validate_eq_ok.1 hpolicy
  rw [hpin] at hsetup
  exact ⟨rfl, rfl, pin, setup, hpin, hsetup, rfl⟩

theorem AuthorizedVerifier.verify_eq_ok {av : AuthorizedVerifier zk} {setup : PublicSetup zk}
    (hloaded : av.loaded = some setup) {registry message : List UInt8} {sig : Signed}
    {now : Int64} {u : Unit} :
    AuthorizedVerifier.verify lib ed (some av) registry message sig now = .ok u ↔
      verifySetupApproval ed av.policy av.approval now = .ok () ∧ ∃ ctx enrolled,
        authorizedContext lib ed setup.parameters av.policy registry now = .ok (ctx, enrolled) ∧
        setup.verifier.verify lib ctx message sig = .ok () := by
  simp only [AuthorizedVerifier.verify, AuthorizedVerifier.context, hloaded, bind_eq_ok, pure_eq_ok]
  constructor
  · rintro ⟨_, ⟨_, happroval, ⟨ctx, enrolled⟩, hctx, rfl⟩, hverify⟩
    exact ⟨happroval, ctx, enrolled, hctx, hverify⟩
  · rintro ⟨happroval, ctx, enrolled, hctx, hverify⟩
    exact ⟨_, ⟨(), happroval, (ctx, enrolled), hctx, rfl⟩, hverify⟩

/-- An authorized verifier accepts only what the two authorities signed: an approval of its setup
and an authorization with the policy's labels, both in force at the time of the verification, and
the proof is checked against exactly the accounts, the issue and the quota of that authorization.
Every entry proves possession of its secret under its own labels, account ids and handles are
distinct, and users and trace keys correspond one to one. -/
theorem authorized_verification_sound
    (load : FixedBytes 32 → Except String (PublicSetup zk)) (policy : TrustPolicy)
    (approval : List UInt8) (loadTime now : Int64) (av : AuthorizedVerifier zk)
    (registry message : List UInt8) (sig : Signed)
    (hload : loadAuthorizedVerifier ed load policy approval loadTime = .ok av)
    (hverify : AuthorizedVerifier.verify lib ed (some av) registry message sig now = .ok ()) :
    ∃ (setupKey registryKey : List UInt8) (endorsement : SetupApproval) (a : RegistryAuthorization)
      (pin : FixedBytes 32) (setup : PublicSetup zk) (ctx : VerificationContext)
      (entries : List Registration),
      authorityKey policy.setupAuthority = .ok setupKey ∧
      SignedDocument ed setupKey setupApprovalType setupApprovalOf endorsement ∧
      ApprovalInForce policy now endorsement ∧
      authorityKey policy.registryAuthority = .ok registryKey ∧
      SignedDocument ed registryKey registryAuthorizationType registryAuthorizationOf a ∧
      RegistryInForce policy now a ∧
      load pin = .ok setup ∧ setup.verifier.verify lib ctx message sig = .ok () ∧
      ctx.params = setup.parameters ∧
      ctx.accounts = entries.map (fun e => { e.account with d := none }) ∧
      decodeIssue a.issue = .ok ctx.issue ∧ ctx.k = a.k ∧
      RegistrationsOf lib a registryKey pin entries := by
  obtain ⟨rfl, rfl, pin, setup, hpin, hsetup, hloaded⟩ := loadAuthorizedVerifier_sound hload
  obtain ⟨happroval, ctx, enrolled, hctx, hproof⟩ :=
    (AuthorizedVerifier.verify_eq_ok hloaded).1 hverify
  obtain ⟨_, setupKey, endorsement, hsetupKey, hsigned, hforce⟩ :=
    verifySetupApproval_sound happroval
  obtain ⟨hparams, registryKey, a, pin', entries, hauth⟩ := authorizedContext_sound hctx
  -- the digest of the setup and the one in the enrollment challenges are the policy's
  obtain rfl : pin = pin' := by
    have hsame := hauth.registrations.pin_eq
    rw [hauth.inForce.manifest_eq, hpin] at hsame
    exact Except.ok.inj hsame
  exact ⟨setupKey, registryKey, endorsement, a, pin, setup, ctx, entries, hsetupKey, hsigned, hforce,
    hauth.key_eq, hauth.signed, hauth.inForce, hsetup, hproof, hparams, hauth.accounts_eq,
    hauth.issue_eq, hauth.k_eq, hauth.registrations⟩

theorem parseTrustPolicy_valid {raw : List UInt8} {policy : TrustPolicy}
    (h : parseTrustPolicy raw = .ok policy) : policy.validate = .ok () := by
  simp only [parseTrustPolicy, bind_eq_ok, rejectIf_eq_ok, pure_eq_ok] at h
  obtain ⟨_, _, v, _, _, hvalid, rfl⟩ := h
  exact hvalid

/-- The command says that a signature is verified only for the policy in its file: what it prints are
the manifest and the epoch of an authorization in force, signed by the authority of that policy, and
the signature in its file is accepted for the message in its file and the ring of that
authorization. -/
theorem authorizedVerifyCommand_sound {files : Directory} {flags : VerifyFlags}
    {load : FixedBytes 32 → Except String (PublicSetup zk)} {loadTime now : Int64} {manifest : String}
    {epoch : UInt64}
    (h : authorizedVerifyCommand lib ed files flags load loadTime now = .ok (manifest, epoch)) :
    ∃ raw policy message encoded sig key a pin entries ctx registry setup,
      readBoundedFile files flags.policy 8192 = .ok raw ∧ parseTrustPolicy raw = .ok policy ∧
      policy.validate = .ok () ∧
      readBoundedFile files flags.message (16 * 2 ^ 20) = .ok message ∧
      readBoundedFile files flags.signature (2 * 2 ^ 20) = .ok encoded ∧
      unmarshalSigned lib encoded = .ok sig ∧
      AuthorizedContext lib ed policy now key a pin entries ctx registry ∧
      a.manifestSHA256 = manifest ∧ a.epoch = epoch ∧ load pin = .ok setup ∧
      setup.verifier.verify lib ctx message sig = .ok () := by
  simp only [authorizedVerifyCommand, bind_eq_ok, pure_eq_ok, Prod.mk.injEq] at h
  obtain ⟨_, -, raw, hraw, policy, hpolicy, approval, -, av, hav, registry, -, message, hmessage,
    encoded, hencoded, sig, hsig, _, hverify, rfl, rfl⟩ := h
  obtain ⟨rfl, -, pin, setup, hpin, hsetup, hloaded⟩ := loadAuthorizedVerifier_sound hav
  obtain ⟨-, ctx, enrolled, hctx, hproof⟩ := (AuthorizedVerifier.verify_eq_ok hloaded).1 hverify
  obtain ⟨-, key, a, pin', entries, hauth⟩ := authorizedContext_sound hctx
  obtain rfl : pin = pin' := by
    have hsame := hauth.registrations.pin_eq
    rw [hauth.inForce.manifest_eq, hpin] at hsame
    exact Except.ok.inj hsame
  exact ⟨raw, av.policy, message, encoded, sig, key, a, pin, entries, ctx, enrolled, setup, hraw,
    hpolicy, parseTrustPolicy_valid hpolicy, hmessage, hencoded, hsig, hauth,
    hauth.inForce.manifest_eq, hauth.inForce.epoch_eq, hsetup, hproof⟩

/-- An authorized verifier traces only to users that the registry authority has signed: the traced key
is that of an enrolled account of the user. -/
theorem AuthorizedVerifier.trace_sound {av : AuthorizedVerifier zk}
    {registry ma mb : List UInt8} {sa sb : Signed} {now : Int64} {result : TraceResult}
    (h : AuthorizedVerifier.trace lib ed (some av) registry ma sa mb sb now = (result, none))
    (htraced : result.status = .traced) :
    ∃ key a pin entries ctx enrolled, AuthorizedContext lib ed av.policy now key a pin entries ctx
        enrolled ∧
      ∃ e ∈ entries, e.userID = result.userID ∧ registeredTraceKey lib e.account = result.key := by
  unfold AuthorizedVerifier.trace at h
  split at h
  · simp at h
  · rename_i loaded ctx enrolled hcontext
    have hctx : ∃ params, authorizedContext lib ed params av.policy registry now =
        .ok (ctx, enrolled) := by
      unfold AuthorizedVerifier.context at hcontext
      cases hloaded : av.loaded with
      | none => simp [hloaded] at hcontext
      | some setup =>
          simp only [hloaded, bind_eq_ok, pure_eq_ok, Prod.mk.injEq] at hcontext
          obtain ⟨_, _, _, hctx, _, rfl⟩ := hcontext
          exact ⟨_, hctx⟩
    obtain ⟨params, hctx⟩ := hctx
    obtain ⟨-, key, a, pin, entries, hauth⟩ := authorizedContext_sound hctx
    have hresolve := Verifier.resolve_of_traced h htraced
    exact ⟨key, a, pin, entries, ctx, enrolled, hauth, (resolve_iff hauth.registry_eq).1 hresolve⟩

/-- A setup approval signed for the policy's labels is accepted while it is in force. -/
theorem verifySetupApproval_signSetupApproval {pin : FixedBytes 32} {namespaceID : String}
    {before after now : Int64} {signer : AuthoritySigner} {key raw : List UInt8}
    (hkey : signer.publicKey = some key)
    (hsign : signSetupApproval ed pin namespaceID before after (some signer) = .ok raw)
    {policy : TrustPolicy} (hpolicy : policy.validate = .ok ())
    (hauthority : authorityKey policy.setupAuthority = .ok key)
    (hnamespace : policy.namespaceID = namespaceID) (hpin : policy.manifestSHA256 = hexDigest pin)
    (hwindow : before.toInt ≤ now.toInt ∧ now.toInt < after.toInt) :
    verifySetupApproval ed policy raw now = .ok () := by
  simp only [signSetupApproval, bind_eq_ok, rejectIf_eq_ok, not_or, Bool.not_eq_false,
    validTrustTime_iff] at hsign
  obtain ⟨_, ⟨_, _, ⟨hpos, horder⟩, _⟩, hsigned⟩ := hsign
  have htype : HasType setupApprovalType (SetupApproval.value
      ⟨"lktrs/setup-approval/v1", namespaceID, hexDigest pin, before, after⟩) :=
    ⟨rfl, rfl, rfl, hasType_int64 before, hasType_int64 after, rfl⟩
  have hread := authorityVerify_authoritySign (strictTypes_foldDistinct _ (by simp [strictTypes]))
    htype hkey hsigned
  simp only [verifySetupApproval, bind_eq_ok, rejectIf_eq_ok, functor_map_eq_ok, not_or, not_not,
    Bool.not_eq_false, validTrustTime_iff]
  rw [hauthority]
  refine ⟨(), hpolicy, _, ⟨_, hread, rfl⟩, ?_⟩
  simp only [SetupApproval.value, setupApprovalOf, Int64.ofInt_toInt]
  exact ⟨trivial, hnamespace.symm, hpin.symm, ⟨hpos, horder⟩, hwindow⟩

theorem sampleApproval_verified :
    ∃ raw, verifySetupApproval sampleEd25519 samplePolicy raw 5 = .ok () := by
  have hsize : 4 * (marshal setupApprovalType (SetupApproval.value
      ⟨"lktrs/setup-approval/v1", "test", hexDigest (sha256 []), 0, 10⟩)).length ≤
        maxTrustBytes / 2 := by
    simp only [marshal, setupApprovalType, SetupApproval.value, encodeValue, encodeFields,
      Json.render, renderMembers, hexDigest, renderString_hexEncode, List.length_append,
      List.length_cons, List.length_nil, length_hexChars, FixedBytes.length_toList]
    decide
  obtain ⟨raw, hraw⟩ := sampleSigner_signs (List.replicate 32 1) (by decide)
    ((byteLength_le _).trans hsize)
  have hsigned : signSetupApproval sampleEd25519 (sha256 []) "test" 0 10
      (some (sampleSigner (List.replicate 32 1))) = .ok raw := by
    simp only [signSetupApproval, bind_eq_ok, rejectIf_eq_ok]
    exact ⟨(), by simp [sampleDigest_ne_zero]; decide, hraw⟩
  exact ⟨raw, verifySetupApproval_signSetupApproval rfl hsigned samplePolicy_valid
    samplePolicy_keys.2 rfl rfl (by decide)⟩

/-- The ring of the sample authorization is the sample ring without the exponents. -/
theorem sampleRegistry_context {c c' : ℤ} (hc : bob.Challenged c) (hc' : alice.Challenged c') :
    ∃ raw ctx registry,
      authorizedContext exponentLib sampleEd25519 sampleParams samplePolicy raw 5 =
        .ok (ctx, registry) ∧
      newVerificationContext exponentLib sampleParams (sampleRing.map fun a => { a with d := none })
        (FixedBytes.zero 32) 2 = .ok ctx := by
  obtain ⟨raw, hraw⟩ := sampleRegistry_signed hc hc'
  obtain ⟨ctx, registry, pin, entries, issue, hctx, hregs, _, hissue, hnew⟩ :=
    authorizedContext_signRegistryAuthorization rfl hraw samplePolicy_valid samplePolicy_keys.1
      (sampleAuthorization_matches _) sampleParams_valid sampleParams_hTau
      (by decide : 2 ≤ sampleParams.capacity) sampleEnrollment_handle
  have hring : (entries.map fun e => { e.account with d := none }) =
      sampleRing.map fun a => { a with d := none } := by
    rcases hregs.enrolled with _ | ⟨hbob, hrest⟩
    rcases hrest with _ | ⟨halice, hnil⟩
    cases hnil
    simp only [List.map_cons, List.map_nil, sampleRing,
      ← encodeSecpPoint_inj (hexEncode_inj hbob.u_eq),
      ← encodeSecpPoint_inj (hexEncode_inj hbob.y_eq),
      ← encodeSecpPoint_inj (hexEncode_inj halice.u_eq),
      ← encodeSecpPoint_inj (hexEncode_inj halice.y_eq)]
    rfl
  obtain rfl : issue = FixedBytes.zero 32 := (hexDigest_inj (decodeIssue_eq_ok.1 hissue)).symm
  rw [hring] at hnew
  exact ⟨raw, ctx, registry, hctx, hnew⟩

theorem authorized_verification_sound_sample :
    ∃ approval registry av sig, loadAuthorizedVerifier sampleEd25519
        (fun _ => .ok samplePublicSetup) samplePolicy approval 5 = .ok av ∧
      AuthorizedVerifier.verify exponentLib sampleEd25519 (some av) registry [] sig 5 = .ok () ∧
      ∃ key a, SignedDocument sampleEd25519 key registryAuthorizationType registryAuthorizationOf a ∧
        RegistryInForce samplePolicy 5 a := by
  obtain ⟨approval, hverified⟩ := sampleApproval_verified
  obtain ⟨⟨c, hc⟩, c', hc'⟩ := sample_challenged
  obtain ⟨raw, ctx, registry, hctx, hsame⟩ := sampleRegistry_context hc hc'
  obtain ⟨⟨st, w⟩, hmake⟩ := exists_ok_of_isOk (x := makeStatement exponentLib sampleParams
    (sampleRing.map fun a => { a with d := none }) 1 3 7 (FixedBytes.zero 32) (sha256 []) 9 2 1)
    (by decide +kernel)
  have hproof : samplePublicSetup.verifier.verify exponentLib ctx [] ⟨st, sampleProof⟩ = .ok () :=
    sampleVerifier_accepts hsame hmake
  obtain ⟨av, hav⟩ : ∃ av : AuthorizedVerifier sampleGroth16,
      av = ⟨some samplePublicSetup, samplePolicy, approval⟩ := ⟨_, rfl⟩
  have hload : loadAuthorizedVerifier sampleEd25519 (fun _ => .ok samplePublicSetup) samplePolicy
      approval 5 = .ok av := by
    rw [loadAuthorizedVerifier, hverified, hav]
    rfl
  have hloaded : av.loaded = some samplePublicSetup := by rw [hav]
  have hverify : AuthorizedVerifier.verify exponentLib sampleEd25519 (some av) raw []
      ⟨st, sampleProof⟩ 5 = .ok () := by
    apply (AuthorizedVerifier.verify_eq_ok hloaded).2
    rw [hav]
    exact ⟨hverified, ctx, registry, hctx, hproof⟩
  obtain ⟨_, key, _, a, _, _, _, _, _, _, _, _, hsigned, hforce, _⟩ :=
    authorized_verification_sound _ _ _ _ _ _ _ _ _ hload hverify
  exact ⟨approval, raw, _, _, hload, hverify, key, a, hsigned, hforce⟩

end Lktrs.NativeProof
