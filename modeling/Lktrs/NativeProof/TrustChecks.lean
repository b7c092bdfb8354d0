import Lktrs.Foundation.JsonSize
import Lktrs.NativeProof.HashInputs
import Lktrs.NativeProof.Snapshots
import Lktrs.NativeProof.Tracing
import Lktrs.NativeProof.Enrollments

/-!
# What an authorized verification rests on

An authorized verifier accepts when every check of six functions passed. Here
each function says what it checked, as one statement about its success; put
together, an accepted verification had an approval of the setup authority, an
authorization of the registry authority with the policy's labels, and a ring
made of exactly the enrollments of that authorization
(`authorized_verification_sound`).
-/

set_option autoImplicit false

namespace Lktrs.NativeProof

open Lktrs.Foundation

variable {lib : GnarkCrypto} {ed : Ed25519} {zk : Groth16}

/-! ## Policies and signed documents -/

/-- A valid policy: its labels, and the two keys it names. -/
theorem TrustPolicy.validate_eq_ok {p : TrustPolicy} {u : Unit} :
    p.validate = .ok u ↔
      (p.format = "lktrs/trust-policy/v1" ∧ validTrustID p.namespaceID = true ∧
        p.registryEpoch ≠ 0 ∧ p.k ≠ 0) ∧
      (∃ pin, parseDigest p.manifestSHA256 = .ok pin ∧ pin ≠ FixedBytes.zero 32) ∧
      (∃ issue, decodeIssue p.issue = .ok issue) ∧
      (∃ key, authorityKey p.setupAuthority = .ok key) ∧
      ∃ key, authorityKey p.registryAuthority = .ok key := by
  unfold TrustPolicy.validate
  cases hpin : parseDigest p.manifestSHA256 with
  | error e => simp [bind_eq_ok]
  | ok pin =>
      simp only [bind_eq_ok, rejectIf_eq_ok, pure_eq_ok, not_or, not_not, Bool.not_eq_false,
        Except.ok.injEq, exists_eq_left']
      constructor
      · rintro ⟨_, hlabels, _, hne, issue, hissue, setup, hsetup, registry, hregistry, _⟩
        exact ⟨hlabels, hne, ⟨issue, hissue⟩, ⟨setup, hsetup⟩, registry, hregistry⟩
      · rintro ⟨hlabels, hne, ⟨issue, hissue⟩, ⟨setup, hsetup⟩, registry, hregistry⟩
        exact ⟨(), hlabels, (), hne, issue, hissue, setup, hsetup, registry, hregistry, trivial⟩

theorem validTrustTime_iff {before after now : Int64} :
    validTrustTime before after now = true ↔
      (0 ≤ before.toInt ∧ before.toInt < after.toInt) ∧
        before.toInt ≤ now.toInt ∧ now.toInt < after.toInt := by
  simp [validTrustTime, and_assoc]

/-- Some payload with a signature accepted under the key is read as the document. -/
def SignedDocument {α : Type} (ed : Ed25519) (key : List UInt8) (ty : GoType) (read : GoValue → α)
    (document : α) : Prop :=
  ∃ payload sig v, ed.verify key (textBytes trustDomain ++ payload) sig = true ∧
    strictJSON ty payload = .ok v ∧ document = read v

theorem authorityVerify_eq_ok {raw key : List UInt8} {ty : GoType} {v : GoValue} :
    authorityVerify ed raw key ty = .ok v ↔
      raw.length ≤ maxTrustBytes ∧ key.length = 32 ∧
        ∃ env payload sig, strictJSON authorityEnvelopeType raw = .ok env ∧
          decodeB64 (authorityEnvelopeOf env).payload = .ok payload ∧
          decodeB64 (authorityEnvelopeOf env).signature = .ok sig ∧
          ed.verify key (textBytes trustDomain ++ payload) sig = true ∧
          strictJSON ty payload = .ok v := by
  simp only [authorityVerify, bind_eq_ok, rejectIf_eq_ok, functor_map_eq_ok, not_or, not_lt,
    gt_iff_lt, not_not, Bool.not_eq_false]
  constructor
  · rintro ⟨_, ⟨hraw, hkey⟩, _, ⟨env, henv, rfl⟩, payload, hpayload, sig, hsig, _, hverify, hv⟩
    exact ⟨hraw, hkey, env, payload, sig, henv, hpayload, hsig, hverify, hv⟩
  · rintro ⟨hraw, hkey, env, payload, sig, henv, hpayload, hsig, hverify, hv⟩
    exact ⟨(), ⟨hraw, hkey⟩, _, ⟨env, henv, rfl⟩, payload, hpayload, sig, hsig, (), hverify, hv⟩

theorem signedDocument_of_authorityVerify {α : Type} {raw key : List UInt8} {ty : GoType}
    {v : GoValue} {read : GoValue → α} (h : authorityVerify ed raw key ty = .ok v) :
    SignedDocument ed key ty read (read v) := by
  obtain ⟨_, _, _, payload, sig, _, _, _, hverify, hv⟩ := authorityVerify_eq_ok.1 h
  exact ⟨payload, sig, v, hverify, hv, rfl⟩

/-! ## What an authority signs is read back -/

theorem authoritySign_eq_ok {document raw key : List UInt8} {signer : AuthoritySigner}
    (hkey : signer.publicKey = some key) :
    authoritySign ed document (some signer) = .ok raw ↔
      key.length = 32 ∧ document.length ≤ maxTrustBytes / 2 ∧
        ∃ sig, signer.sign (textBytes trustDomain ++ document) = .ok sig ∧
          ed.verify key (textBytes trustDomain ++ document) sig = true ∧
          raw = documentBytes authorityEnvelopeType
            (AuthorityEnvelope.value ⟨base64Encode document, base64Encode sig⟩) := by
  simp only [authoritySign, hkey, bind_eq_ok, rejectIf_eq_ok, pure_eq_ok, not_not, gt_iff_lt,
    not_lt, Bool.not_eq_false]
  constructor
  · rintro ⟨_, hlen, _, hsize, sig, hsig, _, hverify, rfl⟩
    exact ⟨hlen, hsize, sig, hsig, hverify, rfl⟩
  · rintro ⟨hlen, hsize, sig, hsig, hverify, rfl⟩
    exact ⟨(), hlen, (), hsize, sig, hsig, (), hverify, rfl⟩

/-- The size of an envelope: the names and signs around the two base64 texts take 37 bytes. -/
theorem length_envelope (payload sig : List UInt8) :
    (documentBytes authorityEnvelopeType
        (AuthorityEnvelope.value ⟨base64Encode payload, base64Encode sig⟩)).length =
      37 + 4 * ((payload.length + 2) / 3) + 4 * ((sig.length + 2) / 3) := by
  have htext : marshal authorityEnvelopeType
      (AuthorityEnvelope.value ⟨base64Encode payload, base64Encode sig⟩) =
        "\x7b\"payload_b64\":\"".toList ++ (base64Chars payload ++
          ("\",\"signature_b64\":\"".toList ++ (base64Chars sig ++ "\"\x7d".toList))) := by
    have hpayload : renderString "payload_b64" = "\"payload_b64\"".toList := by decide
    have hsignature : renderString "signature_b64" = "\"signature_b64\"".toList := by decide
    simp [marshal, authorityEnvelopeType, AuthorityEnvelope.value, encodeValue, encodeFields,
      Json.render, renderMembers, renderString_base64Encode, hpayload, hsignature]
  have hascii : ∀ c ∈ marshal authorityEnvelopeType
      (AuthorityEnvelope.value ⟨base64Encode payload, base64Encode sig⟩), c.utf8Size = 1 := by
    have hplain {cs : List Char} (h : cs.all (·.utf8Size = 1) = true) : ∀ c ∈ cs, c.utf8Size = 1 := by
      simpa using h
    rw [htext]
    simp only [List.forall_mem_append]
    exact ⟨hplain (by decide), utf8Size_of_mem_base64Chars payload, hplain (by decide),
      utf8Size_of_mem_base64Chars sig, hplain (by decide)⟩
  rw [documentBytes, length_textBytes, utf8ByteSize_ofList_of_forall hascii, htext]
  simp only [List.length_append, length_base64Chars]
  have hopen : "\x7b\"payload_b64\":\"".toList.length = 16 := by decide
  have hmiddle : "\",\"signature_b64\":\"".toList.length = 19 := by decide
  have hclose : "\"\x7d".toList.length = 2 := by decide
  rw [hopen, hmiddle, hclose]
  omega

/-- The envelope of a document that the signer's limit admits is within the verifier's. -/
theorem authoritySign_size {document raw : List UInt8} {signer : AuthoritySigner}
    {key : List UInt8} (hkey : signer.publicKey = some key)
    (h : authoritySign ed document (some signer) = .ok raw) : raw.length ≤ maxTrustBytes := by
  obtain ⟨_, hsize, sig, _, hverify, rfl⟩ := (authoritySign_eq_ok hkey).1 h
  have hsig := ed.length_signature _ _ _ hverify
  rw [length_envelope, hsig]
  rw [maxTrustBytes] at hsize ⊢
  omega

/-- A reader of authority documents returns the value an authority signed. -/
theorem authorityVerify_authoritySign {ty : GoType} {v : GoValue} {raw key : List UInt8}
    {signer : AuthoritySigner} (hd : ty.foldDistinct = true) (hv : HasType ty v)
    (hkey : signer.publicKey = some key)
    (h : authoritySign ed (documentBytes ty v) (some signer) = .ok raw) :
    authorityVerify ed raw key ty = .ok v := by
  have hsize := authoritySign_size hkey h
  obtain ⟨hlen, _, sig, _, hverify, hraw⟩ := (authoritySign_eq_ok hkey).1 h
  have henvelope : strictJSON authorityEnvelopeType raw = .ok (AuthorityEnvelope.value
      ⟨base64Encode (documentBytes ty v), base64Encode sig⟩) := by
    rw [hraw]
    apply decodeDocument_marshal
    · exact strictTypes_foldDistinct _ (by simp [strictTypes])
    · simp [HasType, FieldsHaveType, authorityEnvelopeType, AuthorityEnvelope.value]
  apply authorityVerify_eq_ok.2
  refine ⟨hsize, hlen, _, documentBytes ty v, sig, henvelope, ?_, ?_, hverify, ?_⟩
  · exact decodeB64_eq_ok.2 rfl
  · exact decodeB64_eq_ok.2 rfl
  · exact decodeDocument_marshal hd hv

/-! ## The setup approval -/

/-- An approval of a policy's setup that is in force at a time. -/
structure ApprovalInForce (policy : TrustPolicy) (now : Int64) (a : SetupApproval) : Prop where
  format_eq : a.format = "lktrs/setup-approval/v1"
  namespace_eq : a.namespaceID = policy.namespaceID
  manifest_eq : a.manifestSHA256 = policy.manifestSHA256
  window : a.notBefore.toInt ≤ now.toInt ∧ now.toInt < a.notAfter.toInt

theorem verifySetupApproval_sound {policy : TrustPolicy} {raw : List UInt8} {now : Int64} {u : Unit}
    (h : verifySetupApproval ed policy raw now = .ok u) :
    policy.validate = .ok () ∧ ∃ key a, authorityKey policy.setupAuthority = .ok key ∧
      SignedDocument ed key setupApprovalType setupApprovalOf a ∧ ApprovalInForce policy now a := by
  simp only [verifySetupApproval, bind_eq_ok, rejectIf_eq_ok, functor_map_eq_ok, not_or, not_not,
    Bool.not_eq_false] at h
  obtain ⟨_, hpolicy, _, ⟨v, hv, rfl⟩, hformat, hnamespace, hmanifest, htime⟩ := h
  obtain ⟨_, _, _, ⟨key, hkey⟩, _⟩ := TrustPolicy.validate_eq_ok.1 hpolicy
  rw [hkey] at hv
  refine ⟨hpolicy, key, _, hkey, signedDocument_of_authorityVerify hv, ?_⟩
  exact ⟨hformat, hnamespace, hmanifest, (validTrustTime_iff.1 htime).2⟩

/-! ## Registry authorizations -/

/-- The loop over the entries: account ids are new, and each entry is enrolled in its place. -/
theorem collectRegistrations_sound {namespaceID : String} {pin : FixedBytes 32}
    {key : List UInt8} {es : List Enrollment} :
    ∀ {ids : List String} {regs : List Registration},
      collectRegistrations lib namespaceID pin key ids es = .ok regs →
        List.Forall₂ (Enrolled lib namespaceID pin key) es regs ∧
        (es.map Enrollment.accountID).Nodup ∧ ∀ e ∈ es, e.accountID ∉ ids := by
  induction es with
  | nil =>
      intro ids regs h
      cases h
      exact ⟨.nil, List.nodup_nil, by simp⟩
  | cons e es ih =>
      intro ids regs h
      simp only [collectRegistrations, bind_eq_ok, rejectIf_eq_ok, pure_eq_ok] at h
      obtain ⟨_, hnew, challenge, _, reg, hreg, rest, hrest, rfl⟩ := h
      obtain ⟨hall, hnodup, hids⟩ := ih hrest
      refine ⟨.cons (verifyEnrollment_sound hreg) hall, ?_, ?_⟩
      · -- a later entry with this id would have been refused by the scan
        rw [List.map_cons, List.nodup_cons, List.mem_map]
        refine ⟨?_, hnodup⟩
        rintro ⟨f, hf, heq⟩
        apply hids f hf
        rw [heq]
        exact List.mem_cons_self
      · rw [List.forall_mem_cons]
        refine ⟨hnew, ?_⟩
        intro f hf hmem
        exact hids f hf (List.mem_cons_of_mem _ hmem)

/-- The registrations of an accepted authorization. -/
structure RegistrationsOf (lib : GnarkCrypto) (a : RegistryAuthorization) (key : List UInt8)
    (pin : FixedBytes 32) (entries : List Registration) : Prop where
  format_eq : a.format = "lktrs/registry-authorization/v1"
  pin_eq : parseDigest a.manifestSHA256 = .ok pin
  enrolled : List.Forall₂ (Enrolled lib a.namespaceID pin key) a.entries entries
  account_ids : (a.entries.map Enrollment.accountID).Nodup
  members : ∀ e ∈ entries, member lib e.account = .ok (handle e.account)
  handles : (entries.map fun e => handle e.account).Nodup
  users : ∀ e ∈ entries, ∀ f ∈ entries, e.userID = f.userID ↔
    registeredTraceKey lib e.account = registeredTraceKey lib f.account

theorem registryRegistrations_sound {a : RegistryAuthorization} {key : List UInt8}
    {entries : List Registration} (h : registryRegistrations lib a key = .ok entries) :
    (∃ registry, newRegistry lib entries = .ok registry) ∧
      (∃ issue, decodeIssue a.issue = .ok issue) ∧
      (a.k ≠ 0 ∧ 0 ≤ a.notBefore.toInt ∧ a.entries.length ≠ 0 ∧ a.entries.length ≤ 65536) ∧
      ∃ pin, RegistrationsOf lib a key pin entries := by
  simp only [registryRegistrations, bind_eq_ok, rejectIf_eq_ok, pure_eq_ok, not_or, not_not,
    gt_iff_lt, not_lt, Bool.not_eq_false, validTrustTime_iff] at h
  obtain ⟨pin, hpin, _, ⟨hformat, _, _, hk, ⟨⟨hpos, _⟩, _⟩, hlen⟩, issue, hissue, regs, hregs,
    registry, hregistry, rfl⟩ := h
  obtain ⟨henrolled, hids, _⟩ := collectRegistrations_sound hregs
  obtain ⟨hmembers, hhandles, husers⟩ := registry_consistent hregistry
  exact ⟨⟨registry, hregistry⟩, ⟨issue, hissue⟩, ⟨hk, hpos, hlen⟩, pin, hformat, hpin, henrolled,
    hids, hmembers, hhandles, husers⟩

/-- An authorization with a policy's labels, at a time of its window. -/
structure RegistryMatches (policy : TrustPolicy) (now : Int64) (a : RegistryAuthorization) :
    Prop where
  namespace_eq : a.namespaceID = policy.namespaceID
  manifest_eq : a.manifestSHA256 = policy.manifestSHA256
  epoch_eq : a.epoch = policy.registryEpoch
  issue_eq : a.issue = policy.issue
  k_eq : a.k = policy.k
  window : a.notBefore.toInt ≤ now.toInt ∧ now.toInt < a.notAfter.toInt

/-- A registry authorization of a policy that is in force at a time. -/
structure RegistryInForce (policy : TrustPolicy) (now : Int64) (a : RegistryAuthorization) : Prop
    extends RegistryMatches policy now a where
  format_eq : a.format = "lktrs/registry-authorization/v1"

theorem authorizedContext_eq_ok {params : Params} {policy : TrustPolicy} {raw : List UInt8}
    {now : Int64} {ctx : VerificationContext} {registry : Registry} :
    authorizedContext lib ed params policy raw now = .ok (ctx, registry) ↔
      policy.validate = .ok () ∧ ∃ key v entries issue,
        authorityKey policy.registryAuthority = .ok key ∧
        authorityVerify ed raw key registryAuthorizationType = .ok v ∧
        RegistryMatches policy now (registryAuthorizationOf v) ∧
        0 ≤ (registryAuthorizationOf v).notBefore.toInt ∧
        ((registryAuthorizationOf v).entries.length : ℤ) ≤ params.powers.length - 1 ∧
        registryRegistrations lib (registryAuthorizationOf v) key = .ok entries ∧
        newRegistry lib entries = .ok registry ∧
        decodeIssue (registryAuthorizationOf v).issue = .ok issue ∧
        newVerificationContext lib params (entries.map fun e => { e.account with d := none })
          issue (registryAuthorizationOf v).k = .ok ctx := by
  simp only [authorizedContext, bind_eq_ok, rejectIf_eq_ok, functor_map_eq_ok, pure_eq_ok, not_or,
    not_not, Bool.not_eq_false, gt_iff_lt, not_lt, validTrustTime_iff, Prod.mk.injEq]
  constructor
  · rintro ⟨_, hpolicy, _, ⟨v, hv, rfl⟩, _, ⟨hns, hman, hepoch, hissue, hk, ⟨hpos, _⟩, hwindow⟩, _,
      hcap, entries, hentries, registry', hregistry, ctx', hctx, rfl, rfl⟩
    -- a validated policy has its key, and the registrations have decoded the issue
    obtain ⟨_, _, _, _, key, hkey⟩ := TrustPolicy.validate_eq_ok.1 hpolicy
    rw [hkey] at hv hentries
    obtain ⟨_, ⟨issue, hdecoded⟩, _⟩ := registryRegistrations_sound hentries
    rw [hdecoded] at hctx
    exact ⟨hpolicy, key, v, entries, issue, hkey, hv, ⟨hns, hman, hepoch, hissue, hk, hwindow⟩,
      hpos, hcap, hentries, hregistry, hdecoded, hctx⟩
  · rintro ⟨hpolicy, key, v, entries, issue, hkey, hv, hforce, hpos, hcap, hentries, hregistry,
      hissue, hctx⟩
    have horder := hforce.window.1.trans_lt hforce.window.2
    refine ⟨(), hpolicy, _, ⟨v, ?_, rfl⟩, (), ⟨hforce.namespace_eq, hforce.manifest_eq,
      hforce.epoch_eq, hforce.issue_eq, hforce.k_eq, ⟨hpos, horder⟩, hforce.window⟩, (), hcap,
      entries, ?_, registry, hregistry, ctx, ?_, rfl, rfl⟩
    · rw [hkey]
      exact hv
    · rw [hkey]
      exact hentries
    · rw [hissue]
      exact hctx

/-- What a context and a registry were taken from: an authorization that the policy's authority has
signed and that is in force. -/
structure AuthorizedContext (lib : GnarkCrypto) (ed : Ed25519) (policy : TrustPolicy) (now : Int64)
    (key : List UInt8) (a : RegistryAuthorization) (pin : FixedBytes 32)
    (entries : List Registration) (ctx : VerificationContext) (registry : Registry) : Prop where
  key_eq : authorityKey policy.registryAuthority = .ok key
  signed : SignedDocument ed key registryAuthorizationType registryAuthorizationOf a
  inForce : RegistryInForce policy now a
  registrations : RegistrationsOf lib a key pin entries
  registry_eq : newRegistry lib entries = .ok registry
  accounts_eq : ctx.accounts = entries.map fun e => { e.account with d := none }
  issue_eq : decodeIssue a.issue = .ok ctx.issue
  k_eq : ctx.k = a.k

theorem authorizedContext_sound {params : Params} {policy : TrustPolicy} {raw : List UInt8}
    {now : Int64} {ctx : VerificationContext} {registry : Registry}
    (h : authorizedContext lib ed params policy raw now = .ok (ctx, registry)) :
    ctx.params = params ∧
      ∃ key a pin entries, AuthorizedContext lib ed policy now key a pin entries ctx registry := by
  obtain ⟨_, key, v, entries, issue, hkey, hv, hscope, _, _, hentries, hregistry, hissue, hnew⟩ :=
    authorizedContext_eq_ok.1 h
  obtain ⟨_, _, _, pin, hregs⟩ := registryRegistrations_sound hentries
  obtain ⟨_, _, _, rd, _, rfl⟩ := (newVerificationContext_eq_ok lib).1 hnew
  exact ⟨rfl, key, _, pin, entries, {
    key_eq := hkey
    signed := signedDocument_of_authorityVerify hv
    inForce := ⟨hscope, hregs.format_eq⟩
    registrations := hregs
    registry_eq := hregistry
    accounts_eq := rfl
    issue_eq := hissue
    k_eq := rfl }⟩

end Lktrs.NativeProof
