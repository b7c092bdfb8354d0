import Lktrs.NativeProof.Backend
import Lktrs.NativeProof.CircuitSpec
import Lktrs.NativeProof.ExponentModel

/-!
# The host and the circuit describe one relation

A statement made by the host satisfies the circuit and is accepted by the
verification context (`define_of_makeStatement`, `check_of_makeStatement`); and an
accepted statement whose circuit is satisfied by an account of the ring is the
statement the host makes from those private values (`makeStatement_of_define`).
-/

set_option autoImplicit false

namespace Lktrs.NativeProof

open Lktrs.Foundation

variable (lib : GnarkCrypto)

theorem newVerificationContext_eq_ok {p : Params} {accounts : List Account} {issue : FixedBytes 32}
    {k : UInt32} {ctx : VerificationContext} :
    newVerificationContext lib p accounts issue k = .ok ctx ↔
      k ≠ 0 ∧ validateParams lib p = .ok () ∧ (∃ v, accumulate lib p accounts = .ok v) ∧
        ∃ rd, ringDigest lib accounts = .ok rd ∧
          ctx = { params := p, accounts, issue, k, vDigest := rd } := by
  simp only [newVerificationContext, bind_eq_ok, rejectIf_eq_ok, pure_eq_ok]
  constructor
  · rintro ⟨_, hk, _, hvalid, v, hv, rd, hrd, rfl⟩
    exact ⟨hk, hvalid, ⟨v, hv⟩, rd, hrd, rfl⟩
  · rintro ⟨hk, hvalid, ⟨v, hv⟩, rd, hrd, rfl⟩
    exact ⟨(), hk, (), hvalid, v, hv, rd, hrd, rfl⟩

/-- What a context accepts about a statement. -/
structure CheckedStatement (ctx : VerificationContext) (message : List UInt8) (st : Statement) :
    Prop where
  issue_eq : st.issue = ctx.issue
  k_eq : st.k = ctx.k
  messageDigest_eq : st.messageDigest = sha256 message
  ringDigest_eq : st.ringDigest = ctx.vDigest
  v_eq : accumulate lib ctx.params ctx.accounts = .ok st.v
  nym_good : goodBN lib st.nym = true
  s_good : goodSecp lib st.s = true
  t_good : goodSecp lib st.t = true
  challenge_eq : ∃ r, challenge lib st = .ok r ∧ st.r = some r

theorem check_eq_ok {ctx : VerificationContext} {message : List UInt8} {st : Statement} :
    ctx.check lib message st = .ok () ↔ CheckedStatement lib ctx message st := by
  simp only [VerificationContext.check, bind_eq_ok, rejectIf_eq_ok, not_or, not_not,
    Bool.not_eq_false]
  constructor
  · rintro ⟨_, ⟨hissue, hk⟩, _, hmessage, _, hring, v, hv, _, rfl, _, ⟨hnym, hs, ht⟩, _, _, r, hr,
      hreq⟩
    exact ⟨hissue, hk, hmessage, hring, hv, hnym, hs, ht, r, hr, hreq.symm⟩
  · rintro ⟨hissue, hk, hmessage, hring, hv, hnym, hs, ht, r, hr, hreq⟩
    have hcanonical := hashScalar_canonical ((challenge_eq_ok lib).1 hr).2.2
    exact ⟨(), ⟨hissue, hk⟩, (), hmessage, (), hring, _, hv, (), rfl, (), ⟨hnym, hs, ht⟩, (),
      hreq ▸ hcanonical, r, hr, hreq.symm⟩

/-- Verification: the profile of the proof, the statement, the proof's shape and encoding, and the
proof itself for the public inputs of the statement. -/
theorem verify_eq_ok {zk : Groth16} {v : Verifier zk} {ctx : VerificationContext}
    {message : List UInt8} {signed : Signed} :
    v.verify lib ctx message signed = .ok () ↔
      (signed.proof.version = circuitVersion ∧ signed.proof.circuitHash = v.circuitHash ∧
        signed.proof.keyID = v.keyID) ∧
      ctx.check lib message signed.statement = .ok () ∧
      (signed.proof.data.length ≠ 0 ∧ signed.proof.data.length ≤ maxProofBytes) ∧
      preflightProof signed.proof.data (zk.commitmentKeys v.vk) = .ok () ∧
      ∃ proof pub, zk.readProof signed.proof.data = .ok (proof, []) ∧
        publicAssignment lib ctx.params signed.statement = .ok pub ∧
        zk.verify proof v.vk pub = .ok () := by
  simp only [Verifier.verify, bind_eq_ok, rejectIf_eq_ok, wrapError_eq_ok, not_or, not_not, not_lt,
    gt_iff_lt]
  constructor
  · rintro ⟨_, hprofile, _, hcheck, _, hlength, _, hpreflight, ⟨proof, rest⟩, hread, _, hrest, pub,
      hpub, hverify⟩
    obtain rfl := List.length_eq_zero_iff.1 hrest
    exact ⟨hprofile, hcheck, hlength, hpreflight, proof, pub, hread, hpub, hverify⟩
  · rintro ⟨hprofile, hcheck, hlength, hpreflight, proof, pub, hread, hpub, hverify⟩
    exact ⟨(), hprofile, (), hcheck, (), hlength, (), hpreflight, (proof, []), hread, (), rfl, pub,
      hpub, hverify⟩

/-- How the public part of an assignment stands for parameters and a statement. -/
structure PublicOf (p : Params) (st : Statement) (c : PublicInputs) (r : ℤ)
    (υ : ZMod secp256k1Fr) : Prop where
  r_eq : st.r = some r
  issueBase_eq : issueBase lib st.issue = .ok (lib.secp.exp υ)
  v_eq : c.v.toAffine = st.v
  nym_eq : c.nym = emulate st.nym
  h_eq : c.h.toAffine = p.h
  hTau_eq : c.hTau.toAffine = p.hTau
  ut_eq : c.ut.toAffine = lib.secp.exp υ
  s_eq : c.sPoint.toAffine = st.s
  t_eq : c.tPoint.toAffine = st.t
  issue_eq : c.issue = st.issue
  ringDigest_eq : c.ringDigest = st.ringDigest
  messageDigest_eq : c.messageDigest = st.messageDigest
  timestamp_eq : c.timestamp = (st.timestamp.toNat : Variable)
  k_eq : c.k = (st.k.toNat : Variable)
  challenge_eq : c.r = Element.valueOf secp256k1Fr r

theorem publicOf_of_publicAssignment {p : Params} {st : Statement} {pub : PublicInputs}
    (h : publicAssignment lib p st = .ok pub) : ∃ r υ, PublicOf lib p st pub r υ := by
  cases hr : st.r with
  | none => simp [publicAssignment, hr] at h
  | some r =>
      simp only [publicAssignment, hr, bind_eq_ok, pure_eq_ok] at h
      obtain ⟨ut, hut, rfl⟩ := h
      obtain ⟨υ, _, rfl⟩ := issueBase_exp lib hut
      exact ⟨r, υ, {
        r_eq := hr
        issueBase_eq := hut
        v_eq := toAffine_emulate _
        nym_eq := rfl
        h_eq := toAffine_emulateG2 _
        hTau_eq := toAffine_emulateG2 _
        ut_eq := toAffine_secpPoint _
        s_eq := toAffine_secpPoint _
        t_eq := toAffine_secpPoint _
        issue_eq := rfl
        ringDigest_eq := rfl
        messageDigest_eq := rfl
        timestamp_eq := rfl
        k_eq := rfl
        challenge_eq := rfl }⟩

theorem publicAssignment_of_issueBase {p : Params} {st : Statement} {r : ℤ} (hr : st.r = some r)
    {ut : Secp256k1G1} (hut : issueBase lib st.issue = .ok ut) :
    ∃ pub, publicAssignment lib p st = .ok pub := by
  simp only [publicAssignment, hr, hut, ok_bind]
  exact ⟨_, rfl⟩

/-- The account points of an assignment are those of the witness. -/
theorem public_of_assignment {p : Params} {st : Statement} {w : SecretWitness} {a : Circuit}
    (h : assignment lib p st w = .ok a) :
    publicAssignment lib p st = .ok a.toPublicInputs ∧
      a.accountU.toAffine = w.account.u ∧ a.accountY.toAffine = w.account.y := by
  unfold assignment at h
  split at h
  · rw [bind_eq_ok] at h
    obtain ⟨pub, hpub, h⟩ := h
    obtain rfl := pure_eq_ok.1 h
    exact ⟨hpub, toAffine_secpPoint _, toAffine_secpPoint _⟩
  · cases h

/-- The secret and the counter of an assignment are those of the witness. -/
theorem private_of_assignment {p : Params} {st : Statement} {w : SecretWitness} {a : Circuit}
    (h : assignment lib p st w = .ok a) :
    w.x.map (Element.valueOf secp256k1Fr) = some a.x ∧ a.counter = (w.counter.toNat : Variable) := by
  unfold assignment at h
  split at h
  · rename_i hx _
    rw [bind_eq_ok] at h
    obtain ⟨pub, _, h⟩ := h
    obtain rfl := pure_eq_ok.1 h
    exact ⟨congrArg (Option.map _) hx, rfl⟩
  · cases h

/-- The element of a canonical scalar holds that scalar. -/
theorem value_valueOf_canonical {n : ℤ} (h : canonicalNonzero (some n) secp256k1Fr = true) :
    ((Element.valueOf secp256k1Fr n).value : ℤ) = n := by
  obtain ⟨hpos, hlt⟩ := canonicalNonzero_some.1 h
  rw [Element.value_valueOf hpos.le hlt, Int.toNat_of_nonneg hpos.le]

/-! ## The circuit as a relation -/

/-- What an assignment with these public inputs has to satisfy, in the words of the host. -/
structure CircuitRelation (c : Circuit) (st : Statement) (τ ν : ZMod bn254Fr)
    (b : Bn254G1 × Bn254G1 × Bn254G1) (υ : ZMod secp256k1Fr) (r : ℤ) : Prop where
  x_canonical : canonicalNonzero (some (c.x.value : ℤ)) secp256k1Fr = true
  d_canonical : canonicalNonzero (some (c.d.value : ℤ)) secp256k1Fr = true
  counter_lt : c.counter.val < st.k.toNat
  accountU_eq : c.accountU.toAffine = lib.secp.exp c.d.value
  accountY_eq : c.accountY.toAffine = lib.secp.exp (c.x.value * c.d.value)
  accountU_reduced : ∃ bs, secpEncoding c.accountU = .ok bs
  accountY_reduced : ∃ bs, secpEncoding c.accountY = .ok bs
  membership : ∀ a : Account, a.u = c.accountU.toAffine → a.y = c.accountY.toAffine →
    (memberHash a : ZMod bn254Fr) ≠ 0 ∧
      ∃ ω, ω ≠ 0 ∧ c.w.toAffine = lib.bn.exp ω ∧ ν = (τ + memberHash a) * ω
  tags : ∃ s t, TagFacts lib c.x.value st.issue (UInt32.ofNat c.counter.val) st s t b υ r

/-- A checked statement over valid parameters, with the logarithms of what it is made of. -/
structure CheckedPublic (c : Circuit) (st : Statement) (τ ν : ZMod bn254Fr) (n : ℕ)
    (b : Bn254G1 × Bn254G1 × Bn254G1) (υ : ZMod secp256k1Fr) (r : ℤ) : Prop where
  publicOf : PublicOf lib (srs lib τ n) st c.toPublicInputs r υ
  τ_ne : τ ≠ 0
  bases_eq : bases lib = .ok b
  v_eq : st.v = lib.bn.exp ν
  ν_ne : ν ≠ 0
  nym_good : goodBN lib st.nym = true
  s_good : goodSecp lib st.s = true
  t_good : goodSecp lib st.t = true
  challenge_eq : challenge lib st = .ok r

theorem residue_eq_cast (e : SecpScalar) : e.residue = ((e.value : ℤ) : ZMod secp256k1Fr) := by
  simp [Element.residue]

section Relation

variable {c : Circuit} {st : Statement} {τ ν : ZMod bn254Fr} {n : ℕ}
  {b : Bn254G1 × Bn254G1 × Bn254G1} {υ : ZMod secp256k1Fr} {r : ℤ}

theorem CheckedPublic.residue_r (h : CheckedPublic lib c st τ ν n b υ r) :
    c.r.residue = (r : ZMod secp256k1Fr) := by
  rw [residue_eq_cast, h.publicOf.challenge_eq, value_valueOf_canonical
    (hashScalar_canonical ((challenge_eq_ok lib).1 h.challenge_eq).2.2)]

theorem CheckedPublic.transcript (h : CheckedPublic lib c st τ ν n b υ r) :
    Circuit.TranscriptOf c st :=
  ⟨h.publicOf.nym_eq, h.publicOf.issue_eq, h.publicOf.ringDigest_eq, h.publicOf.messageDigest_eq,
    h.publicOf.timestamp_eq, h.publicOf.k_eq⟩

/-- The membership section for a witness of known logarithm. -/
theorem CheckedPublic.defineMembership_iff (h : CheckedPublic lib c st τ ν n b υ r) {a : Account}
    (hu : a.u = c.accountU.toAffine) (hy : a.y = c.accountY.toAffine) {ω : ZMod bn254Fr}
    (hw : c.w.toAffine = lib.bn.exp ω) :
    c.defineMembership lib = .ok () ↔
      (∃ bs, secpEncoding c.accountU = .ok bs) ∧ (∃ bs, secpEncoding c.accountY = .ok bs) ∧
        (memberHash a : ZMod bn254Fr) ≠ 0 ∧ ν = (τ + memberHash a) * ω :=
  Circuit.defineMembership_eq_ok hu.symm hy.symm h.publicOf.h_eq h.publicOf.hTau_eq hw
    (h.publicOf.v_eq.trans h.v_eq)

/-- The seeds of a user are reduced. -/
theorem seeds_lt {x s t : ℤ} {issue : FixedBytes 32} (h : seeds x issue = .ok (s, t)) :
    (0 ≤ s ∧ s < secp256k1Fr) ∧ 0 ≤ t ∧ t < secp256k1Fr := by
  obtain ⟨_, hs, ht⟩ := seeds_eq_ok.1 h
  have hs' := canonicalNonzero_some.1 (hashScalar_canonical hs)
  have ht' := canonicalNonzero_some.1 (hashScalar_canonical ht)
  omega

/-- The challenge the circuit recomputes is the stated one. -/
theorem CheckedPublic.residue_challenge (h : CheckedPublic lib c st τ ν n b υ r) :
    (secpValue (sha (challengeInput st))).residue = (r : ZMod secp256k1Fr) := by
  obtain ⟨_, _, hr⟩ := hashScalar_eq_ok.1 ((challenge_eq_ok lib).1 h.challenge_eq).2.2
  have hvalue : (secpValue (sha (challengeInput st))).value =
      (sha256 (challengeInput st)).value % secp256k1Fr := value_secpValue _
  rw [residue_eq_cast, hvalue, hr]
  rfl

theorem CheckedPublic.definePoints_of_relation (h : CheckedPublic lib c st τ ν n b υ r)
    (hrel : CircuitRelation lib c st τ ν b υ r) : c.definePoints lib = .ok () := by
  obtain ⟨_, ω, hω, hw, _⟩ := hrel.membership ⟨_, _, none⟩ rfl rfl
  have hx := cast_ne_zero_of_canonicalNonzero hrel.x_canonical
  have hd := cast_ne_zero_of_canonicalNonzero hrel.d_canonical
  refine Circuit.definePoints_eq_ok.2 ⟨?_, ?_, ?_⟩
  · intro q hq
    apply assertSecpPoint_of_good
    -- the public points are good by the checks of the host, the account by its nonzero exponents
    simp only [List.mem_cons, List.not_mem_nil, or_false] at hq
    rcases hq with rfl | rfl | rfl | rfl | rfl
    · rw [h.publicOf.ut_eq]
      exact ((issueBase_eq_ok lib).1 h.publicOf.issueBase_eq).2
    · rw [h.publicOf.s_eq]
      exact h.s_good
    · rw [h.publicOf.t_eq]
      exact h.t_good
    · rw [hrel.accountU_eq, goodSecp_exp]
      simpa using hd
    · rw [hrel.accountY_eq, goodSecp_exp]
      simpa using mul_ne_zero hx hd
  · intro q hq
    simp only [List.mem_cons, List.not_mem_nil, or_false] at hq
    rcases hq with rfl | rfl | rfl
    · rw [h.publicOf.v_eq, h.v_eq, goodBN_exp]
      exact h.ν_ne
    · rw [hw, goodBN_exp]
      exact hω
    · rw [h.publicOf.nym_eq, toAffine_emulate]
      exact h.nym_good
  · intro q hq
    simp only [List.mem_cons, List.not_mem_nil, or_false] at hq
    rcases hq with rfl | rfl
    · rw [h.publicOf.h_eq]
      simp [srs, lib.bn2.generator_eq_exp]
    · rw [h.publicOf.hTau_eq]
      simpa [srs] using h.τ_ne

/-- A satisfied circuit gives the relation. -/
theorem circuitRelation_of_define (h : CheckedPublic lib c st τ ν n b υ r)
    (hdefine : c.define lib = .ok ()) : CircuitRelation lib c st τ ν b υ r := by
  simp only [Circuit.define, bind_eq_ok] at hdefine
  obtain ⟨_, hpoints, cnt, hscalars, xbytes, hxbytes, ⟨s, t⟩, hseeds, _, hnym, _, haccount, _,
    hmember, r', hr', htags⟩ := hdefine
  obtain ⟨_, hbn, _⟩ := Circuit.definePoints_eq_ok.1 hpoints
  obtain ⟨hcanonical, hlt, rfl⟩ := (Circuit.defineScalars_eq_ok h.publicOf.k_eq).1 hscalars
  -- the gadgets in the order of the circuit, each read back by its own lemma
  have hx := hcanonical c.x (by simp)
  obtain ⟨hxlt, rfl⟩ := (fieldBytes_eq_ok size_secp256k1Fr_le).1 hxbytes
  have hseeds' := (Circuit.defineSeeds_eq_ok hx).1 hseeds
  obtain ⟨⟨_, hslt⟩, _, htlt⟩ := seeds_lt hseeds'
  have hnym' := (Circuit.defineNym_eq_ok h.bases_eq hxlt (Int.ofNat_lt.1 hslt)
    (Int.ofNat_lt.1 htlt)).1 hnym
  obtain ⟨hU, hY⟩ := Circuit.defineAccount_eq_ok.1 haccount
  obtain ⟨ω, hω, hw⟩ := (goodBN_iff lib).1 (hbn c.w (by simp))
  obtain ⟨hencU, hencY, _⟩ := (h.defineMembership_iff lib (a := ⟨_, _, none⟩) rfl rfl hw).1 hmember
  obtain ⟨_, hr'res⟩ := (Circuit.defineChallenge_eq_ok (h.transcript lib)).1 hr'
  obtain ⟨⟨hdenS, hS⟩, hdenT, hT⟩ := (Circuit.defineTags_eq_ok h.publicOf.ut_eq).1 htags
  -- the counter is below the quota, so the host and the circuit see the same number
  have hcounter : (UInt32.ofNat c.counter.val).toNat = c.counter.val :=
    UInt32.toNat_ofNat_of_lt' (hlt.trans st.k.toNat_lt)
  rw [hr'res, h.residue_r lib, h.publicOf.t_eq, residue_eq_cast t, residue_eq_cast c.x] at hT
  rw [h.publicOf.s_eq, residue_eq_cast s] at hS
  rw [residue_eq_cast s] at hdenS
  rw [residue_eq_cast t] at hdenT
  rw [h.publicOf.nym_eq, toAffine_emulate] at hnym'
  rw [h.publicOf.issue_eq] at hseeds'
  refine {
    x_canonical := hx
    d_canonical := hcanonical c.d (by simp)
    counter_lt := hlt
    accountU_eq := hU
    accountY_eq := hY
    accountU_reduced := hencU
    accountY_reduced := hencY
    membership := ?_
    tags := ⟨s.value, t.value, ?_⟩ }
  · intro a hu hy
    obtain ⟨_, _, hne, hrel⟩ := (h.defineMembership_iff lib hu hy hw).1 hmember
    exact ⟨hne, ω, hω, hw, hrel⟩
  · exact {
      seeds_eq := hseeds'
      bases_eq := h.bases_eq
      nym_eq := hnym'
      nym_good := h.nym_good
      challenge_eq := h.challenge_eq
      r_eq := h.publicOf.r_eq
      issueBase_eq := h.publicOf.issueBase_eq
      denS_ne := by rw [hcounter]; exact hdenS
      denT_ne := by rw [hcounter]; exact hdenT
      s_eq := by rw [hcounter]; exact hS
      t_eq := by rw [hcounter]; exact hT
      s_good := h.s_good
      t_good := h.t_good }

/-- The relation satisfies every constraint. -/
theorem define_of_circuitRelation (h : CheckedPublic lib c st τ ν n b υ r)
    (hrel : CircuitRelation lib c st τ ν b υ r) : c.define lib = .ok () := by
  obtain ⟨s, t, htags⟩ := hrel.tags
  obtain ⟨⟨hs0, hslt⟩, ht0, htlt⟩ := seeds_lt htags.seeds_eq
  -- the seeds are canonical, so they are natural numbers as the circuit has them
  lift s to ℕ using hs0
  lift t to ℕ using ht0
  obtain ⟨hne, ω, hω, hw, hmember⟩ := hrel.membership ⟨_, _, none⟩ rfl rfl
  have hx := canonicalNonzero_some.1 hrel.x_canonical
  have hd := canonicalNonzero_some.1 hrel.d_canonical
  have hxlt : c.x.value < secp256k1Fr := Int.ofNat_lt.1 hx.2
  have hcounter : (UInt32.ofNat c.counter.val).toNat = c.counter.val :=
    UInt32.toNat_ofNat_of_lt' (hrel.counter_lt.trans st.k.toNat_lt)
  simp only [Circuit.define, bind_eq_ok]
  refine ⟨(), ?_, ⟨c.counter.val⟩, ?_, _, (fieldBytes_eq_ok size_secp256k1Fr_le).2 ⟨hxlt, rfl⟩,
    (⟨s⟩, ⟨t⟩), ?_, (), ?_, (), Circuit.defineAccount_eq_ok.2 ⟨hrel.accountU_eq, hrel.accountY_eq⟩,
    (), ?_, secpValue (sha (challengeInput st)), ?_, ?_⟩
  · exact h.definePoints_of_relation lib hrel
  · refine (Circuit.defineScalars_eq_ok h.publicOf.k_eq).2 ⟨?_, hrel.counter_lt, rfl⟩
    have hr := hashScalar_canonical ((challenge_eq_ok lib).1 h.challenge_eq).2.2
    have hrval := value_valueOf_canonical hr
    rw [← h.publicOf.challenge_eq] at hrval
    simp only [List.forall_mem_cons, List.not_mem_nil, false_imp_iff, implies_true, and_true]
    exact ⟨hrel.x_canonical, hrel.d_canonical, by rw [hrval]; exact hr⟩
  · refine (Circuit.defineSeeds_eq_ok hrel.x_canonical).2 ?_
    rw [h.publicOf.issue_eq]
    exact htags.seeds_eq
  · refine (Circuit.defineNym_eq_ok h.bases_eq hxlt (Int.ofNat_lt.1 hslt) (Int.ofNat_lt.1 htlt)).2 ?_
    rw [h.publicOf.nym_eq, toAffine_emulate]
    exact htags.nym_eq
  · exact (h.defineMembership_iff lib rfl rfl hw).2
      ⟨hrel.accountU_reduced, hrel.accountY_reduced, hne, hmember⟩
  · exact (Circuit.defineChallenge_eq_ok (h.transcript lib)).2
      ⟨rfl, by rw [h.residue_r lib, h.residue_challenge lib]⟩
  · refine (Circuit.defineTags_eq_ok h.publicOf.ut_eq).2 ?_
    have hdenS := htags.denS_ne
    have hdenT := htags.denT_ne
    have hS := htags.s_eq
    have hT := htags.t_eq
    rw [hcounter] at hdenS hdenT hS hT
    rw [h.residue_challenge lib, h.publicOf.s_eq, h.publicOf.t_eq, residue_eq_cast c.x]
    exact ⟨⟨hdenS, hS⟩, hdenT, hT⟩

end Relation

/-- The private values of an assignment as a host witness. -/
def Circuit.secretWitness (a : Circuit) (counter : UInt32) : SecretWitness where
  x := some a.x.value
  d := some a.d.value
  account := { u := a.accountU.toAffine, y := a.accountY.toAffine, d := some a.d.value }
  w := a.w.toAffine
  counter := counter

/-- Valid parameters have a nonzero trapdoor. -/
theorem trapdoor_ne_zero {τ : ZMod bn254Fr} {n : ℕ}
    (h : validateParams lib (srs lib τ n) = .ok ()) : τ ≠ 0 := by
  obtain ⟨τ', n', hτ', _, _, hsrs⟩ := (validateParams_eq_ok lib).1 h
  have hτ : τ = τ' := lib.bn2.exp_inj.1 (congrArg Params.hTau hsrs)
  exact hτ ▸ hτ'

section Agreement

variable {p : Params} {accounts : List Account} {i : ℤ} {x d : ℤ} {issue md : FixedBytes 32}
  {ts : UInt64} {k c : UInt32} {st : Statement} {w : SecretWitness}

/-- A made statement is accepted by the context of its ring. -/
theorem check_of_makeStatement {ctx : VerificationContext} {message : List UInt8}
    (hctx : newVerificationContext lib p accounts issue k = .ok ctx)
    (h : MadeStatement lib p accounts i x d issue (sha256 message) ts k c st w) :
    ctx.check lib message st = .ok () := by
  obtain ⟨_, _, _, rd, hrd, rfl⟩ := (newVerificationContext_eq_ok lib).1 hctx
  obtain ⟨s, t, b, υ, r, htags⟩ := h.tags
  have hdigest : st.ringDigest = rd := by
    have := h.ringDigest_eq.symm.trans hrd
    exact Except.ok.inj this
  exact (check_eq_ok lib).2 {
    issue_eq := h.issue_eq
    k_eq := h.k_eq
    messageDigest_eq := h.messageDigest_eq
    ringDigest_eq := hdigest
    v_eq := h.v_eq
    nym_good := htags.nym_good
    s_good := htags.s_good
    t_good := htags.t_good
    challenge_eq := ⟨r, htags.challenge_eq, htags.r_eq⟩ }

/-- The ring part of a made statement in the exponent. -/
theorem membership_of_made (h : MadeStatement lib p accounts i x d issue md ts k c st w) :
    ∃ (a : Account) (τ ω : ZMod bn254Fr) (n : ℕ), p = srs lib τ n ∧ τ ≠ 0 ∧
      a.u = lib.secp.exp d ∧ a.y = lib.secp.exp (x * d) ∧ (memberHash a : ZMod bn254Fr) ≠ 0 ∧
      w.w = lib.bn.exp ω ∧ ω ≠ 0 ∧ st.v = lib.bn.exp ((τ + memberHash a) * ω) ∧
      (τ + memberHash a) * ω ≠ 0 := by
  obtain ⟨a, ha, hu, hy, _⟩ := h.entry
  obtain ⟨τ, n, m, ω, rfl, hm, hw, hω, hv, hveq⟩ := membershipWitness_of_accumulate lib h.v_eq ha
  obtain ⟨v, hv', hweq⟩ := h.witness_eq
  rw [Int.toNat_of_nonneg h.index_mem.1, hv', Except.ok.injEq] at hw
  obtain ⟨_, hm0, rfl⟩ := (member_eq_ok lib).1 hm
  have hne : accounts ≠ [] := by
    rintro rfl
    simp at ha
  have hτ := trapdoor_ne_zero lib ((accumulate_eq_ok lib hne).1 h.v_eq).1
  rw [ne_eq, emod_eq_zero_iff] at hm0
  simp only [intCast_emod, Int.cast_natCast] at hm0 hv hveq
  exact ⟨a, τ, ω, n, rfl, hτ, hu, hy, hm0, by rw [hweq, ← hw], hω, hveq, hv⟩

/-- The assignment of a made statement satisfies the circuit. -/
theorem define_of_made (h : MadeStatement lib p accounts i x d issue md ts k c st w) :
    ∃ a, assignment lib p st w = .ok a ∧ a.define lib = .ok () := by
  obtain ⟨s, t, b, υ, r, htags⟩ := h.tags
  obtain ⟨entry, τ, ω, n, rfl, hτ, hu, hy, hmember, hw, hω, hv, hv0⟩ := membership_of_made lib h
  obtain ⟨m, _, rfl⟩ := h.witness_eq
  obtain rfl := h.issue_eq
  obtain ⟨pub, hpub⟩ := publicAssignment_of_issueBase lib (p := srs lib τ n) htags.r_eq
    htags.issueBase_eq
  -- the public part of the assignment is made from the same challenge and the same issue base
  obtain ⟨r', υ', hof⟩ := publicOf_of_publicAssignment lib hpub
  obtain rfl : r = r' := Option.some.inj (htags.r_eq.symm.trans hof.r_eq)
  obtain rfl : υ = υ' :=
    lib.secp.exp_inj.1 (Except.ok.inj (htags.issueBase_eq.symm.trans hof.issueBase_eq))
  have hx := value_valueOf_canonical h.x_canonical
  have hd := value_valueOf_canonical h.d_canonical
  have hxres : ((Element.valueOf secp256k1Fr x).value : ZMod secp256k1Fr) = x := by
    rw [← Int.cast_natCast, hx]
  have hdres : ((Element.valueOf secp256k1Fr d).value : ZMod secp256k1Fr) = d := by
    rw [← Int.cast_natCast, hd]
  have hcounter : ((c.toNat : ℕ) : Variable).val = c.toNat :=
    ZMod.val_natCast_of_lt (lt_trans c.toNat_lt (by decide))
  refine ⟨_, by simp only [assignment, hpub, ok_bind]; rfl, ?_⟩
  refine define_of_circuitRelation lib (τ := τ) (n := n) (b := b) (r := r) {
    publicOf := hof
    τ_ne := hτ
    bases_eq := htags.bases_eq
    v_eq := hv
    ν_ne := hv0
    nym_good := htags.nym_good
    s_good := htags.s_good
    t_good := htags.t_good
    challenge_eq := htags.challenge_eq } ?_
  refine {
    x_canonical := by simpa only [hx] using h.x_canonical
    d_canonical := by simpa only [hd] using h.d_canonical
    counter_lt := by simpa only [hcounter, h.k_eq] using UInt32.lt_iff_toNat_lt.1 h.counter_lt
    accountU_eq := by simp only [toAffine_secpPoint, accountOf, hdres]
    accountY_eq := by simp only [toAffine_secpPoint, accountOf, hdres, hxres]
    accountU_reduced := ⟨_, secpEncoding_secpPoint _⟩
    accountY_reduced := ⟨_, secpEncoding_secpPoint _⟩
    membership := ?_
    tags := ⟨s, t, ?_⟩ }
  · intro a hau hay
    -- the hash of a member only sees its two points
    have hhash : memberHash a = memberHash entry := by
      refine memberHash_congr ?_ ?_
      · rw [hau, hu, toAffine_secpPoint]
        rfl
      · rw [hay, hy, toAffine_secpPoint]
        rfl
    rw [hhash]
    exact ⟨hmember, ω, hω, by simpa using hw, rfl⟩
  · simp only [hx, hcounter, UInt32.ofNat_toNat]
    exact htags

/-- The metadata of a valid account agrees with any canonical exponent of its base point. -/
theorem account_d_eq {a : Account} {m d : ℤ} (hm : member lib a = .ok m)
    (hd : canonicalNonzero (some d) secp256k1Fr = true) (hu : a.u = lib.secp.exp d) :
    a.d = none ∨ a.d = some d := by
  obtain ⟨_, _, hmeta⟩ := (validateAccount_eq_ok lib).1 ((member_eq_ok lib).1 hm).1
  cases had : a.d with
  | none => exact Or.inl rfl
  | some e =>
      obtain ⟨he, heu⟩ := hmeta e had
      have hcast := lib.secp.exp_inj.1 (heu.trans hu)
      obtain ⟨hepos, helt⟩ := canonicalNonzero_some.1 he
      obtain ⟨hdpos, hdlt⟩ := canonicalNonzero_some.1 hd
      rw [eq_of_intCast_eq hepos.le helt hdpos.le hdlt hcast]
      exact Or.inr rfl

/-- An accepted statement with a satisfied circuit is made by the host. -/
theorem makeStatement_of_define {ctx : VerificationContext} {message : List UInt8}
    (hctx : newVerificationContext lib p accounts issue k = .ok ctx)
    (hbases : ∃ b, bases lib = .ok b) {a : Circuit} {i : ℕ} {entry : Account}
    (hcheck : ctx.check lib message st = .ok ())
    (hpub : publicAssignment lib p st = .ok a.toPublicInputs) (hdefine : a.define lib = .ok ())
    (hentry : accounts[i]? = some entry) (hu : a.accountU.toAffine = entry.u)
    (hy : a.accountY.toAffine = entry.y) :
    ∃ c : UInt32, (c.toNat : Variable) = a.counter ∧
      makeStatement lib p accounts i a.x.value a.d.value st.issue st.messageDigest st.timestamp
        st.k c = .ok (st, a.secretWitness c) := by
  obtain ⟨_, hvalid, _, rd, hrd, rfl⟩ := (newVerificationContext_eq_ok lib).1 hctx
  have hchecked := (check_eq_ok lib).1 hcheck
  obtain ⟨b, hb⟩ := hbases
  obtain ⟨r, υ, hof⟩ := publicOf_of_publicAssignment lib hpub
  obtain ⟨τ, n, m, ω, rfl, hm, hw, hω, hv0, hv⟩ :=
    membershipWitness_of_accumulate lib hchecked.v_eq hentry
  obtain ⟨r', hr', hrst⟩ := hchecked.challenge_eq
  obtain rfl : r = r' := Option.some.inj (hof.r_eq.symm.trans hrst)
  have hrel := circuitRelation_of_define lib {
    publicOf := hof
    τ_ne := trapdoor_ne_zero lib hvalid
    bases_eq := hb
    v_eq := hv
    ν_ne := hv0
    nym_good := hchecked.nym_good
    s_good := hchecked.s_good
    t_good := hchecked.t_good
    challenge_eq := hr' } hdefine
  obtain ⟨_, ω', _, hw', hω'⟩ := hrel.membership entry hu.symm hy.symm
  obtain ⟨_, _, rfl⟩ := (member_eq_ok lib).1 hm
  -- the witness is determined: dividing the accumulator by `τ + a` leaves one point
  obtain rfl : ω = ω' := by
    simp only [intCast_emod, Int.cast_natCast] at hω' hv0
    exact mul_left_cancel₀ (left_ne_zero_of_mul hv0) hω'
  obtain ⟨s, t, htags⟩ := hrel.tags
  have hcounter : (UInt32.ofNat a.counter.val).toNat = a.counter.val :=
    UInt32.toNat_ofNat_of_lt' (hrel.counter_lt.trans st.k.toNat_lt)
  refine ⟨UInt32.ofNat a.counter.val, by rw [hcounter]; simp, (makeStatement_eq_ok lib).2 ?_⟩
  have hUeq : entry.u = lib.secp.exp ((a.d.value : ℤ) : ZMod secp256k1Fr) := by
    rw [← hu, hrel.accountU_eq, Int.cast_natCast]
  have hYeq : entry.y = lib.secp.exp
      (((a.x.value : ℤ) : ZMod secp256k1Fr) * ((a.d.value : ℤ) : ZMod secp256k1Fr)) := by
    rw [← hy, hrel.accountY_eq, Int.cast_natCast, Int.cast_natCast]
  exact {
    counter_lt := UInt32.lt_iff_toNat_lt.2 (by rw [hcounter]; exact hrel.counter_lt)
    index_mem := ⟨by omega, by
      have := (List.getElem?_eq_some_iff.1 hentry).1
      omega⟩
    x_canonical := hrel.x_canonical
    d_canonical := hrel.d_canonical
    entry := ⟨entry, hentry, hUeq, hYeq, account_d_eq lib hm hrel.d_canonical hUeq⟩
    v_eq := hchecked.v_eq
    ringDigest_eq := by rw [hchecked.ringDigest_eq]; exact hrd
    issue_eq := rfl
    messageDigest_eq := rfl
    timestamp_eq := rfl
    k_eq := rfl
    tags := ⟨s, t, b, υ, r, htags⟩
    witness_eq := ⟨_, hw, by
      rw [Circuit.secretWitness, hu, hy, hUeq, hYeq, hw']
      rfl⟩ }

/-- Both directions: for every ring a verification context accepts, a statement the host makes
satisfies the circuit and is accepted; and an accepted statement whose circuit is satisfied by
private values of a ring account is what the host makes from those values. The three fixed
pseudonym bases are assumed to be good points, as hashing to the curve provides them. -/
theorem host_circuit_agree {ctx : VerificationContext} (message : List UInt8)
    (hctx : newVerificationContext lib p accounts issue k = .ok ctx) :
    (∀ (i x d : ℤ) (ts : UInt64) (c : UInt32) (st : Statement) (w : SecretWitness),
      makeStatement lib p accounts i x d issue (sha256 message) ts k c = .ok (st, w) →
        (∃ a, assignment lib p st w = .ok a ∧ a.define lib = .ok ()) ∧
          ctx.check lib message st = .ok ()) ∧
    ((∃ b, bases lib = .ok b) → ∀ (st : Statement) (a : Circuit) (i : ℕ) (entry : Account),
      ctx.check lib message st = .ok () → publicAssignment lib p st = .ok a.toPublicInputs →
      a.define lib = .ok () → accounts[i]? = some entry →
      a.accountU.toAffine = entry.u → a.accountY.toAffine = entry.y →
        ∃ c : UInt32, (c.toNat : Variable) = a.counter ∧
          makeStatement lib p accounts i a.x.value a.d.value st.issue st.messageDigest st.timestamp
            st.k c = .ok (st, a.secretWitness c)) := by
  refine ⟨?_, ?_⟩
  · intro i x d ts c st w hmake
    have hmade := (makeStatement_eq_ok lib).1 hmake
    exact ⟨define_of_made lib hmade, check_of_makeStatement lib hctx hmade⟩
  · intro hbases st a i entry hcheck hpub hdefine hentry hu hy
    exact makeStatement_of_define lib hctx hbases hcheck hpub hdefine hentry hu hy

end Agreement

theorem accountOf_sample : (accountOf exponentLib 3 7).u = sampleAccount.u ∧
    (accountOf exponentLib 3 7).y = sampleAccount.y := by
  decide

/-- Both directions at one ring, quota and message: the statement of secret 3 at counter 1. -/
theorem host_circuit_agree_sample :
    ∃ ctx st w a c, sampleContext = .ok ctx ∧ sampleStatement [] = .ok (st, w) ∧
      assignment exponentLib sampleParams st w = .ok a ∧ a.define exponentLib = .ok () ∧
      ctx.check exponentLib [] st = .ok () ∧
      makeStatement exponentLib sampleParams sampleRing 1 a.x.value a.d.value st.issue
        st.messageDigest st.timestamp st.k c = .ok (st, a.secretWitness c) := by
  obtain ⟨ctx, hctx⟩ := sampleContext_ok
  obtain ⟨st, w, hmake, _⟩ := sampleStatement_ok 0
  have hbases := exists_ok_of_isOk (x := bases exponentLib) (by decide)
  obtain ⟨hcomplete, hsound⟩ := host_circuit_agree exponentLib [] hctx
  obtain ⟨⟨a, ha, hdefine⟩, hcheck⟩ := hcomplete _ _ _ _ _ _ _ hmake
  obtain ⟨_, _, hweq⟩ := ((makeStatement_eq_ok exponentLib).1 hmake).witness_eq
  obtain ⟨hpub, hu, hy⟩ := public_of_assignment exponentLib ha
  rw [hweq] at hu hy
  obtain ⟨c, _, hagain⟩ := hsound hbases st a 1 sampleAccount hcheck hpub hdefine rfl
    (hu.trans accountOf_sample.1) (hy.trans accountOf_sample.2)
  exact ⟨ctx, st, w, a, c, hctx, hmake, ha, hdefine, hcheck, hagain⟩

end Lktrs.NativeProof
