import Lktrs.NativeProof.Accumulator

/-!
# What a made statement says

`makeStatement` succeeds exactly when its inputs and its two results stand in the
relation `MadeStatement`: the ring part (the selected entry, the accumulator, the
membership witness, the digest), and the tags (`TagFacts`). The tags are stated
in the exponent: with seeds `s`, `t`, counter `c`, challenge `r` and an issue base
of logarithm `υ`, the serial number has logarithm `υ / (s + c + 1)` and the
tracing tag `x + r υ / (t + c + 1)`.
-/

set_option autoImplicit false

namespace Lktrs.NativeProof

open Lktrs.Foundation

variable (lib : GnarkCrypto)

/-! ## Specifications of the parts -/

theorem seeds_eq_ok {x : ℤ} {issue : FixedBytes 32} {s t : ℤ} :
    seeds x issue = .ok (s, t) ↔
      canonicalNonzero (some x) secp256k1Fr = true ∧
        hashScalar (seedInput x issue 0) secp256k1Fr = .ok s ∧
        hashScalar (seedInput x issue 1) secp256k1Fr = .ok t := by
  simp only [seeds, bind_eq_ok, rejectIf_eq_ok, pure_eq_ok, Bool.not_eq_false, Prod.mk.injEq]
  constructor
  · rintro ⟨_, hx, _, hs, _, ht, rfl, rfl⟩
    exact ⟨hx, hs, ht⟩
  · rintro ⟨hx, hs, ht⟩
    exact ⟨(), hx, s, hs, t, ht, rfl, rfl⟩

theorem nymBase_eq_ok {label : String} {p : Bn254G1} :
    nymBase lib label = .ok p ↔
      lib.bnHashToG1 (textBytes label) (textBytes nymDST) = .ok p ∧ goodBN lib p = true := by
  simp only [nymBase, bind_eq_ok, rejectIf_eq_ok, pure_eq_ok, Bool.not_eq_false]
  constructor
  · rintro ⟨p, hp, _, hgood, rfl⟩
    exact ⟨hp, hgood⟩
  · rintro ⟨hp, hgood⟩
    exact ⟨p, hp, (), hgood, rfl⟩

theorem bases_eq_ok {g0 g1 g2 : Bn254G1} :
    bases lib = .ok (g0, g1, g2) ↔
      nymBase lib "g0" = .ok g0 ∧ nymBase lib "g1" = .ok g1 ∧ nymBase lib "g2" = .ok g2 := by
  simp only [bases, bind_eq_ok, pure_eq_ok, Prod.mk.injEq]
  constructor
  · rintro ⟨_, h0, _, h1, _, h2, rfl, rfl, rfl⟩
    exact ⟨h0, h1, h2⟩
  · rintro ⟨h0, h1, h2⟩
    exact ⟨g0, h0, g1, h1, g2, h2, rfl, rfl, rfl⟩

theorem issueBase_eq_ok {issue : FixedBytes 32} {p : Secp256k1G1} :
    issueBase lib issue = .ok p ↔
      lib.secpHashToG1 issue.toList (textBytes issueDST) = .ok p ∧ goodSecp lib p = true := by
  simp only [issueBase, bind_eq_ok, rejectIf_eq_ok, pure_eq_ok, Bool.not_eq_false]
  constructor
  · rintro ⟨p, hp, _, hgood, rfl⟩
    exact ⟨hp, hgood⟩
  · rintro ⟨hp, hgood⟩
    exact ⟨p, hp, (), hgood, rfl⟩

/-- An issue base is a point with a nonzero logarithm. -/
theorem issueBase_exp {issue : FixedBytes 32} {p : Secp256k1G1} (h : issueBase lib issue = .ok p) :
    ∃ υ, υ ≠ 0 ∧ p = lib.secp.exp υ :=
  (goodSecp_iff lib).1 ((issueBase_eq_ok lib).1 h).2

theorem challenge_eq_ok {st : Statement} {r : ℤ} :
    challenge lib st = .ok r ↔
      st.k ≠ 0 ∧ goodBN lib st.nym = true ∧
        hashScalar (challengeInput st) secp256k1Fr = .ok r := by
  simp only [challenge, bind_eq_ok, rejectIf_eq_ok, not_or, Bool.not_eq_false]
  constructor
  · rintro ⟨_, ⟨hk, hnym⟩, hr⟩
    exact ⟨hk, hnym, hr⟩
  · rintro ⟨hk, hnym, hr⟩
    exact ⟨(), ⟨hk, hnym⟩, hr⟩

theorem addNymTerm_exp (a b : ZMod bn254Fr) (seed : ℤ) :
    addNymTerm lib (lib.bn.exp a) (lib.bn.exp b) seed = lib.bn.exp (a + seed * b) := by
  rw [addNymTerm, lib.bn.scalarMultiplication_exp, lib.bn.add_exp, intCast_emod]

/-- The pseudonym in the exponent. -/
theorem nymSum_exp (a0 a1 a2 : ZMod bn254Fr) (s t x : ℤ) :
    nymSum lib (lib.bn.exp a0, lib.bn.exp a1, lib.bn.exp a2) s t x =
      lib.bn.exp (s * a0 + t * a1 + x * a2) := by
  have hzero : addNymTerm lib Affine.infinity (lib.bn.exp a0) s = lib.bn.exp (s * a0) := by
    have h := addNymTerm_exp lib 0 a0 s
    rw [zero_add] at h
    exact (congrArg (fun q => addNymTerm lib q (lib.bn.exp a0) s) lib.bn.infinity_eq_exp).trans h
  simp only [nymSum]
  rw [hzero, addNymTerm_exp, addNymTerm_exp]

/-- Away from zero the inverse of the code is the field inverse. -/
theorem cast_secpInverse {a : ℤ} (ha : (a : ZMod secp256k1Fr) ≠ 0) :
    (secpInverse a : ZMod secp256k1Fr) = (a : ZMod secp256k1Fr)⁻¹ := by
  obtain ⟨b, hb, _, hres⟩ := modInverse_prime ha
  rw [secpInverse, hb]
  exact hres

/-! ## The relation -/

/-- The tags of a statement made with secret `x` at counter `c` of an issue. -/
structure TagFacts (x : ℤ) (issue : FixedBytes 32) (c : UInt32) (st : Statement) (s t : ℤ)
    (b : Bn254G1 × Bn254G1 × Bn254G1) (υ : ZMod secp256k1Fr) (r : ℤ) : Prop where
  seeds_eq : seeds x issue = .ok (s, t)
  bases_eq : bases lib = .ok b
  nym_eq : st.nym = nymSum lib b s t x
  nym_good : goodBN lib st.nym = true
  challenge_eq : challenge lib st = .ok r
  r_eq : st.r = some r
  issueBase_eq : issueBase lib issue = .ok (lib.secp.exp υ)
  denS_ne : (s + c.toNat + 1 : ZMod secp256k1Fr) ≠ 0
  denT_ne : (t + c.toNat + 1 : ZMod secp256k1Fr) ≠ 0
  s_eq : st.s = lib.secp.exp ((s + c.toNat + 1 : ZMod secp256k1Fr)⁻¹ * υ)
  t_eq : st.t = lib.secp.exp (x + r * (t + c.toNat + 1 : ZMod secp256k1Fr)⁻¹ * υ)
  s_good : goodSecp lib st.s = true
  t_good : goodSecp lib st.t = true

/-- The inputs and results of a successful `MakeStatement`. -/
structure MadeStatement (p : Params) (accounts : List Account) (i : ℤ) (x d : ℤ)
    (issue messageDigest : FixedBytes 32) (timestamp : UInt64) (k c : UInt32) (st : Statement)
    (w : SecretWitness) : Prop where
  counter_lt : c < k
  index_mem : 0 ≤ i ∧ i < accounts.length
  x_canonical : canonicalNonzero (some x) secp256k1Fr = true
  d_canonical : canonicalNonzero (some d) secp256k1Fr = true
  entry : ∃ a, accounts[i.toNat]? = some a ∧ a.u = lib.secp.exp d ∧ a.y = lib.secp.exp (x * d) ∧
    (a.d = none ∨ a.d = some d)
  v_eq : accumulate lib p accounts = .ok st.v
  ringDigest_eq : ringDigest lib accounts = .ok st.ringDigest
  issue_eq : st.issue = issue
  messageDigest_eq : st.messageDigest = messageDigest
  timestamp_eq : st.timestamp = timestamp
  k_eq : st.k = k
  tags : ∃ s t b υ r, TagFacts lib x issue c st s t b υ r
  witness_eq : ∃ v, membershipWitness lib p accounts i = .ok v ∧
    w = { x := some x, d := some d, account := accountOf lib x d, w := v, counter := c }

theorem secp_tag_eq {x r : ℤ} {e υ : ZMod secp256k1Fr} {it : ℤ} (hit : (it : ZMod secp256k1Fr) = e) :
    lib.secp.add (lib.secp.scalarMultiplication lib.secp.generator x)
        (lib.secp.scalarMultiplication (lib.secp.exp υ) (r * it % secp256k1Fr)) =
      lib.secp.exp (x + r * e * υ) := by
  rw [lib.secp.multiple_eq_exp, lib.secp.scalarMultiplication_exp, lib.secp.add_exp, intCast_emod,
    Int.cast_mul, hit]

/-- A denominator of the code is the residue it is reduced from. -/
theorem denominator_eq_zero_iff {s : ℤ} {c : UInt32} :
    (s + ((c.toNat : ℤ) + 1)) % (secp256k1Fr : ℤ) = 0 ↔
      (s + c.toNat + 1 : ZMod secp256k1Fr) = 0 := by
  rw [emod_eq_zero_iff]
  push_cast
  rw [add_assoc]

theorem cast_denominatorInverse {s : ℤ} {c : UInt32}
    (h : (s + c.toNat + 1 : ZMod secp256k1Fr) ≠ 0) :
    (secpInverse ((s + ((c.toNat : ℤ) + 1)) % (secp256k1Fr : ℤ)) : ZMod secp256k1Fr) =
      (s + c.toNat + 1 : ZMod secp256k1Fr)⁻¹ := by
  have hcast : (((s + ((c.toNat : ℤ) + 1)) % (secp256k1Fr : ℤ) : ℤ) : ZMod secp256k1Fr) =
      s + c.toNat + 1 := by
    rw [intCast_emod]
    push_cast
    rw [add_assoc]
  rw [cast_secpInverse (by rwa [hcast]), hcast]

/-- `MakeStatement` computes the relation. -/
theorem makeStatement_eq_ok {p : Params} {accounts : List Account} {i : ℤ} {x d : ℤ}
    {issue messageDigest : FixedBytes 32} {timestamp : UInt64} {k c : UInt32} {st : Statement}
    {w : SecretWitness} :
    makeStatement lib p accounts i x d issue messageDigest timestamp k c = .ok (st, w) ↔
      MadeStatement lib p accounts i x d issue messageDigest timestamp k c st w := by
  constructor
  · intro h
    simp only [makeStatement, bind_eq_ok, rejectIf_eq_ok] at h
    -- the checks before the ring entry is read
    obtain ⟨_, hk, _, hi, _, hselected, h⟩ := h
    obtain ⟨hx, hd, rfl⟩ := (newAccount_eq_ok lib).1 hselected
    cases hentry : accounts[i.toNat]? with
    | none =>
        rw [hentry] at h
        cases h
    | some a =>
        rw [hentry] at h
        simp only [bind_eq_ok, rejectIf_eq_ok, pure_eq_ok, Prod.mk.injEq] at h
        -- the checks and values behind it, down to the tags
        obtain ⟨_, hpoints, _, hmeta, v, hv, m, hm, rd, hrd, ⟨s, t⟩, hst, b, hb, _, hnym, r, hr, ut,
          hut, _, hden, _, htags, rfl, rfl⟩ := h
        obtain ⟨υ, hυ, rfl⟩ := issueBase_exp lib hut
        simp only [not_or, denominator_eq_zero_iff] at hden
        simp only [not_or, Bool.not_eq_false, not_not, not_and_or, not_lt, not_le] at *
        exact {
          counter_lt := UInt32.not_le.1 hk.2
          index_mem := hi
          x_canonical := hx
          d_canonical := hd
          entry := ⟨a, hentry, hpoints.1.symm, hpoints.2.symm, hmeta⟩
          v_eq := hv
          ringDigest_eq := hrd
          issue_eq := rfl
          messageDigest_eq := rfl
          timestamp_eq := rfl
          k_eq := rfl
          tags := ⟨s, t, b, υ, r, {
            seeds_eq := hst
            bases_eq := hb
            nym_eq := rfl
            nym_good := hnym
            challenge_eq := hr
            r_eq := rfl
            issueBase_eq := hut
            denS_ne := hden.1
            denT_ne := hden.2
            s_eq := by
              rw [lib.secp.scalarMultiplication_exp, cast_denominatorInverse hden.1]
            t_eq := secp_tag_eq lib (cast_denominatorInverse hden.2)
            s_good := htags.1
            t_good := htags.2 }⟩
          witness_eq := ⟨m, hm, rfl⟩ }
  · intro h
    obtain ⟨a, hentry, hu, hy, hmeta⟩ := h.entry
    obtain ⟨s, t, b, υ, r, htags⟩ := h.tags
    obtain ⟨m, hm, rfl⟩ := h.witness_eq
    -- a counter below the quota passes both parts of the first check
    have hk : ¬ (k = 0 ∨ c ≥ k) := by
      have hlt := h.counter_lt
      rintro (rfl | hge)
      · exact absurd hlt (by simp)
      · exact absurd hlt (by simpa using hge)
    have hi : ¬ (i < 0 ∨ i ≥ accounts.length) := by
      have := h.index_mem
      omega
    have hselected := (newAccount_eq_ok lib).2 ⟨h.x_canonical, h.d_canonical, rfl⟩
    simp only [makeStatement, bind_eq_ok, rejectIf_eq_ok]
    refine ⟨(), hk, (), hi, _, hselected, ?_⟩
    rw [hentry]
    simp only [bind_eq_ok, rejectIf_eq_ok, pure_eq_ok, Prod.mk.injEq]
    obtain ⟨v, nym, S, T, issue', rd, md, ts, k', r'⟩ := st
    obtain ⟨hseeds, hbases, hnym, hnymGood, hchallenge, hr, hut, hdenS, hdenT, hS, hT, hSgood,
      hTgood⟩ := htags
    obtain rfl := h.issue_eq
    obtain rfl := h.messageDigest_eq
    obtain rfl := h.timestamp_eq
    obtain rfl := h.k_eq
    simp only at hnym hnymGood hr hS hT hSgood hTgood hseeds hut hchallenge
    -- the fields of the statement are the computed ones, so only the checks are left
    subst hnym hr hS hT
    refine ⟨(), ?_, (), ?_, v, h.v_eq, m, hm, rd, h.ringDigest_eq, (s, t), hseeds, b, hbases, (),
      by simpa using hnymGood, r, hchallenge, _, hut, (), ?_, (), ?_, ?_, rfl⟩
    · simp [accountOf, hu, hy]
    · rcases hmeta with hmeta | hmeta <;> simp [hmeta]
    · rw [denominator_eq_zero_iff, denominator_eq_zero_iff]
      exact not_or.2 ⟨hdenS, hdenT⟩
    · rw [lib.secp.scalarMultiplication_exp, cast_denominatorInverse hdenS,
        secp_tag_eq lib (cast_denominatorInverse hdenT)]
      simp [hSgood, hTgood]
    · rw [lib.secp.scalarMultiplication_exp, cast_denominatorInverse hdenS,
        secp_tag_eq lib (cast_denominatorInverse hdenT)]

end Lktrs.NativeProof
