import Lktrs.NativeProof.HashInputs
import Lktrs.NativeProof.PowersOfTau
import Lktrs.NativeProof.Tracing

/-!
# What an accepted signature says about its maker

A sound proof is read as an opening: private values that satisfy every constraint
of the circuit with the public inputs of a statement the context accepts. Nothing
else is assumed about who made it or how.

An opening belongs to an account of the ring, or it shows two accounts with one
handle, or its witness gives `[1 / (tau + b)]G` (`opening_in_ring_or_inverse`).
Any two openings are told apart by their secrets and counters exactly as `Trace`
classifies them, unless two secrets share a pseudonym (`trace_of_openings`); and
more openings than the registered users have quota contain a pair that names one
of them (`surplus_names_a_user`).
-/

set_option autoImplicit false

namespace Lktrs.NativeProof

open Lktrs.Foundation

variable (lib : GnarkCrypto) {zk : Groth16}

/-- The account among the private values of an assignment. -/
def Circuit.account (a : Circuit) : Account := ⟨a.accountU.toAffine, a.accountY.toAffine, none⟩

/-- The counter among the private values. -/
def Circuit.count (a : Circuit) : UInt32 := UInt32.ofNat a.counter.val

theorem Circuit.count_eq {a : Circuit} {c : UInt32} (h : a.counter = (c.toNat : Variable)) :
    a.count = c := by
  have hbig : 2 ^ 32 < bn254Fr := by decide
  rw [Circuit.count, h, ZMod.val_natCast_of_lt (c.toNat_lt.trans hbig), UInt32.ofNat_toNat]

/-- Private values behind a statement that a context accepts. -/
structure Opening (ctx : VerificationContext) (message : List UInt8) (st : Statement)
    (a : Circuit) : Prop where
  context : newVerificationContext lib ctx.params ctx.accounts ctx.issue ctx.k = .ok ctx
  checked : ctx.check lib message st = .ok ()
  assigned : publicAssignment lib ctx.params st = .ok a.toPublicInputs
  satisfied : a.define lib = .ok ()

/-- What is computed from a witness `w` for the handle `b`: the quotient of the member polynomial by
`Z + b` is combined with the powers and taken away from `w`, and the difference is divided by the
remainder. -/
def extractInverse (p : Params) (members : List ℤ) (b : ℤ) (w : Bn254G1) : Except String Bn254G1 := do
  let (q, c) := divideLinear bn254Fr b (memberPolynomial members)
  let sum ← sumPowers lib p 0 q Affine.infinity
  match modInverse c bn254Fr with
  | none => .error "zero remainder"
  | some i => return lib.bn.scalarMultiplication (lib.bn.sub w sum) i

/-- A point that passes as the witness of a `b` outside the accumulated handles gives away
`[1 / (tau + b)]G`. -/
theorem extractInverse_eq {τ ω : ZMod bn254Fr} {n : ℕ} {members : List ℤ} {b : ℤ}
    (hlen : members.length ≤ n) (hω : linearProduct τ members = (τ + b) * ω) (hτb : τ + b ≠ 0)
    (hfar : ∀ m ∈ members, (m : ZMod bn254Fr) ≠ b) :
    extractInverse lib (srs lib τ n) members b (lib.bn.exp ω) = .ok (lib.bn.exp (τ + b)⁻¹) := by
  have hlength : (divideLinear bn254Fr b (memberPolynomial members)).1.length = members.length := by
    rw [length_divideLinear, length_memberPolynomial, Nat.add_sub_cancel]
  -- the remainder is the product of the differences
  have hc : ((divideLinear bn254Fr b (memberPolynomial members)).2 : ZMod bn254Fr) ≠ 0 := by
    rw [divideLinear_remainder, ne_eq, List.prod_eq_zero_iff, List.mem_map]
    rintro ⟨m, hm, hzero⟩
    exact hfar m hm (sub_eq_zero.1 hzero)
  have hdivide := eval_divideLinear (n := bn254Fr) τ b (memberPolynomial members)
  rw [eval_memberPolynomial, hω] at hdivide
  have hsum := sumPowers_srs lib τ n (divideLinear bn254Fr b (memberPolynomial members)).1 0 0
    (by omega)
  rw [pow_zero, one_mul, zero_add, ← lib.bn.infinity_eq_exp] at hsum
  obtain ⟨i, hi, _, hicast⟩ := modInverse_prime hc
  simp only [extractInverse, hsum, ok_bind, hi, pure_eq_ok, lib.bn.sub_exp,
    lib.bn.scalarMultiplication_exp, hicast, lib.bn.exp_inj]
  field_simp
  linear_combination hdivide

section Membership

variable {lib} {ctx : VerificationContext} {message : List UInt8} {st : Statement} {a : Circuit}
  {b : Bn254G1 × Bn254G1 × Bn254G1}

/-- The constraints in the words of the host, over the accumulator of the ring. -/
theorem Opening.relation (h : Opening lib ctx message st a) (hbases : bases lib = .ok b) :
    ∃ (τ : ZMod bn254Fr) (n : ℕ) (υ : ZMod secp256k1Fr) (r : ℤ), ctx.params = srs lib τ n ∧
      ctx.accounts.length < n ∧ linearProduct τ (ctx.accounts.map handle) ≠ 0 ∧
      st.v = lib.bn.exp (linearProduct τ (ctx.accounts.map handle)) ∧
      CircuitRelation lib a st τ (linearProduct τ (ctx.accounts.map handle)) b υ r := by
  obtain ⟨_, hvalid, _⟩ := (newVerificationContext_eq_ok lib).1 h.context
  have hchecked := (check_eq_ok lib).1 h.checked
  obtain ⟨τ, n, hτ, _, _, hparams⟩ := (validateParams_eq_ok lib).1 hvalid
  have hv := hchecked.v_eq
  have hassigned := h.assigned
  rw [hparams] at hv hvalid hassigned
  obtain ⟨hlen, _, _, hprod, hveq⟩ := (accumulate_eq_product lib hvalid).1 hv
  obtain ⟨r, υ, hof⟩ := publicOf_of_publicAssignment lib hassigned
  obtain ⟨r', hr', hrst⟩ := hchecked.challenge_eq
  obtain rfl : r = r' := Option.some.inj (hof.r_eq.symm.trans hrst)
  refine ⟨τ, n, υ, r, hparams, hlen, hprod, hveq, ?_⟩
  exact circuitRelation_of_define lib {
    publicOf := hof
    τ_ne := hτ
    bases_eq := hbases
    v_eq := hveq
    ν_ne := hprod
    nym_good := hchecked.nym_good
    s_good := hchecked.s_good
    t_good := hchecked.t_good
    challenge_eq := hr' } h.satisfied

/-- The account of an assignment is an entry of the ring. -/
def Circuit.InRing (a : Circuit) (ctx : VerificationContext) : Prop :=
  ∃ entry ∈ ctx.accounts, entry.u = a.account.u ∧ entry.y = a.account.y

/-- An opening inside the ring is the statement the host makes for that entry. -/
theorem Opening.made (h : Opening lib ctx message st a) (hbases : ∃ b, bases lib = .ok b)
    (hring : a.InRing ctx) :
    ∃ (i : ℕ) (entry : Account) (c : UInt32), ctx.accounts[i]? = some entry ∧
      entry.u = a.account.u ∧ entry.y = a.account.y ∧ (c.toNat : Variable) = a.counter ∧
      makeStatement lib ctx.params ctx.accounts i a.x.value a.d.value st.issue st.messageDigest
        st.timestamp st.k c = .ok (st, a.secretWitness c) := by
  obtain ⟨entry, hmem, hu, hy⟩ := hring
  obtain ⟨i, hi⟩ := List.mem_iff_getElem?.1 hmem
  obtain ⟨c, hc, hmake⟩ := makeStatement_of_define lib h.context hbases h.checked h.assigned
    h.satisfied hi hu.symm hy.symm
  exact ⟨i, entry, c, hi, hu, hy, hc, hmake⟩

/-- Whoever satisfies the circuit for an accepted statement made it as the host does for an account
of the ring, or has an account that shares its handle with a different one in the ring, or holds a
witness from which `[1 / (tau + b)]G` is computed for the handle `b` of its account. The pseudonym
bases are assumed to be good points. -/
theorem opening_in_ring_or_inverse (h : Opening lib ctx message st a)
    (hbases : ∃ b, bases lib = .ok b) :
    (∃ (i : ℕ) (entry : Account) (c : UInt32), ctx.accounts[i]? = some entry ∧
      entry.u = a.account.u ∧ entry.y = a.account.y ∧
      makeStatement lib ctx.params ctx.accounts i a.x.value a.d.value st.issue st.messageDigest
        st.timestamp st.k c = .ok (st, a.secretWitness c)) ∨
    (∃ entry ∈ ctx.accounts, memberInput entry ≠ memberInput a.account ∧
      handle entry = handle a.account) ∨
    ∃ τ, ctx.params.hTau = lib.bn2.exp τ ∧
      extractInverse lib ctx.params (ctx.accounts.map handle) (handle a.account) a.w.toAffine =
        .ok (lib.bn.exp (τ + handle a.account)⁻¹) := by
  obtain ⟨b, hb⟩ := hbases
  by_cases hshared : ∃ entry ∈ ctx.accounts, handle entry = handle a.account
  · obtain ⟨entry, hmem, hhandle⟩ := hshared
    by_cases hinput : memberInput entry = memberInput a.account
    · left
      obtain ⟨hu, hy⟩ := memberInput_inj hinput
      obtain ⟨i, e, c, hi, heu, hey, _, hmake⟩ := h.made ⟨b, hb⟩ ⟨entry, hmem, hu, hy⟩
      exact ⟨i, e, c, hi, heu, hey, hmake⟩
    · exact .inr (.inl ⟨entry, hmem, hinput, hhandle⟩)
  · right; right
    obtain ⟨τ, n, υ, r, hparams, hlen, hprod, _, hrel⟩ := h.relation hb
    obtain ⟨_, ω, _, hw, hω⟩ := hrel.membership a.account rfl rfl
    have hcast : ((handle a.account : ℤ) : ZMod bn254Fr) = (memberHash a.account : ZMod bn254Fr) := by
      rw [handle, intCast_emod, Int.cast_natCast]
    rw [← hcast] at hω
    have hτb := left_ne_zero_of_mul (hω ▸ hprod)
    refine ⟨τ, by rw [hparams]; rfl, ?_⟩
    rw [hparams, hw]
    refine extractInverse_eq lib (by simpa using hlen.le) hω hτb ?_
    -- handles are reduced, so different ones are different residues
    intro m hm heq
    obtain ⟨entry, hmem, rfl⟩ := List.mem_map.1 hm
    have hpos : (0 : ℤ) < bn254Fr := by decide
    exact hshared ⟨entry, hmem, eq_of_intCast_eq (Int.emod_nonneg _ hpos.ne')
      (Int.emod_lt_of_pos _ hpos) (Int.emod_nonneg _ hpos.ne') (Int.emod_lt_of_pos _ hpos) heq⟩

end Membership

/-- The private values of a sample statement open it: secret 3 and counter 1. -/
theorem sample_opening {m : List UInt8} {ctx : VerificationContext} {st : Statement}
    {w : SecretWitness} (hctx : sampleContext = .ok ctx) (hmake : sampleStatement m = .ok (st, w)) :
    ∃ a : Circuit, Opening exponentLib ctx m st a ∧ a.account.u = sampleAccount.u ∧
      a.account.y = sampleAccount.y ∧ a.x.value = 3 ∧ a.count = 1 := by
  have hmade := (makeStatement_eq_ok exponentLib).1 hmake
  obtain ⟨a, ha, hdefine⟩ := define_of_made exponentLib hmade
  obtain ⟨_, _, hweq⟩ := hmade.witness_eq
  obtain ⟨hpub, hu, hy⟩ := public_of_assignment exponentLib ha
  obtain ⟨hx, hcounter⟩ := private_of_assignment exponentLib ha
  rw [hweq] at hu hy hx hcounter
  have hsecret : a.x.value = 3 := by
    rw [← Option.some.inj hx]
    decide
  have hcount : a.count = 1 := Circuit.count_eq hcounter
  have hcheck := check_of_makeStatement exponentLib hctx hmade
  obtain ⟨_, _, _, _, _, rfl⟩ := (newVerificationContext_eq_ok exponentLib).1 hctx
  exact ⟨a, ⟨hctx, hcheck, hpub, hdefine⟩, hu.trans accountOf_sample.1, hy.trans accountOf_sample.2,
    hsecret, hcount⟩

theorem sample_bases : ∃ b, bases exponentLib = .ok b :=
  exists_ok_of_isOk (x := bases exponentLib) (by decide)

/-- The premises are met by the statement of secret 3 in the sample ring. -/
theorem opening_in_ring_or_inverse_sample :
    ∃ ctx st a, Opening exponentLib ctx [] st a ∧
      ((∃ (i : ℕ) (entry : Account) (c : UInt32), ctx.accounts[i]? = some entry ∧
        entry.u = a.account.u ∧ entry.y = a.account.y ∧
        makeStatement exponentLib ctx.params ctx.accounts i a.x.value a.d.value st.issue
          st.messageDigest st.timestamp st.k c = .ok (st, a.secretWitness c)) ∨
      (∃ entry ∈ ctx.accounts, memberInput entry ≠ memberInput a.account ∧
        handle entry = handle a.account) ∨
      ∃ τ, ctx.params.hTau = exponentLib.bn2.exp τ ∧
        extractInverse exponentLib ctx.params (ctx.accounts.map handle) (handle a.account)
          a.w.toAffine = .ok (exponentLib.bn.exp (τ + handle a.account)⁻¹)) := by
  obtain ⟨ctx, hctx⟩ := sampleContext_ok
  obtain ⟨st, w, hmake, _⟩ := sampleStatement_ok 0
  obtain ⟨a, hopen, _⟩ := sample_opening hctx hmake
  exact ⟨ctx, st, a, hopen, opening_in_ring_or_inverse hopen sample_bases⟩

/-! ## Pairs of accepted signatures -/

/-- A signature the verifier accepts, opened by an account of the ring. -/
structure OpenedSignature (v : Verifier zk) (ctx : VerificationContext) (message : List UInt8)
    (signed : Signed) (a : Circuit) : Prop where
  verified : v.verify lib ctx message signed = .ok ()
  opening : Opening lib ctx message signed.statement a
  inRing : a.InRing ctx

/-- Two secrets with one pseudonym for an issue. -/
def SharedNym (issue : FixedBytes 32) (x x' : ℤ) : Prop :=
  x ≠ x' ∧ ∃ b s t s' t', bases lib = .ok b ∧ seeds x issue = .ok (s, t) ∧
    seeds x' issue = .ok (s', t') ∧ nymSum lib b s t x = nymSum lib b s' t' x'

/-- An entry of a registry that holds the points of an account. -/
def Registered (entries : List Registration) (account : Account) (e : Registration) : Prop :=
  e ∈ entries ∧ e.account.u = account.u ∧ e.account.y = account.y

section Pairs

variable {lib} {v : Verifier zk} {ctx ctx' : VerificationContext} {message message' : List UInt8}
  {signed signed' : Signed} {a a' : Circuit}

/-- An opened signature is one of the user whose secret opens it. -/
theorem OpenedSignature.userSignature (h : OpenedSignature lib v ctx message signed a)
    (hbases : ∃ b, bases lib = .ok b) :
    UserSignature lib v a.x.value ctx.issue ctx.k ctx message signed a.count := by
  have hchecked := (check_eq_ok lib).1 h.opening.checked
  obtain ⟨i, entry, c, _, _, _, hc, hmake⟩ := h.opening.made hbases h.inRing
  rw [hchecked.issue_eq, hchecked.k_eq] at hmake
  rw [Circuit.count_eq hc.symm]
  exact ⟨⟨_, _, _, _, _, _, _, hmake⟩, h.verified⟩

/-- The secret behind an opening is that of every registration of its account. -/
theorem OpenedSignature.secret_of (h : OpenedSignature lib v ctx message signed a)
    (hbases : ∃ b, bases lib = .ok b) {entries : List Registration} {e : Registration}
    (he : Registered entries a.account e) :
    e.account.y = lib.secp.scalarMultiplication e.account.u a.x.value := by
  obtain ⟨b, hb⟩ := hbases
  obtain ⟨_, _, _, _, _, _, _, _, hrel⟩ := h.opening.relation hb
  rw [he.2.1, he.2.2]
  simp only [Circuit.account, hrel.accountU_eq, hrel.accountY_eq, lib.secp.scalarMultiplication_exp,
    Int.cast_natCast]

/-- For one issue the pseudonyms agree for one secret, and otherwise only for two that share one. -/
theorem OpenedSignature.nym_iff (h : OpenedSignature lib v ctx message signed a)
    (h' : OpenedSignature lib v ctx' message' signed' a') (hbases : ∃ b, bases lib = .ok b)
    (hissue : ctx.issue = ctx'.issue) :
    signed.statement.nym = signed'.statement.nym ↔
      a.x.value = a'.x.value ∨ SharedNym lib ctx.issue a.x.value a'.x.value := by
  obtain ⟨_, _, _, _, s, t, b, υ, r, htags⟩ := (h.userSignature hbases).facts
  obtain ⟨_, _, _, _, s', t', b', υ', r', htags'⟩ := (h'.userSignature hbases).facts
  rw [← hissue] at htags'
  obtain rfl := Except.ok.inj (htags.bases_eq.symm.trans htags'.bases_eq)
  constructor
  · intro hnym
    by_cases hx : a.x.value = a'.x.value
    · exact .inl hx
    · rw [htags.nym_eq, htags'.nym_eq] at hnym
      exact .inr ⟨by exact_mod_cast hx, b, s, t, s', t', htags.bases_eq, htags.seeds_eq,
        htags'.seeds_eq, hnym⟩
  · rintro (hx | ⟨_, c, p, q, p', q', hc, hp, hp', hshared⟩)
    · rw [← hx] at htags'
      exact htags.nym_congr htags'
    · obtain rfl := Except.ok.inj (htags.bases_eq.symm.trans hc)
      obtain ⟨rfl, rfl⟩ := Prod.mk.inj (Except.ok.inj (htags.seeds_eq.symm.trans hp))
      obtain ⟨rfl, rfl⟩ := Prod.mk.inj (Except.ok.inj (htags'.seeds_eq.symm.trans hp'))
      rw [htags.nym_eq, htags'.nym_eq, hshared]

/-- `Trace` refuses accepted signatures that differ in issue, quota or pseudonym. -/
theorem Verifier.trace_refused (hv : v.verify lib ctx message signed = .ok ())
    (hv' : v.verify lib ctx' message' signed' = .ok ()) (registry : Registry)
    (hother : ¬ (ctx.issue = ctx'.issue ∧ ctx.k = ctx'.k ∧
      signed.statement.nym = signed'.statement.nym)) :
    v.trace lib ctx message signed ctx' message' signed' registry =
      ({ status := .invalid }, some "trace requires same issue, quota and nym") := by
  have hrefused : ctx.issue ≠ ctx'.issue ∨ ctx.k ≠ ctx'.k ∨
      signed.statement.nym ≠ signed'.statement.nym := by
    simpa only [not_and_or] using hother
  simp only [Verifier.trace, Verifier.traceBody, hv, hv', ok_bind, rejectIf_of hrefused, error_bind]

/-- Any two accepted signatures that accounts of their rings open, whoever made them. They are
linked exactly when issue and pseudonym agree, and refused by `Trace` unless the quota agrees too;
for one issue the pseudonyms agree exactly for one secret or for two that share one. With one issue,
quota and secret the pair is legal for different counters, a replay for one counter and one
challenge, and otherwise traced: to the user of every account registered with the secret, or to none
if there is no such account. The registrations of the opened account are among these. -/
theorem trace_of_openings (h : OpenedSignature lib v ctx message signed a)
    (h' : OpenedSignature lib v ctx' message' signed' a') (hbases : ∃ b, bases lib = .ok b)
    {entries : List Registration} {registry : Registry}
    (hreg : newRegistry lib entries = .ok registry) :
    let answer := v.trace lib ctx message signed ctx' message' signed' registry
    v.link lib ctx message signed ctx' message' signed' =
        .ok (decide (ctx.issue = ctx'.issue ∧ signed.statement.nym = signed'.statement.nym)) ∧
      (ctx.issue = ctx'.issue → (signed.statement.nym = signed'.statement.nym ↔
        a.x.value = a'.x.value ∨ SharedNym lib ctx.issue a.x.value a'.x.value)) ∧
      (¬ (ctx.issue = ctx'.issue ∧ ctx.k = ctx'.k ∧
          signed.statement.nym = signed'.statement.nym) →
        answer = ({ status := .invalid }, some "trace requires same issue, quota and nym")) ∧
      (ctx.issue = ctx'.issue → ctx.k = ctx'.k → a.x.value = a'.x.value →
        (a.count ≠ a'.count → answer = ({ status := .legal }, none)) ∧
        (a.count = a'.count → signed.statement.r = signed'.statement.r →
          answer = ({ status := .replay }, none)) ∧
        (a.count = a'.count → signed.statement.r ≠ signed'.statement.r →
          (∀ e ∈ entries, e.account.y = lib.secp.scalarMultiplication e.account.u a.x.value →
            ∃ key, traceKey lib a.x.value = .ok key ∧
              answer = ({ status := .traced, userID := e.userID, key }, none)) ∧
          ((∀ e ∈ entries, e.account.y ≠ lib.secp.scalarMultiplication e.account.u a.x.value) →
            answer = ({ status := .invalid },
              some "trace lookup: unregistered extracted trace key")))) ∧
      ∀ e, Registered entries a.account e →
        e.account.y = lib.secp.scalarMultiplication e.account.u a.x.value := by
  intro answer
  refine ⟨?_, h.nym_iff h' hbases, Verifier.trace_refused h.verified h'.verified registry, ?_,
    fun e => h.secret_of hbases⟩
  · simp only [Verifier.link, h.verified, h'.verified, ok_bind, pure_eq_ok, Bool.decide_and]
  · intro hissue hk hx
    have hfirst := h.userSignature hbases
    have hsecond := h'.userSignature hbases
    rw [← hissue, ← hk, ← hx] at hsecond
    refine ⟨fun hc => hfirst.trace_legal hsecond hc registry,
      fun hc hr => hfirst.trace_replay hsecond hc hr registry, fun hc hr => ⟨?_, ?_⟩⟩
    · intro e he hy
      refine ⟨_, hfirst.traceKey_eq, ?_⟩
      rw [show answer = _ from hfirst.trace_eq hsecond hreg he hy, traceOutcome,
        if_neg (not_not.2 hc), if_neg hr]
    · exact hfirst.trace_unregistered hsecond hc hr hreg

end Pairs

/-- A signature over the sample ring, opened by the account of the user `alice`. -/
theorem sample_openedSignature {m : List UInt8} {ctx : VerificationContext} {st : Statement}
    {w : SecretWitness} (hctx : sampleContext = .ok ctx) (hmake : sampleStatement m = .ok (st, w)) :
    ∃ a : Circuit,
      OpenedSignature exponentLib sampleVerifier ctx m ⟨st, sampleProof⟩ a ∧
        Registered sampleEntries a.account ⟨"alice", sampleAccount⟩ ∧ a.x.value = 3 ∧
        a.count = 1 := by
  obtain ⟨a, hopen, hu, hy, hprivate⟩ := sample_opening hctx hmake
  have hverified := sampleVerifier_accepts hctx hmake
  obtain ⟨_, _, _, _, _, rfl⟩ := (newVerificationContext_eq_ok exponentLib).1 hctx
  have hmem : sampleAccount ∈ sampleRing := by simp [sampleRing]
  exact ⟨a, ⟨hverified, hopen, sampleAccount, hmem, hu.symm, hy.symm⟩,
    ⟨alice_mem_sampleEntries, hu.symm, hy.symm⟩, hprivate⟩

/-- The premises are met by two signatures at one counter over different messages: the pair is
linked and traced to the user `alice`, and to nobody where only `bob` is registered. -/
theorem trace_of_openings_sample :
    ∃ registry bobs ctx st st' key, newRegistry exponentLib sampleEntries = .ok registry ∧
      newRegistry exponentLib [⟨"bob", otherAccount⟩] = .ok bobs ∧
      traceKey exponentLib 3 = .ok key ∧
      sampleVerifier.link exponentLib ctx [] ⟨st, sampleProof⟩ ctx [1] ⟨st', sampleProof⟩ =
        .ok true ∧
      sampleVerifier.trace exponentLib ctx [] ⟨st, sampleProof⟩ ctx [1] ⟨st', sampleProof⟩
        registry = ({ status := .traced, userID := "alice", key }, none) ∧
      sampleVerifier.trace exponentLib ctx [] ⟨st, sampleProof⟩ ctx [1] ⟨st', sampleProof⟩ bobs =
        ({ status := .invalid }, some "trace lookup: unregistered extracted trace key") := by
  obtain ⟨registry, hreg⟩ := sampleEntries_accepted
  obtain ⟨bobs, hbobs⟩ := exists_ok_of_isOk (x := newRegistry exponentLib [⟨"bob", otherAccount⟩])
    (by decide +kernel)
  obtain ⟨ctx, hctx⟩ := sampleContext_ok
  obtain ⟨st, w, st', w', hmake, hmake', hne⟩ := sampleStatements_ok
  obtain ⟨a, hopened, hknown, hx, hcount⟩ := sample_openedSignature hctx hmake
  obtain ⟨a', hopened', -, hx', hcount'⟩ := sample_openedSignature hctx hmake'
  have hsecret : a.x.value = a'.x.value := hx.trans hx'.symm
  have hsame : a.count = a'.count := hcount.trans hcount'.symm
  obtain ⟨hlink, hnym, -, hpair, hown⟩ := trace_of_openings hopened hopened' sample_bases hreg
  obtain ⟨-, -, -, hother, -⟩ := trace_of_openings hopened hopened' sample_bases hbobs
  obtain ⟨key, hkey, htraced⟩ := ((hpair rfl rfl hsecret).2.2 hsame hne).1 _ hknown.1 (hown _ hknown)
  have hunknown := ((hother rfl rfl hsecret).2.2 hsame hne).2 (by rw [hx]; decide)
  rw [hx] at hkey
  refine ⟨registry, bobs, ctx, st, st', key, hreg, hbobs, hkey, ?_, htraced, hunknown⟩
  rw [hlink, (hnym rfl).2 (.inl hsecret)]
  simp

/-! ## More signatures than quota -/

section Surplus

variable {lib} {entries : List Registration} {registry : Registry}

/-- The trace key of a registered account is the one of its secret. -/
theorem registeredTraceKey_of_secret (hreg : newRegistry lib entries = .ok registry)
    {e : Registration} (he : e ∈ entries) {x : ℤ}
    (hy : e.account.y = lib.secp.scalarMultiplication e.account.u x) :
    registeredTraceKey lib e.account = lib.secp.exp x := by
  obtain ⟨_, scan, hscan⟩ := newRegistry_eq_ok hreg
  obtain ⟨⟨d, κ, hentry⟩, _, _⟩ := RegistryScan.holds_of_mem hscan e he
  rw [hentry.u_eq, hentry.y_eq, lib.secp.scalarMultiplication_exp, lib.secp.exp_inj] at hy
  rw [hentry.key_eq, mul_right_cancel₀ hentry.d_ne hy]

/-- Registrations of one user were made with one secret. -/
theorem secret_eq_of_user (hreg : newRegistry lib entries = .ok registry) {e f : Registration}
    (he : e ∈ entries) (hf : f ∈ entries) (huser : e.userID = f.userID) {x x' : ℤ}
    (hx : canonicalNonzero (some x) secp256k1Fr = true)
    (hx' : canonicalNonzero (some x') secp256k1Fr = true)
    (hy : e.account.y = lib.secp.scalarMultiplication e.account.u x)
    (hy' : f.account.y = lib.secp.scalarMultiplication f.account.u x') : x = x' := by
  have hkey := ((registry_consistent hreg).2.2 e he f hf).1 huser
  rw [registeredTraceKey_of_secret hreg he hy, registeredTraceKey_of_secret hreg hf hy',
    lib.secp.exp_inj] at hkey
  obtain ⟨hpos, hlt⟩ := canonicalNonzero_some.1 hx
  obtain ⟨hpos', hlt'⟩ := canonicalNonzero_some.1 hx'
  exact eq_of_intCast_eq hpos.le hlt hpos'.le hlt' hkey

/-- Accepted signatures for one issue and quota with distinct challenges, opened by registered
accounts, whoever made them: if there are more than the registered users have quota for together,
then some two of them are traced to the user whose secret made both. -/
theorem surplus_names_a_user {v : Verifier zk} (hreg : newRegistry lib entries = .ok registry)
    (hbases : ∃ b, bases lib = .ok b) {issue : FixedBytes 32} {k : UInt32} {n : ℕ}
    (ctx : Fin n → VerificationContext) (message : Fin n → List UInt8) (signed : Fin n → Signed)
    (a : Fin n → Circuit)
    (hopened : ∀ i, OpenedSignature lib v (ctx i) (message i) (signed i) (a i))
    (hissue : ∀ i, (ctx i).issue = issue) (hk : ∀ i, (ctx i).k = k)
    (hknown : ∀ i, ∃ e, Registered entries (a i).account e)
    (hr : ∀ i j, i ≠ j → (signed i).statement.r ≠ (signed j).statement.r)
    (hn : (entries.map (·.userID)).dedup.length * k.toNat < n) :
    ∃ i j e, i ≠ j ∧ Registered entries (a i).account e ∧
      e.account.y = lib.secp.scalarMultiplication e.account.u (a i).x.value ∧
      (a j).x.value = (a i).x.value ∧
      v.trace lib (ctx i) (message i) (signed i) (ctx j) (message j) (signed j) registry =
        ({ status := .traced, userID := e.userID,
           key := lib.secp.scalarMultiplication lib.secp.generator (a i).x.value }, none) := by
  choose e he using hknown
  have hsig (i : Fin n) : UserSignature lib v (a i).x.value issue k (ctx i) (message i) (signed i)
      (a i).count := by
    have h := (hopened i).userSignature hbases
    rwa [hissue, hk] at h
  have hown (i : Fin n) := (hopened i).secret_of hbases (he i)
  -- every signature takes one of the slots of its user
  let slot (i : Fin n) : String × ℕ := ((e i).userID, (a i).count.toNat)
  have hmaps : ∀ i ∈ Finset.univ, slot i ∈
      (entries.map (·.userID)).toFinset ×ˢ Finset.range k.toNat := by
    intro i _
    refine Finset.mem_product.2 ⟨?_, ?_⟩
    · exact List.mem_toFinset.2 (List.mem_map_of_mem (he i).1)
    · exact Finset.mem_range.2 (UInt32.lt_iff_toNat_lt.1 (hsig i).facts.2.2.1)
  have hcard : ((entries.map (·.userID)).toFinset ×ˢ Finset.range k.toNat).card <
      (Finset.univ : Finset (Fin n)).card := by
    rw [Finset.card_product, List.card_toFinset, Finset.card_range, Finset.card_univ,
      Fintype.card_fin]
    exact hn
  obtain ⟨i, _, j, _, hne, hslot⟩ := Finset.exists_ne_map_eq_of_card_lt_of_maps_to hcard hmaps
  obtain ⟨huser, hcount⟩ := Prod.mk.inj hslot
  -- one user has one secret, so the pair is one of a user who repeated a counter
  have hx : ((a i).x.value : ℤ) = (a j).x.value :=
    secret_eq_of_user hreg (he i).1 (he j).1 huser (hsig i).facts.2.2.2.1 (hsig j).facts.2.2.2.1
      (hown i) (hown j)
  have hsecond := hsig j
  rw [← hx] at hsecond
  refine ⟨i, j, e i, hne, he i, hown i, by exact_mod_cast hx.symm, ?_⟩
  rw [(hsig i).trace_eq hsecond hreg (he i).1 (hown i), traceOutcome,
    if_neg (by simpa using UInt32.toNat_inj.1 hcount), if_neg (hr i j hne)]

end Surplus

/-- Five signatures of the user `alice`, where two users have a quota of two each: a pair names the
user. -/
theorem surplus_names_a_user_sample :
    ∃ (registry : Registry) (ctx : VerificationContext) (st : Fin 5 → Statement) (i j : Fin 5),
      newRegistry exponentLib sampleEntries = .ok registry ∧ i ≠ j ∧
      (sampleVerifier.trace exponentLib ctx (sampleMessages i) ⟨st i, sampleProof⟩ ctx
        (sampleMessages j) ⟨st j, sampleProof⟩ registry).1.userID = "alice" := by
  obtain ⟨registry, hreg⟩ := sampleEntries_accepted
  obtain ⟨ctx, hctx⟩ := sampleContext_ok
  choose st w hmake hr using sampleStatement_ok
  choose a hopened hknown _ _ using fun i => sample_openedSignature hctx (hmake i)
  have hpolicy : ctx.issue = FixedBytes.zero 32 ∧ ctx.k = 2 := by
    obtain ⟨_, _, _, _, _, rfl⟩ := (newVerificationContext_eq_ok exponentLib).1 hctx
    exact ⟨rfl, rfl⟩
  have hdistinct : ∀ i j, i ≠ j → (st i).r ≠ (st j).r := by
    intro i j hne heq
    rw [hr, hr, Option.some.injEq] at heq
    exact sampleChallenges_ne hne heq
  obtain ⟨i, j, e, hne, he, _, _, htrace⟩ := surplus_names_a_user hreg sample_bases (fun _ => ctx)
    sampleMessages (fun i => ⟨st i, sampleProof⟩) a hopened (fun _ => hpolicy.1)
    (fun _ => hpolicy.2) (fun i => ⟨_, hknown i⟩) hdistinct (by decide)
  -- of the two registered accounts only that of `alice` has the points of the opened one
  have hpoint : e.account.u = sampleAccount.u := he.2.1.trans (hknown i).2.1.symm
  have honly : ∀ f ∈ sampleEntries, f.account.u = sampleAccount.u → f.userID = "alice" := by
    decide
  refine ⟨registry, ctx, st, i, j, hreg, hne, ?_⟩
  rw [htrace]
  exact honly e he.1 hpoint

end Lktrs.NativeProof
