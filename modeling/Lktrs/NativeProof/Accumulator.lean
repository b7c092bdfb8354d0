import Lktrs.NativeProof.Profile

/-!
# Parameters and the accumulator in the exponent

The valid parameters are exactly the structured reference strings: the
generators, and the powers of one nonzero trapdoor residue (`srs`,
`validateParams_eq_ok`). Over such parameters the accumulator of a ring is the
point whose logarithm is the product of `tau + a` over its member handles `a`
(`combinePowers_srs`), whatever way the coefficients were computed. From that
come the order-independence of the accumulator and the fact that a sublist of an
accepted ring is accepted.
-/

set_option autoImplicit false

namespace Lktrs.NativeProof

open Lktrs.Foundation

variable (lib : GnarkCrypto)

/-! ## Point tests and canonical scalars -/

theorem goodBN_iff {p : Bn254G1} : goodBN lib p = true ↔ ∃ a, a ≠ 0 ∧ p = lib.bn.exp a :=
  lib.bn.good_iff

theorem goodBN2_iff {p : Bn254G2} : goodBN2 lib p = true ↔ ∃ a, a ≠ 0 ∧ p = lib.bn2.exp a :=
  lib.bn2.good_iff

theorem goodSecp_iff {p : Secp256k1G1} : goodSecp lib p = true ↔ ∃ a, a ≠ 0 ∧ p = lib.secp.exp a :=
  lib.secp.good_iff

@[simp] theorem goodBN_exp {a : ZMod bn254Fr} : goodBN lib (lib.bn.exp a) = true ↔ a ≠ 0 :=
  lib.bn.good_exp

@[simp] theorem goodBN2_exp {a : ZMod bn254Fr} : goodBN2 lib (lib.bn2.exp a) = true ↔ a ≠ 0 :=
  lib.bn2.good_exp

@[simp] theorem goodSecp_exp {a : ZMod secp256k1Fr} :
    goodSecp lib (lib.secp.exp a) = true ↔ a ≠ 0 :=
  lib.secp.good_exp

@[simp] theorem canonicalNonzero_some {n : ℤ} {m : ℕ} :
    canonicalNonzero (some n) m = true ↔ 0 < n ∧ n < m := by
  simp [canonicalNonzero]

theorem canonicalNonzero_iff {n : Option ℤ} {m : ℕ} :
    canonicalNonzero n m = true ↔ ∃ a, n = some a ∧ 0 < a ∧ a < m := by
  cases n with
  | none => simp [canonicalNonzero]
  | some a => simp

theorem cast_ne_zero_of_canonicalNonzero {n : ℤ} {m : ℕ}
    (h : canonicalNonzero (some n) m = true) : (n : ZMod m) ≠ 0 := by
  obtain ⟨hpos, hlt⟩ := canonicalNonzero_some.1 h
  exact intCast_ne_zero_of_canonical hpos hlt

theorem hashScalar_eq_ok {data : List UInt8} {modulus : ℕ} {n : ℤ} :
    hashScalar data modulus = .ok n ↔
      2 ≤ modulus ∧ n ≠ 0 ∧ n = (sha256 data).value % modulus := by
  simp only [hashScalar, bind_eq_ok, rejectIf_eq_ok, pure_eq_ok]
  constructor
  · rintro ⟨_, hmod, _, hn, rfl⟩
    exact ⟨by omega, hn, rfl⟩
  · rintro ⟨hmod, hn, rfl⟩
    exact ⟨(), by omega, (), hn, rfl⟩

/-- A scalar hash is canonical and nonzero. -/
theorem hashScalar_canonical {data : List UInt8} {modulus : ℕ} {n : ℤ}
    (h : hashScalar data modulus = .ok n) : canonicalNonzero (some n) modulus = true := by
  obtain ⟨hmod, hn, rfl⟩ := hashScalar_eq_ok.1 h
  have hpos : (0 : ℤ) < modulus := by omega
  have hnonneg := Int.emod_nonneg ((sha256 data).value : ℤ) hpos.ne'
  have hlt := Int.emod_lt_of_pos ((sha256 data).value : ℤ) hpos
  exact canonicalNonzero_some.2 ⟨by omega, hlt⟩

/-! ## Structured reference strings -/

/-- The parameters of trapdoor residue `τ` with `n` powers. -/
def srs (τ : ZMod bn254Fr) (n : ℕ) : Params where
  g := lib.bn.generator
  h := lib.bn2.generator
  hTau := lib.bn2.exp τ
  powers := (List.iterate (· * τ) 1 n).map lib.bn.exp

@[simp] theorem length_powers_srs (τ : ZMod bn254Fr) (n : ℕ) : (srs lib τ n).powers.length = n := by
  simp [srs]

theorem getElem?_iterate_mul {τ a : ZMod bn254Fr} {n i : ℕ} (h : i < n) :
    (List.iterate (· * τ) a n)[i]? = some (a * τ ^ i) := by
  induction n generalizing a i with
  | zero => omega
  | succ n ih =>
      cases i with
      | zero => simp
      | succ i =>
          rw [List.iterate, List.getElem?_cons_succ, ih (by omega), mul_assoc, pow_succ']

theorem getElem?_powers_srs {τ : ZMod bn254Fr} {n i : ℕ} (h : i < n) :
    (srs lib τ n).powers[i]? = some (lib.bn.exp (τ ^ i)) := by
  simp [srs, getElem?_iterate_mul h]

/-- Two adjacent powers pass the pairing check when the second is `τ` times the first. -/
theorem adjacentPowers_exp {p : Params} {τ a b : ZMod bn254Fr} (hh : p.h = lib.bn2.generator)
    (hτ : p.hTau = lib.bn2.exp τ) :
    adjacentPowers lib p (lib.bn.exp a) (lib.bn.exp b) = true ↔ b = a * τ := by
  have hcheck := lib.pairing.pairingCheck_exp [(b, 1), (-a, τ)]
  simp only [List.map_cons, List.map_nil, List.sum_cons, List.sum_nil] at hcheck
  rw [adjacentPowers, hh, hτ, lib.bn.neg_exp, lib.bn2.generator_eq_exp, hcheck]
  simp only [decide_eq_true_eq]
  constructor
  · intro h
    linear_combination h
  · rintro rfl
    ring

/-- The loop of `ValidateParams` accepts exactly the continuation by powers of `τ`. -/
theorem validatePowers_eq_ok {p : Params} {τ : ZMod bn254Fr} (hh : p.h = lib.bn2.generator)
    (hτ : p.hTau = lib.bn2.exp τ) (hτ0 : τ ≠ 0) :
    ∀ (qs : List Bn254G1) (i : ℕ) (a : ZMod bn254Fr), a ≠ 0 →
      (validatePowers lib p i (some (lib.bn.exp a)) qs = .ok () ↔
        qs = (List.iterate (· * τ) (a * τ) qs.length).map lib.bn.exp) := by
  intro qs
  induction qs with
  | nil => intro i a _; simp [validatePowers]
  | cons q qs ih =>
      intro i a ha
      have haτ : a * τ ≠ 0 := mul_ne_zero ha hτ0
      simp only [validatePowers, bind_eq_ok, rejectIf_eq_ok, Bool.not_eq_false, List.length_cons,
        List.iterate, List.map_cons, List.cons.injEq]
      constructor
      · rintro ⟨_, hgood, _, hadj, hrest⟩
        obtain ⟨b, _, rfl⟩ := (goodBN_iff lib).1 hgood
        obtain rfl := (adjacentPowers_exp lib hh hτ).1 hadj
        exact ⟨rfl, (ih (i + 1) _ haτ).1 hrest⟩
      · rintro ⟨rfl, hrest⟩
        exact ⟨(), (goodBN_exp lib).2 haτ, (), (adjacentPowers_exp lib hh hτ).2 rfl,
          (ih (i + 1) _ haτ).2 hrest⟩

/-- The parameters that pass validation are the structured reference strings of a nonzero
trapdoor within the length bounds. -/
theorem validateParams_eq_ok {p : Params} :
    validateParams lib p = .ok () ↔
      ∃ (τ : ZMod bn254Fr) (n : ℕ), τ ≠ 0 ∧ 2 ≤ n ∧ n ≤ 2 ^ 16 + 1 ∧ p = srs lib τ n := by
  simp only [validateParams, bind_eq_ok, rejectIf_eq_ok, not_or, Bool.not_eq_false, not_not,
    Nat.not_lt]
  constructor
  · rintro ⟨_, ⟨hmin, hmax⟩, _, ⟨_, _, hgood⟩, _, ⟨hg, hh, hzero⟩, hloop⟩
    -- the trapdoor is the exponent of the second point; the loop then fixes every power
    obtain ⟨τ, hτ0, hτ⟩ := (goodBN2_iff lib).1 hgood
    obtain ⟨g, h, hTau, powers⟩ := p
    cases powers with
    | nil => simp at hzero
    | cons q qs =>
        simp only [List.getElem?_cons_zero, Option.some.injEq] at hg hh hτ hzero
        subst hg hh hτ hzero
        rw [validatePowers, bind_eq_ok] at hloop
        obtain ⟨_, _, hloop⟩ := hloop
        rw [lib.bn.generator_eq_exp] at hloop
        have hqs := (validatePowers_eq_ok lib rfl rfl hτ0 qs 1 1 one_ne_zero).1 hloop
        refine ⟨τ, qs.length + 1, hτ0, hmin, hmax, ?_⟩
        simp only [srs, List.iterate, List.map_cons, ← lib.bn.generator_eq_exp, ← hqs]
  · rintro ⟨τ, n, hτ0, hmin, hmax, rfl⟩
    have hone : goodBN lib lib.bn.generator = true := by
      rw [lib.bn.generator_eq_exp]
      exact (goodBN_exp lib).2 one_ne_zero
    have hone2 : goodBN2 lib lib.bn2.generator = true := by
      rw [lib.bn2.generator_eq_exp]
      exact (goodBN2_exp lib).2 one_ne_zero
    obtain ⟨m, rfl⟩ : ∃ m, n = m + 1 := ⟨n - 1, by omega⟩
    refine ⟨(), ?_, (), ⟨hone, hone2, (goodBN2_exp lib).2 hτ0⟩, (), ?_, ?_⟩
    · rw [length_powers_srs]
      exact ⟨hmin, hmax⟩
    · exact ⟨rfl, rfl, by simp [srs, lib.bn.generator_eq_exp]⟩
    · have hpowers : (srs lib τ (m + 1)).powers =
          lib.bn.exp 1 :: (List.iterate (· * τ) (1 * τ) m).map lib.bn.exp := rfl
      rw [hpowers, validatePowers, bind_eq_ok]
      refine ⟨(), by simp, ?_⟩
      exact (validatePowers_eq_ok lib rfl rfl hτ0 _ 1 1 one_ne_zero).2 (by simp)

/-- The points of valid parameters are good, and their number is within the bounds. -/
theorem validateParams_good {p : Params} (h : validateParams lib p = .ok ()) :
    goodBN lib p.g = true ∧ goodBN2 lib p.h = true ∧ goodBN2 lib p.hTau = true ∧
      (∀ v ∈ p.powers, goodBN lib v = true) ∧ 2 ≤ p.powers.length ∧
      p.powers.length ≤ 2 ^ 16 + 1 := by
  obtain ⟨τ, n, hτ, hmin, hmax, rfl⟩ := (validateParams_eq_ok lib).1 h
  simp only [validateParams, bind_eq_ok, rejectIf_eq_ok, not_or, Bool.not_eq_false] at h
  obtain ⟨_, _, _, ⟨hg, hh, hTau⟩, _⟩ := h
  refine ⟨hg, hh, hTau, ?_, by simpa using hmin, by simpa using hmax⟩
  intro v hv
  obtain ⟨i, hi⟩ := List.mem_iff_getElem?.1 hv
  have hlt := (List.getElem?_eq_some_iff.1 hi).1
  rw [length_powers_srs] at hlt
  rw [getElem?_powers_srs lib hlt, Option.some.injEq] at hi
  rw [← hi, goodBN_exp]
  exact pow_ne_zero i hτ

theorem setupPowers_eq (tau : ℤ) :
    ∀ (n : ℕ) (power : ℤ), setupPowers lib tau n power =
      (List.iterate (· * (tau : ZMod bn254Fr)) (power : ZMod bn254Fr) n).map lib.bn.exp := by
  intro n
  induction n with
  | zero => intro power; rfl
  | succ n ih =>
      intro power
      rw [setupPowers, ih, lib.bn.multiple_eq_exp]
      simp [List.iterate]

/-- `Setup` returns a structured reference string whose trapdoor is the drawn residue. -/
theorem setup_eq_ok {capacity : ℤ} {draw : Except String ℕ} {p : Params} :
    setup lib capacity draw = .ok p ↔
      1 ≤ capacity ∧ capacity ≤ 2 ^ 16 ∧ ∃ tau, randomNonzero bn254Fr draw = .ok tau ∧
        p = srs lib tau (capacity.toNat + 1) := by
  simp only [setup, bind_eq_ok, rejectIf_eq_ok, wrapError_eq_ok, pure_eq_ok, not_or, not_lt]
  have hparams (tau : ℤ) : srs lib tau (capacity.toNat + 1) =
      { g := lib.bn.generator
        h := lib.bn2.generator
        hTau := lib.bn2.scalarMultiplication lib.bn2.generator tau
        powers := setupPowers lib tau (capacity.toNat + 1) 1 } := by
    rw [setupPowers_eq, lib.bn2.multiple_eq_exp, Int.cast_one]
    rfl
  constructor
  · rintro ⟨_, ⟨hmin, hmax⟩, tau, hdraw, rfl⟩
    exact ⟨hmin, hmax, tau, hdraw, (hparams tau).symm⟩
  · rintro ⟨hmin, hmax, tau, hdraw, rfl⟩
    exact ⟨(), ⟨hmin, hmax⟩, tau, hdraw, (hparams tau).symm⟩

/-- A nonzero draw is a canonical nonzero scalar. -/
theorem randomNonzero_canonical {modulus : ℕ} (hmod : 2 ≤ modulus) {draw : Except String ℕ} {n : ℤ}
    (h : randomNonzero modulus draw = .ok n) : canonicalNonzero (some n) modulus = true := by
  simp only [randomNonzero, randInt, bind_eq_ok, pure_eq_ok] at h
  obtain ⟨_, ⟨raw, _, rfl⟩, rfl⟩ := h
  have hpos : (0 : ℤ) < (modulus : ℤ) - 1 := by omega
  have hnonneg := Int.emod_nonneg (raw : ℤ) hpos.ne'
  have hlt := Int.emod_lt_of_pos (raw : ℤ) hpos
  exact canonicalNonzero_some.2 ⟨by omega, by omega⟩

/-- What `Setup` returns passes `ValidateParams`. -/
theorem validateParams_setup {capacity : ℤ} {draw : Except String ℕ} {p : Params}
    (h : setup lib capacity draw = .ok p) : validateParams lib p = .ok () := by
  obtain ⟨hmin, hmax, tau, hdraw, rfl⟩ := (setup_eq_ok lib).1 h
  have htau := cast_ne_zero_of_canonicalNonzero (randomNonzero_canonical (by decide) hdraw)
  exact (validateParams_eq_ok lib).2 ⟨tau, _, htau, by omega, by omega, rfl⟩

/-! ## The member polynomial -/

theorem length_multiplyLinear (member : ℤ) :
    ∀ (carried : ℤ) (cs : List ℤ), (multiplyLinear member carried cs).length = cs.length + 1 := by
  intro carried cs
  induction cs generalizing carried with
  | nil => rfl
  | cons c cs ih => simp [multiplyLinear, ih]

section Evaluation

variable {R : Type*} [CommRing R] [CharP R bn254Fr]

/-- One pass multiplies the polynomial by `Z + member`. -/
theorem eval_multiplyLinear (τ : R) (member : ℤ) :
    ∀ (cs : List ℤ) (carried : ℤ), evalCoefficients τ (multiplyLinear member carried cs) =
      carried + (τ + member) * evalCoefficients τ cs := by
  intro cs
  induction cs with
  | nil => intro carried; simp [multiplyLinear, evalCoefficients]
  | cons c cs ih =>
      intro carried
      rw [multiplyLinear, evalCoefficients, ih, evalCoefficients, intCast_emod_of_charP,
        intCast_emod_of_charP]
      push_cast
      ring

theorem length_memberPolynomial (members : List ℤ) :
    (memberPolynomial members).length = members.length + 1 := by
  have hfold : ∀ (ms cs : List ℤ), (ms.foldl (fun coefficients member =>
      multiplyLinear member 0 coefficients) cs).length = ms.length + cs.length := by
    intro ms
    induction ms with
    | nil => intro cs; simp
    | cons m ms ih =>
        intro cs
        rw [List.foldl_cons, ih, length_multiplyLinear, List.length_cons]
        omega
  exact hfold members [1]

theorem eval_memberPolynomial (τ : R) (members : List ℤ) :
    evalCoefficients τ (memberPolynomial members) = linearProduct τ members := by
  have hfold : ∀ (ms cs : List ℤ), evalCoefficients τ (ms.foldl (fun coefficients member =>
      multiplyLinear member 0 coefficients) cs) = linearProduct τ ms * evalCoefficients τ cs := by
    intro ms
    induction ms with
    | nil => intro cs; simp
    | cons m ms ih =>
        intro cs
        rw [List.foldl_cons, ih, eval_multiplyLinear, linearProduct_cons, Int.cast_zero]
        ring
  rw [memberPolynomial, hfold]
  simp [evalCoefficients]

end Evaluation

/-- The sum over the powers is the evaluation of the coefficients at the trapdoor. -/
theorem sumPowers_srs (τ : ZMod bn254Fr) (n : ℕ) :
    ∀ (cs : List ℤ) (i : ℕ) (acc : ZMod bn254Fr), i + cs.length ≤ n →
      sumPowers lib (srs lib τ n) i cs (lib.bn.exp acc) =
        .ok (lib.bn.exp (acc + τ ^ i * evalCoefficients τ cs)) := by
  intro cs
  induction cs with
  | nil => intro i acc _; simp [sumPowers, evalCoefficients]
  | cons c cs ih =>
      intro i acc hlen
      rw [List.length_cons] at hlen
      rw [sumPowers, getElem?_powers_srs lib (by omega : i < n)]
      simp only [lib.bn.scalarMultiplication_exp, lib.bn.add_exp]
      rw [ih (i + 1) _ (by omega), evalCoefficients]
      ring_nf

/-- The accumulator of a list of handles. -/
theorem combinePowers_srs {τ : ZMod bn254Fr} {n : ℕ} {members : List ℤ} {v : Bn254G1} :
    combinePowers lib (srs lib τ n) members = .ok v ↔
      members.length < n ∧ linearProduct τ members ≠ 0 ∧
        v = lib.bn.exp (linearProduct τ members) := by
  simp only [combinePowers, bind_eq_ok, rejectIf_eq_ok, pure_eq_ok, length_powers_srs, not_le,
    ge_iff_le]
  have hsum (hlen : members.length < n) :
      sumPowers lib (srs lib τ n) 0 (memberPolynomial members) Affine.infinity =
        .ok (lib.bn.exp (linearProduct τ members)) := by
    have h := sumPowers_srs lib τ n (memberPolynomial members) 0 0
      (by rw [length_memberPolynomial]; omega)
    rw [eval_memberPolynomial, pow_zero, one_mul, zero_add] at h
    exact (congrArg _ lib.bn.infinity_eq_exp).trans h
  constructor
  · rintro ⟨_, hlen, sum, hok, _, hgood, rfl⟩
    rw [hsum hlen, Except.ok.injEq] at hok
    subst hok
    exact ⟨hlen, (goodBN_exp lib).1 (by simpa using hgood), rfl⟩
  · rintro ⟨hlen, hne, rfl⟩
    exact ⟨(), hlen, _, hsum hlen, (), by simpa using (goodBN_exp lib).2 hne, rfl⟩

/-! ## Accounts and handles -/

theorem validateAccount_eq_ok {a : Account} :
    validateAccount lib a = .ok () ↔
      goodSecp lib a.u = true ∧ goodSecp lib a.y = true ∧
        ∀ d, a.d = some d → canonicalNonzero (some d) secp256k1Fr = true ∧
          lib.secp.exp d = a.u := by
  obtain ⟨u, y, d⟩ := a
  cases d with
  | none =>
      simp only [validateAccount, bind_eq_ok, rejectIf_eq_ok, not_or, Bool.not_eq_false, pure_eq_ok]
      simp
  | some d =>
      simp only [validateAccount, bind_eq_ok, rejectIf_eq_ok, not_or, Bool.not_eq_false, not_not,
        lib.secp.multiple_eq_exp, Option.some.injEq]
      constructor
      · rintro ⟨_, ⟨hu, hy⟩, _, hd, hud⟩
        refine ⟨hu, hy, ?_⟩
        rintro _ rfl
        exact ⟨hd, hud⟩
      · rintro ⟨hu, hy, hall⟩
        exact ⟨(), ⟨hu, hy⟩, (), (hall d rfl).1, (hall d rfl).2⟩

/-- The account of a secret and an account exponent. -/
def accountOf (x d : ℤ) : Account where
  u := lib.secp.exp d
  y := lib.secp.exp (x * d)
  d := some d

theorem validateAccount_accountOf {x d : ℤ} (hx : canonicalNonzero (some x) secp256k1Fr = true)
    (hd : canonicalNonzero (some d) secp256k1Fr = true) :
    validateAccount lib (accountOf lib x d) = .ok () := by
  have hx0 := cast_ne_zero_of_canonicalNonzero hx
  have hd0 := cast_ne_zero_of_canonicalNonzero hd
  refine (validateAccount_eq_ok lib).2
    ⟨(goodSecp_exp lib).2 hd0, (goodSecp_exp lib).2 (mul_ne_zero hx0 hd0), ?_⟩
  rintro e he
  obtain rfl : d = e := by simpa [accountOf] using he
  exact ⟨hd, rfl⟩

theorem newAccount_eq_ok {x d : ℤ} {a : Account} :
    newAccount lib x d = .ok a ↔
      canonicalNonzero (some x) secp256k1Fr = true ∧
        canonicalNonzero (some d) secp256k1Fr = true ∧ a = accountOf lib x d := by
  simp only [newAccount, bind_eq_ok, rejectIf_eq_ok, pure_eq_ok, not_or, Bool.not_eq_false,
    lib.secp.multiple_eq_exp, lib.secp.scalarMultiplication_exp]
  constructor
  · rintro ⟨_, ⟨hx, hd⟩, _, _, rfl⟩
    exact ⟨hx, hd, rfl⟩
  · rintro ⟨hx, hd, rfl⟩
    exact ⟨(), ⟨hx, hd⟩, (), validateAccount_accountOf lib hx hd, rfl⟩

/-- The integer a member handle is reduced from. -/
def memberHash (a : Account) : ℕ := (sha256 (memberInput a)).value

theorem member_eq_ok {a : Account} {m : ℤ} :
    member lib a = .ok m ↔
      validateAccount lib a = .ok () ∧ m ≠ 0 ∧ m = (memberHash a : ℤ) % bn254Fr := by
  simp only [member, bind_eq_ok, hashScalar_eq_ok, memberHash]
  constructor
  · rintro ⟨_, hvalid, _, hm⟩
    exact ⟨hvalid, hm⟩
  · rintro ⟨hvalid, hm⟩
    exact ⟨(), hvalid, by decide, hm⟩

/-- The handle only depends on the two points. -/
theorem memberHash_congr {a b : Account} (hu : a.u = b.u) (hy : a.y = b.y) :
    memberHash a = memberHash b := by
  rw [memberHash, memberInput, hu, hy]
  rfl

/-- The loop of `membersOf` succeeds when every account has a handle and the handles are new. -/
theorem collectMembers_eq_ok :
    ∀ (accounts : List Account) (i : ℕ) (seen ms : List ℤ),
      collectMembers lib i seen accounts = .ok ms ↔
        List.Forall₂ (fun a m => member lib a = .ok m) accounts ms ∧ ms.Nodup ∧
          ∀ m ∈ ms, m ∉ seen := by
  intro accounts
  -- on the accounts, for any handles seen before them
  induction accounts with
  | nil =>
      intro i seen ms
      simp only [collectMembers, Except.ok.injEq]
      constructor
      · rintro rfl
        simp
      · rintro ⟨h, _⟩
        cases h
        rfl
  | cons a rest ih =>
      intro i seen ms
      simp only [collectMembers, bind_eq_ok, wrapError_eq_ok, rejectIf_eq_ok, pure_eq_ok, ih]
      constructor
      · rintro ⟨m, hm, _, hnew, ms, ⟨hall, hnodup, hfresh⟩, rfl⟩
        refine ⟨.cons hm hall, List.nodup_cons.2 ⟨?_, hnodup⟩, ?_⟩
        · intro hmem
          exact hfresh m hmem (List.mem_cons_self ..)
        · intro b hb
          rcases List.mem_cons.1 hb with rfl | hb
          · exact hnew
          · exact fun hseen => hfresh b hb (List.mem_cons_of_mem _ hseen)
      · rintro ⟨hall, hnodup, hfresh⟩
        cases hall with
        | cons hm hall =>
            obtain ⟨hnotin, hnodup⟩ := List.nodup_cons.1 hnodup
            refine ⟨_, hm, (), hfresh _ (List.mem_cons_self ..), _, ⟨hall, hnodup, ?_⟩, rfl⟩
            intro b hb hseen
            rcases List.mem_cons.1 hseen with rfl | hseen
            · exact hnotin hb
            · exact hfresh b (List.mem_cons_of_mem _ hb) hseen

theorem membersOf_eq_ok {accounts : List Account} {ms : List ℤ} :
    membersOf lib accounts = .ok ms ↔
      accounts ≠ [] ∧ accounts.length ≤ 2 ^ 32 - 1 ∧
        List.Forall₂ (fun a m => member lib a = .ok m) accounts ms ∧ ms.Nodup := by
  simp only [membersOf, bind_eq_ok, rejectIf_eq_ok, collectMembers_eq_ok, not_or,
    List.length_eq_zero_iff, not_lt, gt_iff_lt]
  constructor
  · rintro ⟨_, ⟨hne, hlen⟩, hall, hnodup, _⟩
    exact ⟨hne, hlen, hall, hnodup⟩
  · rintro ⟨hne, hlen, hall, hnodup⟩
    exact ⟨(), ⟨hne, hlen⟩, hall, hnodup, by simp⟩

/-- The handle at an index is that of the account at the index. -/
theorem membersOf_getElem? {accounts : List Account} {ms : List ℤ}
    (h : membersOf lib accounts = .ok ms) {i : ℕ} {a : Account} (ha : accounts[i]? = some a) :
    ∃ m, ms[i]? = some m ∧ member lib a = .ok m := by
  obtain ⟨_, _, hall, _⟩ := (membersOf_eq_ok lib).1 h
  obtain ⟨hi, rfl⟩ := List.getElem?_eq_some_iff.1 ha
  have hi' : i < ms.length := hall.length_eq ▸ hi
  exact ⟨ms[i], List.getElem?_eq_getElem hi', (List.forall₂_iff_get.1 hall).2 i hi hi'⟩

theorem ringDigest_eq_ok {accounts : List Account} {rd : FixedBytes 32} :
    ringDigest lib accounts = .ok rd ↔
      (∃ ms, membersOf lib accounts = .ok ms) ∧ rd = sha256 (ringInput accounts) := by
  simp only [ringDigest, bind_eq_ok, pure_eq_ok]
  constructor
  · rintro ⟨ms, hms, rfl⟩
    exact ⟨⟨ms, hms⟩, rfl⟩
  · rintro ⟨⟨ms, hms⟩, rfl⟩
    exact ⟨ms, hms, rfl⟩

/-! ## The accumulator of a ring -/

/-- Valid parameters, a nonempty ring and its accumulator value. -/
theorem accumulate_eq_ok {p : Params} {accounts : List Account} (hne : accounts ≠ [])
    {v : Bn254G1} :
    accumulate lib p accounts = .ok v ↔
      validateParams lib p = .ok () ∧
        ∃ ms, membersOf lib accounts = .ok ms ∧ combinePowers lib p ms = .ok v := by
  have hlen : ¬ accounts.length = 0 := by simpa using hne
  simp only [accumulate, bind_eq_ok, hlen, if_false]
  constructor
  · rintro ⟨_, hvalid, ms, hms, hv⟩
    exact ⟨hvalid, ms, hms, hv⟩
  · rintro ⟨hvalid, ms, hms, hv⟩
    exact ⟨(), hvalid, ms, hms, hv⟩

/-- The accumulator of a nonempty ring over a reference string: the handles are distinct,
fit the powers, and none of them is the negated trapdoor. -/
theorem accumulate_srs {τ : ZMod bn254Fr} {n : ℕ} (hvalid : validateParams lib (srs lib τ n) = .ok ())
    {accounts : List Account} (hne : accounts ≠ []) {v : Bn254G1} :
    accumulate lib (srs lib τ n) accounts = .ok v ↔
      ∃ ms, membersOf lib accounts = .ok ms ∧ ms.length < n ∧ linearProduct τ ms ≠ 0 ∧
        v = lib.bn.exp (linearProduct τ ms) := by
  rw [accumulate_eq_ok lib hne]
  simp only [hvalid, true_and, combinePowers_srs]

/-- The membership witness leaves one factor out. -/
theorem membershipWitness_srs {τ : ZMod bn254Fr} {n : ℕ}
    (hvalid : validateParams lib (srs lib τ n) = .ok ()) {accounts : List Account} {i : ℤ}
    {w : Bn254G1} :
    membershipWitness lib (srs lib τ n) accounts i = .ok w ↔
      (0 ≤ i ∧ i < accounts.length) ∧ ∃ ms, membersOf lib accounts = .ok ms ∧ ms.length < n ∧
        linearProduct τ (ms.take i.toNat ++ ms.drop (i.toNat + 1)) ≠ 0 ∧
        w = lib.bn.exp (linearProduct τ (ms.take i.toNat ++ ms.drop (i.toNat + 1))) := by
  simp only [membershipWitness, bind_eq_ok, rejectIf_eq_ok, combinePowers_srs, hvalid,
    length_powers_srs, not_or, not_lt, not_le, ge_iff_le]
  constructor
  · rintro ⟨_, _, _, hi, ms, hms, _, hlen, _, hprod, hw⟩
    exact ⟨hi, ms, hms, hlen, hprod, hw⟩
  · rintro ⟨hi, ms, hms, hlen, hprod, hw⟩
    refine ⟨(), trivial, (), hi, ms, hms, (), hlen, ?_, hprod, hw⟩
    rw [List.length_append, List.length_take, List.length_drop]
    omega

/-- When a ring has an accumulator, every index has a witness, and the accumulator is the
witness raised to `tau` plus the handle. -/
theorem membershipWitness_of_accumulate {p : Params} {accounts : List Account} {v : Bn254G1}
    (hv : accumulate lib p accounts = .ok v) {i : ℕ} {a : Account} (ha : accounts[i]? = some a) :
    ∃ (τ : ZMod bn254Fr) (n : ℕ) (m : ℤ) (w : ZMod bn254Fr), p = srs lib τ n ∧
      member lib a = .ok m ∧ membershipWitness lib p accounts i = .ok (lib.bn.exp w) ∧ w ≠ 0 ∧
      (τ + m) * w ≠ 0 ∧ v = lib.bn.exp ((τ + m) * w) := by
  have hi : i < accounts.length := (List.getElem?_eq_some_iff.1 ha).1
  have hne : accounts ≠ [] := by
    rintro rfl
    simp at ha
  obtain ⟨hvalid, -⟩ := (accumulate_eq_ok lib hne).1 hv
  obtain ⟨τ, n, _, _, _, rfl⟩ := (validateParams_eq_ok lib).1 hvalid
  obtain ⟨ms, hms, hlen, hprod, rfl⟩ := (accumulate_srs lib hvalid hne).1 hv
  obtain ⟨m, hm, hmember⟩ := membersOf_getElem? lib hms ha
  have hsplit := linearProduct_eraseIdx τ hm
  rw [hsplit] at hprod
  refine ⟨τ, n, m, _, rfl, hmember, (membershipWitness_srs lib hvalid).2 ?_,
    right_ne_zero_of_mul hprod, hprod, by rw [hsplit]⟩
  exact ⟨⟨by omega, by omega⟩, ms, hms, hlen, right_ne_zero_of_mul hprod, rfl⟩

/-! ## Rings that differ by order or by missing accounts -/

/-- The handle of an account that has one. -/
def handle (a : Account) : ℤ := (memberHash a : ℤ) % bn254Fr

theorem member_eq_handle {a : Account} {m : ℤ} (h : member lib a = .ok m) : m = handle a :=
  ((member_eq_ok lib).1 h).2.2

/-- Leaving the exponent out keeps the account valid and its handle. -/
theorem member_without_d {a : Account} (h : member lib a = .ok (handle a)) :
    member lib { a with d := none } = .ok (handle { a with d := none }) := by
  obtain ⟨hvalid, hne, _⟩ := (member_eq_ok lib).1 h
  obtain ⟨hu, hy, _⟩ := (validateAccount_eq_ok lib).1 hvalid
  exact (member_eq_ok lib).2 ⟨(validateAccount_eq_ok lib).2 ⟨hu, hy, nofun⟩, hne, rfl⟩

theorem membersOf_eq_map {accounts : List Account} {ms : List ℤ} :
    membersOf lib accounts = .ok ms ↔
      accounts ≠ [] ∧ accounts.length ≤ 2 ^ 32 - 1 ∧
        (∀ a ∈ accounts, member lib a = .ok (handle a)) ∧ ms = accounts.map handle ∧ ms.Nodup := by
  rw [membersOf_eq_ok]
  constructor
  · rintro ⟨hne, hlen, hall, hnodup⟩
    have hmap : ms = accounts.map handle ∧ ∀ a ∈ accounts, member lib a = .ok (handle a) := by
      clear hne hlen hnodup
      induction hall with
      | nil => simp
      | cons ha _ ih =>
          have hm := member_eq_handle lib ha
          refine ⟨by rw [List.map_cons, ← ih.1, hm], ?_⟩
          exact List.forall_mem_cons.2 ⟨hm ▸ ha, ih.2⟩
    exact ⟨hne, hlen, hmap.2, hmap.1, hnodup⟩
  · rintro ⟨hne, hlen, hall, rfl, hnodup⟩
    refine ⟨hne, hlen, ?_, hnodup⟩
    rw [List.forall₂_map_right_iff]
    exact List.forall₂_same.2 hall

/-- When a ring has an accumulator, and which one; the empty ring is no exception. -/
theorem accumulate_eq_product {τ : ZMod bn254Fr} {n : ℕ}
    (hvalid : validateParams lib (srs lib τ n) = .ok ()) {accounts : List Account} {v : Bn254G1} :
    accumulate lib (srs lib τ n) accounts = .ok v ↔
      accounts.length < n ∧ (∀ a ∈ accounts, member lib a = .ok (handle a)) ∧
        (accounts.map handle).Nodup ∧ linearProduct τ (accounts.map handle) ≠ 0 ∧
        v = lib.bn.exp (linearProduct τ (accounts.map handle)) := by
  obtain ⟨_, _, _, hmin, hmax, heq⟩ := (validateParams_eq_ok lib).1 hvalid
  have hn := congrArg (fun p : Params => p.powers.length) heq
  simp only [length_powers_srs] at hn
  by_cases hne : accounts = []
  · subst hne
    have hpos : 0 < n := by omega
    have hg : (srs lib τ n).g = lib.bn.exp 1 := lib.bn.generator_eq_exp
    simp [accumulate, hvalid, hg, hpos, eq_comm]
  · rw [accumulate_srs lib hvalid hne]
    constructor
    · rintro ⟨ms, hms, hlen, hprod, rfl⟩
      obtain ⟨_, _, hall, rfl, hnodup⟩ := (membersOf_eq_map lib).1 hms
      rw [List.length_map] at hlen
      exact ⟨hlen, hall, hnodup, hprod, rfl⟩
    · rintro ⟨hlen, hall, hnodup, hprod, rfl⟩
      refine ⟨accounts.map handle, ?_, by rwa [List.length_map], hprod, rfl⟩
      exact (membersOf_eq_map lib).2 ⟨hne, by omega, hall, rfl, hnodup⟩

theorem validateParams_of_accumulate {p : Params} {accounts : List Account} {v : Bn254G1}
    (h : accumulate lib p accounts = .ok v) : validateParams lib p = .ok () := by
  simp only [accumulate, bind_eq_ok] at h
  exact h.choose_spec.1

/-- Accounts taken from a ring that has an accumulator, in any order, have one. -/
theorem accumulate_subperm {p : Params} {accounts accounts' : List Account} {v : Bn254G1}
    (h : accumulate lib p accounts = .ok v) (hsub : accounts'.Subperm accounts) :
    ∃ v', accumulate lib p accounts' = .ok v' := by
  have hvalid := validateParams_of_accumulate lib h
  obtain ⟨τ, n, _, _, _, rfl⟩ := (validateParams_eq_ok lib).1 hvalid
  obtain ⟨hlen, hall, hnodup, hprod, _⟩ := (accumulate_eq_product lib hvalid).1 h
  obtain ⟨kept, hperm, hkept⟩ := hsub
  have hmap : (kept.map handle).Sublist (accounts.map handle) := hkept.map handle
  refine ⟨_, (accumulate_eq_product lib hvalid).2 ⟨?_, ?_, ?_, ?_, rfl⟩⟩
  · rw [← hperm.length_eq]
    exact hkept.length_le.trans_lt hlen
  · intro a ha
    exact hall a (hkept.subset (hperm.mem_iff.2 ha))
  · exact ((hperm.map handle).nodup_iff).1 (hnodup.sublist hmap)
  · -- the product is over a part of the factors
    apply linearProduct_ne_zero_of_subset _ hprod
    intro m hm
    exact hmap.subset ((hperm.map handle).mem_iff.2 hm)

/-- The number of accounts the parameters have room for. -/
def Params.capacity (p : Params) : ℕ := p.powers.length - 1

/-- The handles of a ring that has an accumulator are distinct, and the ring fits. -/
theorem accumulate_members {p : Params} {accounts : List Account} {v : Bn254G1}
    (h : accumulate lib p accounts = .ok v) :
    (∀ a ∈ accounts, member lib a = .ok (handle a)) ∧ (accounts.map handle).Nodup ∧
      accounts.length ≤ p.capacity := by
  have hvalid := validateParams_of_accumulate lib h
  obtain ⟨τ, n, _, _, _, rfl⟩ := (validateParams_eq_ok lib).1 hvalid
  obtain ⟨hlen, hall, hnodup, _, _⟩ := (accumulate_eq_product lib hvalid).1 h
  refine ⟨hall, hnodup, ?_⟩
  rw [Params.capacity, length_powers_srs]
  omega

theorem newSnapshot_eq_ok {p : Params} {accounts : List Account} {snap : Snapshot} :
    newSnapshot lib p accounts = .ok snap ↔
      ∃ v, accumulate lib p accounts = .ok v ∧ snap = ⟨p, accounts, v⟩ := by
  simp only [newSnapshot, bind_eq_ok, pure_eq_ok]
  constructor
  · rintro ⟨v, hv, rfl⟩
    exact ⟨v, hv, rfl⟩
  · rintro ⟨v, hv, rfl⟩
    exact ⟨v, hv, rfl⟩

theorem newSnapshot_subperm {p : Params} {accounts accounts' : List Account} {snap : Snapshot}
    (h : newSnapshot lib p accounts = .ok snap) (hsub : accounts'.Subperm accounts) :
    ∃ snap', newSnapshot lib p accounts' = .ok snap' := by
  obtain ⟨v, hv, _⟩ := (newSnapshot_eq_ok lib).1 h
  obtain ⟨v', hv'⟩ := accumulate_subperm lib hv hsub
  exact ⟨_, (newSnapshot_eq_ok lib).2 ⟨v', hv', rfl⟩⟩

end Lktrs.NativeProof
