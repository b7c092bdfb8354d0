import Lktrs.NativeProof.Snapshots

/-!
# Powers of a trapdoor

`ValidateParams` compares neighbouring powers through the pairing only, and that
is enough: the parameters it accepts are exactly the powers of one trapdoor
(`validation_exact`), so what `Setup` returns and every prefix of valid
parameters pass.

The second half is the reduction behind membership proofs. A verified witness of
a handle outside the ring, together with the public powers, gives the inverse
exponent `[1 / (tau + b)]G`: divide the member polynomial by `Z + b`, combine the
powers with the quotient, and take the difference over the remainder
(`nonmember_witness_inverse`).
-/

set_option autoImplicit false

namespace Lktrs.NativeProof

open Lktrs.Foundation
open Polynomial (X C)

variable (lib : GnarkCrypto)

/-! ## Validation -/

/-- The parameters hold the powers of the integer `tau`. -/
structure Params.PowersOf (p : Params) (tau : ℤ) : Prop where
  range : 0 < tau ∧ tau < bn254Fr
  hTau : p.hTau = lib.bn2.scalarMultiplication p.h tau
  powers : ∀ i < p.powers.length, p.powers[i]? = some (lib.bn.scalarMultiplication p.g (tau ^ i))

/-- The canonical integer of a nonzero residue. -/
theorem exists_canonical {n : ℕ} [NeZero n] {τ : ZMod n} (hτ : τ ≠ 0) :
    ∃ tau : ℤ, (0 < tau ∧ tau < n) ∧ (tau : ZMod n) = τ := by
  refine ⟨τ.val, ⟨?_, ?_⟩, by simp⟩
  · have hval : τ.val ≠ 0 := (ZMod.val_ne_zero τ).2 hτ
    omega
  · exact_mod_cast ZMod.val_lt τ

theorem srs_powersOf {tau : ℤ} (hrange : 0 < tau ∧ tau < bn254Fr) (n : ℕ) :
    (srs lib (tau : ZMod bn254Fr) n).PowersOf lib tau := by
  refine ⟨hrange, ?_, ?_⟩
  · exact (lib.bn2.multiple_eq_exp tau).symm
  · intro i hi
    rw [length_powers_srs] at hi
    have hpower := lib.bn.multiple_eq_exp (tau ^ i)
    rw [Int.cast_pow] at hpower
    rw [getElem?_powers_srs lib hi, ← hpower]
    rfl

theorem eq_srs_of_powersOf {p : Params} {tau : ℤ} (hg : p.g = lib.bn.generator)
    (hh : p.h = lib.bn2.generator) (h : p.PowersOf lib tau) :
    p = srs lib (tau : ZMod bn254Fr) p.powers.length := by
  obtain ⟨_, hTau, hpowers⟩ := h
  rw [hh, lib.bn2.multiple_eq_exp] at hTau
  have hlist : p.powers = (srs lib (tau : ZMod bn254Fr) p.powers.length).powers := by
    apply List.ext_getElem?
    intro i
    by_cases hi : i < p.powers.length
    · rw [hpowers i hi, hg, lib.bn.multiple_eq_exp, Int.cast_pow, getElem?_powers_srs lib hi]
    · rw [List.getElem?_eq_none (by omega), List.getElem?_eq_none (by simpa using hi)]
  obtain ⟨g, h, hTau', powers⟩ := p
  rw [Params.mk.injEq]
  exact ⟨hg, hh, hTau, hlist⟩

theorem validateParams_iff_powersOf {p : Params} :
    validateParams lib p = .ok () ↔
      (2 ≤ p.powers.length ∧ p.powers.length ≤ 65537) ∧ p.g = lib.bn.generator ∧
        p.h = lib.bn2.generator ∧ ∃ tau, p.PowersOf lib tau := by
  rw [validateParams_eq_ok]
  constructor
  · rintro ⟨τ, n, hτ, hmin, hmax, rfl⟩
    obtain ⟨tau, hrange, rfl⟩ := exists_canonical hτ
    rw [length_powers_srs]
    exact ⟨⟨hmin, hmax⟩, rfl, rfl, tau, srs_powersOf lib hrange n⟩
  · rintro ⟨⟨hmin, hmax⟩, hg, hh, tau, hpowers⟩
    exact ⟨tau, p.powers.length, intCast_ne_zero_of_canonical hpowers.range.1 hpowers.range.2, hmin,
      hmax, eq_srs_of_powersOf lib hg hh hpowers⟩

/-- A prefix of valid parameters that still has two powers is valid. -/
theorem validateParams_take {p : Params} (h : validateParams lib p = .ok ()) {n : ℕ} (hmin : 2 ≤ n) :
    validateParams lib { p with powers := p.powers.take n } = .ok () := by
  rw [validateParams_iff_powersOf] at h ⊢
  obtain ⟨⟨hlow, hhigh⟩, hg, hh, tau, hrange, hTau, hpowers⟩ := h
  refine ⟨?_, hg, hh, tau, hrange, hTau, ?_⟩
  · simp only [List.length_take]
    omega
  · intro i hi
    simp only [List.length_take, lt_min_iff] at hi
    rw [List.getElem?_take_of_lt hi.1]
    exact hpowers i hi.2

/-- Validation accepts exactly the sequences of at most 65537 powers of a trapdoor below the group
order, over the standard generators. So `Setup` with an allowed capacity, whose only other failure is
its random draw, returns valid parameters, and a prefix of valid parameters with room for an account
is valid. -/
theorem validation_exact (p : Params) :
    (validateParams lib p = .ok () ↔
      (2 ≤ p.powers.length ∧ p.powers.length ≤ 65537) ∧ p.g = lib.bn.generator ∧
        p.h = lib.bn2.generator ∧ ∃ tau : ℤ, (0 < tau ∧ tau < bn254Fr) ∧
          p.hTau = lib.bn2.scalarMultiplication p.h tau ∧
          ∀ i < p.powers.length,
            p.powers[i]? = some (lib.bn.scalarMultiplication p.g (tau ^ i))) ∧
    (∀ (capacity : ℤ) (draw : ℕ), 1 ≤ capacity → capacity ≤ 65536 →
      ∃ q, setup lib capacity (.ok draw) = .ok q ∧ q.powers.length = capacity.toNat + 1 ∧
        validateParams lib q = .ok ()) ∧
    (validateParams lib p = .ok () → ∀ n, 2 ≤ n → n ≤ p.powers.length →
      validateParams lib { p with powers := p.powers.take n } = .ok ()) := by
  refine ⟨?_, ?_, fun h n hmin _ => validateParams_take lib h hmin⟩
  · rw [validateParams_iff_powersOf]
    constructor
    · rintro ⟨hlen, hg, hh, tau, hrange, hTau, hpowers⟩
      exact ⟨hlen, hg, hh, tau, hrange, hTau, hpowers⟩
    · rintro ⟨hlen, hg, hh, tau, hrange, hTau, hpowers⟩
      exact ⟨hlen, hg, hh, tau, hrange, hTau, hpowers⟩
  · intro capacity draw hmin hmax
    have hsetup := (setup_eq_ok lib).2 ⟨hmin, hmax, _, (rfl : randomNonzero bn254Fr (.ok draw) = _),
      rfl⟩
    exact ⟨_, hsetup, length_powers_srs lib _ _, validateParams_setup lib hsetup⟩

/-! ## From a nonmember witness to an inverse exponent -/

/-- The polynomial of a coefficient list. -/
noncomputable def coefficientPolynomial (cs : List ℤ) : Polynomial (ZMod bn254Fr) :=
  evalCoefficients X cs

theorem coefficientPolynomial_members (members : List ℤ) :
    coefficientPolynomial (memberPolynomial members) =
      linearProduct (X : Polynomial (ZMod bn254Fr)) members :=
  eval_memberPolynomial X members

theorem monic_linearProduct (members : List ℤ) :
    (linearProduct (X : Polynomial (ZMod bn254Fr)) members).Monic ∧
      (linearProduct (X : Polynomial (ZMod bn254Fr)) members).natDegree = members.length := by
  induction members with
  | nil => simp
  | cons m members ih =>
      have hmonic : (X + (m : Polynomial (ZMod bn254Fr))).Monic :=
        Polynomial.monic_X_add_C (m : ZMod bn254Fr)
      have hdegree : (X + (m : Polynomial (ZMod bn254Fr))).natDegree = 1 :=
        Polynomial.natDegree_X_add_C (m : ZMod bn254Fr)
      rw [linearProduct_cons]
      refine ⟨hmonic.mul ih.1, ?_⟩
      rw [hmonic.natDegree_mul ih.1, hdegree, ih.2, List.length_cons, add_comm]

/-- Dividing the coefficient list from the top is the division of polynomials. -/
theorem divideLinear_eq_div (b : ℤ) (cs : List ℤ) :
    coefficientPolynomial cs /ₘ (X + C (b : ZMod bn254Fr)) =
        coefficientPolynomial (divideLinear bn254Fr b cs).1 ∧
      coefficientPolynomial cs %ₘ (X + C (b : ZMod bn254Fr)) =
        C ((divideLinear bn254Fr b cs).2 : ZMod bn254Fr) := by
  apply Polynomial.div_modByMonic_unique _ _ (Polynomial.monic_X_add_C _)
  refine ⟨?_, ?_⟩
  · have hdivide := eval_divideLinear (n := bn254Fr) (X : Polynomial (ZMod bn254Fr)) b cs
    rw [coefficientPolynomial, coefficientPolynomial, hdivide, map_intCast, map_intCast, add_comm]
  · rw [Polynomial.degree_X_add_C]
    exact lt_of_le_of_lt Polynomial.degree_C_le (by norm_num)

/-- The remainder is the product of the differences between the handles and `b`. -/
theorem divideLinear_remainder (b : ℤ) (members : List ℤ) :
    ((divideLinear bn254Fr b (memberPolynomial members)).2 : ZMod bn254Fr) =
      (members.map fun a : ℤ => (a : ZMod bn254Fr) - b).prod := by
  have hdivide := eval_divideLinear (n := bn254Fr) (-(b : ZMod bn254Fr)) b (memberPolynomial members)
  rw [neg_add_cancel, zero_mul, zero_add, eval_memberPolynomial] at hdivide
  rw [← hdivide, linearProduct]
  congr 2
  funext a
  ring

theorem degree_quotient (b : ℤ) {members : List ℤ} (hne : members ≠ []) :
    (coefficientPolynomial (divideLinear bn254Fr b (memberPolynomial members)).1).degree =
      (members.length - 1 : ℕ) := by
  obtain ⟨hmonic, hdegree⟩ := monic_linearProduct members
  have hpos : 0 < members.length := List.length_pos_iff.2 hne
  rw [← (divideLinear_eq_div b (memberPolynomial members)).1, coefficientPolynomial_members]
  have hle : (X + C (b : ZMod bn254Fr)).degree ≤
      (linearProduct (X : Polynomial (ZMod bn254Fr)) members).degree := by
    rw [Polynomial.degree_X_add_C, Polynomial.degree_eq_natDegree hmonic.ne_zero, hdegree]
    exact_mod_cast hpos
  -- a zero quotient would have no degree to add
  have hsum := Polynomial.degree_add_divByMonic (Polynomial.monic_X_add_C (b : ZMod bn254Fr)) hle
  rw [Polynomial.degree_eq_natDegree hmonic.ne_zero] at hsum
  have hquotient : linearProduct (X : Polynomial (ZMod bn254Fr)) members /ₘ
      (X + C (b : ZMod bn254Fr)) ≠ 0 := by
    intro hzero
    rw [hzero, Polynomial.degree_zero, WithBot.add_bot] at hsum
    exact WithBot.bot_ne_coe hsum
  rw [Polynomial.degree_eq_natDegree hquotient,
    Polynomial.natDegree_divByMonic _ (Polynomial.monic_X_add_C _), hdegree,
    Polynomial.natDegree_X_add_C]

/-- What the extraction from a witness of a nonmember `b` computes: the quotient and the remainder of
the member polynomial, the quotient combined with the powers, and the difference to the witness over
the remainder. -/
structure InverseExtraction (p : Params) (τ : ZMod bn254Fr) (members : List ℤ) (b : ℤ)
    (w : Bn254G1) (q : List ℤ) (c : ℤ) (sum : Bn254G1) : Prop where
  divide : divideLinear bn254Fr b (memberPolynomial members) = (q, c)
  quotient : coefficientPolynomial (memberPolynomial members) /ₘ (X + C (b : ZMod bn254Fr)) =
    coefficientPolynomial q
  remainder : coefficientPolynomial (memberPolynomial members) %ₘ (X + C (b : ZMod bn254Fr)) =
    C (c : ZMod bn254Fr)
  degree : q.length = members.length ∧
    (coefficientPolynomial q).degree = (members.length - 1 : ℕ)
  product : (c : ZMod bn254Fr) = (members.map fun a : ℤ => (a : ZMod bn254Fr) - b).prod
  nonzero : (c : ZMod bn254Fr) ≠ 0
  combine : sumPowers lib p 0 q Affine.infinity = .ok sum
  inverse : ∃ i, modInverse c bn254Fr = some i ∧
    lib.bn.scalarMultiplication (lib.bn.sub w sum) i =
      lib.bn.scalarMultiplication lib.bn.generator ((τ + (b : ZMod bn254Fr))⁻¹.cast : ℤ)

/-- Under valid parameters of trapdoor `tau`, a verified witness for a `b` that is no handle of the
accumulated ring gives `[1 / (tau + b)]G` from public values. -/
theorem nonmember_witness_inverse (p : Params) (τ : ZMod bn254Fr)
    (hvalid : validateParams lib p = .ok ()) (hτ : p.hTau = lib.bn2.exp τ) (members : List ℤ)
    (hne : members ≠ []) (v w : Bn254G1) (hv : combinePowers lib p members = .ok v) (b : ℤ)
    (hb : ∀ a ∈ members, (a : ZMod bn254Fr) ≠ (b : ZMod bn254Fr))
    (hw : verifyMembership lib p v w b = true) :
    ∃ q c sum, InverseExtraction lib p τ members b w q c sum := by
  obtain ⟨hp, _, _, _⟩ := eq_srs_of_valid lib hvalid hτ
  obtain ⟨_, _, _, hτb, hwv⟩ := (verifyMembership_iff lib hvalid hτ).1 hw
  rw [hp] at hv
  obtain ⟨hlen, _, rfl⟩ := (combinePowers_srs lib).1 hv
  set q := (divideLinear bn254Fr b (memberPolynomial members)).1 with hq
  set c := (divideLinear bn254Fr b (memberPolynomial members)).2 with hc
  have hlength : q.length = members.length := by
    rw [hq, length_divideLinear, length_memberPolynomial, Nat.add_sub_cancel]
  have hproduct := divideLinear_remainder b members
  have hnonzero : (c : ZMod bn254Fr) ≠ 0 := by
    rw [hproduct, ne_eq, List.prod_eq_zero_iff, List.mem_map]
    rintro ⟨a, ha, hzero⟩
    exact hb a ha (sub_eq_zero.1 hzero)
  have hsum : sumPowers lib p 0 q Affine.infinity = .ok (lib.bn.exp (evalCoefficients τ q)) := by
    have h := sumPowers_srs lib τ p.powers.length q 0 0 (by omega)
    rw [pow_zero, one_mul, zero_add, ← hp, ← lib.bn.infinity_eq_exp] at h
    exact h
  obtain ⟨i, hi, _, hicast⟩ := modInverse_prime hnonzero
  refine ⟨q, c, _, rfl, (divideLinear_eq_div b _).1, (divideLinear_eq_div b _).2,
    ⟨hlength, degree_quotient b hne⟩, hproduct, hnonzero, hsum, i, hi, ?_⟩
  -- in the exponent: (F(tau) / (tau + b) - Q(tau)) / c with F(tau) = (tau + b) Q(tau) + c
  have hdivide := eval_divideLinear (n := bn254Fr) τ b (memberPolynomial members)
  rw [eval_memberPolynomial, ← hq, ← hc] at hdivide
  rw [hwv, lib.bn.multiple_eq_exp]
  simp only [lib.bn.scalarMultiplication_exp, lib.bn.sub_exp, lib.bn.exp_inj, ZMod.intCast_cast,
    ZMod.cast_id', id_eq]
  rw [hicast, hdivide]
  field_simp
  ring

/-- The parameters of trapdoor 5 accumulate the handle 2 to `[7]G`, and `[7 / 8]G` passes as a witness
of the nonmember 3. -/
theorem nonmember_witness_inverse_sample :
    ∃ w q c sum, verifyMembership exponentLib sampleParams (exponentLib.bn.exp 7) w 3 = true ∧
      InverseExtraction exponentLib sampleParams 5 [2] 3 w q c sum := by
  obtain ⟨hp, _⟩ := eq_srs_of_valid exponentLib sampleParams_valid sampleParams_hTau
  have hseven : (7 : ZMod bn254Fr) ≠ 0 := by decide
  have height : (5 : ZMod bn254Fr) + ((3 : ℤ) : ZMod bn254Fr) ≠ 0 := by decide
  have hproduct : linearProduct (5 : ZMod bn254Fr) [2] = 7 := by
    rw [linearProduct_cons, linearProduct_nil]
    norm_num
  have hv : combinePowers exponentLib sampleParams [2] = .ok (exponentLib.bn.exp 7) := by
    rw [hp, combinePowers_srs, hproduct]
    exact ⟨by decide, hseven, rfl⟩
  have hw := (verifyMembership_iff exponentLib sampleParams_valid sampleParams_hTau
    (b := 3)).2 ⟨by decide, (goodBN_exp exponentLib).2 hseven, ?_, height, rfl⟩
  · obtain ⟨q, c, sum, hextract⟩ := nonmember_witness_inverse exponentLib sampleParams 5
      sampleParams_valid sampleParams_hTau [2] (by simp) _ _ hv 3 (by simp; decide) hw
    exact ⟨_, q, c, sum, hw, hextract⟩
  · rw [exponentLib.bn.scalarMultiplication_exp, goodBN_exp, ZMod.intCast_cast, ZMod.cast_id', id_eq]
    exact mul_ne_zero (inv_ne_zero height) hseven

end Lktrs.NativeProof
