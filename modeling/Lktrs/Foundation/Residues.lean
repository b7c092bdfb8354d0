import Mathlib.Data.ZMod.Basic
import Mathlib.Data.Int.GCD
import Mathlib.Algebra.Polynomial.Div
import Mathlib.Algebra.CharP.Algebra
import Mathlib.FieldTheory.Finite.Basic
import Mathlib.Tactic

/-!
# Integers as representatives of residues

Arbitrary-precision code keeps a residue as its canonical integer and reduces
after every operation. The lemmas here read such integers in `ZMod n`: a
canonical nonzero integer is a nonzero residue, a modular inverse is the field
inverse, and a coefficient list multiplied by linear factors evaluates to the
product of those factors. Evaluated at `X`, a coefficient list is a polynomial,
and dividing it by `X + b` from the top is the division of polynomials.
-/

set_option autoImplicit false

namespace Lktrs.Foundation

/-- The inverse of `a` modulo `n` in `[0, n)`, absent when there is none. -/
def modInverse (a : ℤ) (n : ℕ) : Option ℤ :=
  if Int.gcd a n = 1 then some (Int.gcdA a n % n) else none

@[simp] theorem intCast_emod {n : ℕ} (a : ℤ) : ((a % (n : ℤ) : ℤ) : ZMod n) = (a : ZMod n) := by
  rw [ZMod.intCast_mod]

theorem intCast_emod_of_charP {R : Type*} [Ring R] {n : ℕ} [CharP R n] (a : ℤ) :
    ((a % (n : ℤ) : ℤ) : R) = (a : R) :=
  (CharP.intCast_eq_intCast R n).2 (Int.mod_modEq a n)

theorem emod_eq_zero_iff {n : ℕ} (a : ℤ) : a % (n : ℤ) = 0 ↔ (a : ZMod n) = 0 := by
  rw [ZMod.intCast_zmod_eq_zero_iff_dvd, Int.dvd_iff_emod_eq_zero]

theorem intCast_ne_zero_of_canonical {n : ℕ} {a : ℤ} (hpos : 0 < a) (hlt : a < n) :
    (a : ZMod n) ≠ 0 := by
  rw [ne_eq, ← emod_eq_zero_iff, Int.emod_eq_of_lt hpos.le hlt]
  exact hpos.ne'

/-- Canonical integers of equal residues are equal. -/
theorem eq_of_intCast_eq {n : ℕ} {a b : ℤ} (ha : 0 ≤ a) (ha' : a < n) (hb : 0 ≤ b) (hb' : b < n)
    (h : (a : ZMod n) = (b : ZMod n)) : a = b := by
  rw [ZMod.intCast_eq_intCast_iff'] at h
  rwa [Int.emod_eq_of_lt ha ha', Int.emod_eq_of_lt hb hb'] at h

/-- Modulo a prime every nonzero residue has its field inverse as modular inverse. -/
theorem modInverse_prime {n : ℕ} [Fact n.Prime] {a : ℤ} (ha : (a : ZMod n) ≠ 0) :
    ∃ b, modInverse a n = some b ∧ 0 ≤ b ∧ (b : ZMod n) = (a : ZMod n)⁻¹ := by
  have hprime : Nat.Prime n := Fact.out
  have hgcd : Int.gcd a n = 1 := by
    rw [Int.gcd_comm]
    refine (Nat.coprime_or_dvd_of_prime hprime a.natAbs).resolve_right ?_
    intro hdvd
    exact ha ((ZMod.intCast_zmod_eq_zero_iff_dvd a n).2 (Int.natCast_dvd.2 hdvd))
  refine ⟨_, if_pos hgcd, Int.emod_nonneg _ (by exact_mod_cast hprime.pos.ne'), ?_⟩
  have hbezout : (1 : ℤ) = a * Int.gcdA a n + n * Int.gcdB a n := by
    rw [← Int.gcd_eq_gcd_ab, hgcd]
    rfl
  have hone : (1 : ZMod n) = (a : ZMod n) * (Int.gcdA a n : ZMod n) := by
    have := congrArg (Int.cast : ℤ → ZMod n) hbezout
    simpa using this
  rw [intCast_emod]
  exact (eq_inv_of_mul_eq_one_right hone.symm)

/-! ## Coefficient lists -/

section Coefficients

variable {R : Type*} [CommRing R]

/-- The value at `z` of the polynomial with these coefficients, in ascending degree. -/
def evalCoefficients (z : R) : List ℤ → R
  | [] => 0
  | c :: cs => c + z * evalCoefficients z cs

/-- The value at `z` of the product of `Z + a` over a list. -/
def linearProduct (z : R) (as : List ℤ) : R := (as.map fun a : ℤ => z + (a : R)).prod

@[simp] theorem linearProduct_nil (z : R) : linearProduct z [] = 1 := rfl

@[simp] theorem linearProduct_cons (z : R) (a : ℤ) (as : List ℤ) :
    linearProduct z (a :: as) = (z + a) * linearProduct z as := by
  simp [linearProduct]

@[simp] theorem linearProduct_append (z : R) (as bs : List ℤ) :
    linearProduct z (as ++ bs) = linearProduct z as * linearProduct z bs := by
  simp [linearProduct]

/-- The product does not depend on the order of the factors. -/
theorem linearProduct_perm (z : R) {as bs : List ℤ} (h : as.Perm bs) :
    linearProduct z as = linearProduct z bs :=
  (h.map _).prod_eq

/-- Taking one factor out at an index. -/
theorem linearProduct_eraseIdx (z : R) {as : List ℤ} {i : ℕ} {a : ℤ} (h : as[i]? = some a) :
    linearProduct z as = (z + a) * linearProduct z (as.take i ++ as.drop (i + 1)) := by
  obtain ⟨hi, rfl⟩ := List.getElem?_eq_some_iff.1 h
  conv_lhs => rw [← List.take_append_drop i as, List.drop_eq_getElem_cons hi]
  simp only [linearProduct_append, linearProduct_cons]
  ring

/-- Without zero divisors a sublist of the factors has a nonzero product when all have. -/
theorem linearProduct_ne_zero_of_subset [IsDomain R] {z : R} {as bs : List ℤ} (hsub : bs ⊆ as)
    (h : linearProduct z as ≠ 0) : linearProduct z bs ≠ 0 := by
  simp only [linearProduct, ne_eq, List.prod_eq_zero_iff, List.mem_map, not_exists, not_and] at h ⊢
  intro b hb
  exact h b (hsub hb)

/-- Divide by `Z + b` from the top coefficient down, reducing modulo `n`: the coefficients of the
quotient in ascending degree, and the remainder. -/
def divideLinear (n : ℕ) (b : ℤ) : List ℤ → List ℤ × ℤ
  | [] => ([], 0)
  | [c] => ([], c)
  | c :: cs =>
      let (q, top) := divideLinear n b cs
      (top :: q, (c - b * top) % n)

theorem length_divideLinear (n : ℕ) (b : ℤ) (cs : List ℤ) :
    (divideLinear n b cs).1.length = cs.length - 1 := by
  fun_induction divideLinear n b cs with
  | case1 => rfl
  | case2 => rfl
  | case3 c cs hne q top hdiv ih =>
      rw [hdiv] at ih
      have hpos : cs.length ≠ 0 := by simpa using hne
      simp only [List.length_cons] at ih ⊢
      omega

/-- Quotient and remainder put together give the polynomial back. -/
theorem eval_divideLinear {n : ℕ} [CharP R n] (z : R) (b : ℤ) (cs : List ℤ) :
    evalCoefficients z cs =
      (z + b) * evalCoefficients z (divideLinear n b cs).1 + (divideLinear n b cs).2 := by
  fun_induction divideLinear n b cs with
  | case1 => simp [evalCoefficients]
  | case2 c => simp [evalCoefficients]
  | case3 c cs _ q top hdiv ih =>
      rw [hdiv] at ih
      rw [evalCoefficients, ih, evalCoefficients, intCast_emod_of_charP]
      push_cast
      ring

end Coefficients

end Lktrs.Foundation
