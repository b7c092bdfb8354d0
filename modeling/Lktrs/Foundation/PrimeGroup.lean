import Mathlib.GroupTheory.SpecificGroups.Cyclic
import Mathlib.Data.ZMod.Basic
import Mathlib.Algebra.Field.ZMod
import Mathlib.Tactic

/-!
# Groups of prime order and their pairings

A group of prime order `r` is cyclic and its elements have residues modulo `r` as
exponents. `residuePow` is exponentiation by a residue; for a base other than the
identity it is a bijection (`residuePow_inj`, `exists_residuePow`). A
`BilinearPairing` between two such groups multiplies exponents (`pair_residuePow`)
and is not trivial on any two elements other than the identities (`pair_ne_one`).
`rootProduct` is the product over a list of shifts, with the coefficients that a
polynomial evaluator needs (`evalPowers`).
-/

set_option autoImplicit false

namespace Lktrs.Foundation

universe u v w

/-- A group with `r` elements. -/
class OrderEq (r : ℕ) (G : Type u) [Group G] : Prop where
  card_eq : Nat.card G = r

section Powers

variable {r : ℕ} {G : Type u} [CommGroup G]

/-- A power with a residue as its exponent. -/
def residuePow (g : G) (a : ZMod r) : G := g ^ a.val

@[simp] theorem one_residuePow (a : ZMod r) : residuePow (1 : G) a = 1 := one_pow _

theorem mul_residuePow (g h : G) (a : ZMod r) :
    residuePow (g * h) a = residuePow g a * residuePow h a :=
  mul_pow g h a.val

@[simp] theorem residuePow_zero [NeZero r] (g : G) : residuePow g (0 : ZMod r) = 1 := by
  simp [residuePow]

variable [OrderEq r G]

theorem pow_mod_order (g : G) (n : ℕ) : g ^ (n % r) = g ^ n := by
  rw [← OrderEq.card_eq (r := r) (G := G), pow_mod_natCard]

/-- A natural exponent counts modulo the order. -/
theorem residuePow_natCast (g : G) (n : ℕ) : residuePow g (n : ZMod r) = g ^ n := by
  rw [residuePow, ZMod.val_natCast, pow_mod_order]

@[simp] theorem residuePow_one (g : G) : residuePow g (1 : ZMod r) = g := by
  have h := residuePow_natCast (r := r) g 1
  simpa using h

theorem residuePow_add [NeZero r] (g : G) (a b : ZMod r) :
    residuePow g (a + b) = residuePow g a * residuePow g b := by
  rw [residuePow, ZMod.val_add, pow_mod_order, pow_add]
  rfl

theorem residuePow_mul (g : G) (a b : ZMod r) :
    residuePow g (a * b) = residuePow (residuePow g a) b := by
  rw [residuePow, ZMod.val_mul, pow_mod_order, pow_mul]
  rfl

variable [Fact r.Prime]

theorem orderOf_eq {g : G} (hg : g ≠ 1) : orderOf g = r := by
  apply orderOf_eq_prime _ hg
  rw [← OrderEq.card_eq (r := r) (G := G)]
  exact pow_card_eq_one'

/-- Exponents of a base other than the identity are unique. -/
theorem residuePow_inj {g : G} (hg : g ≠ 1) {a b : ZMod r} :
    residuePow g a = residuePow g b ↔ a = b := by
  rw [residuePow, residuePow, pow_eq_pow_iff_modEq, orderOf_eq (r := r) hg,
    ← ZMod.natCast_eq_natCast_iff, ZMod.natCast_zmod_val, ZMod.natCast_zmod_val]

theorem residuePow_eq_one {g : G} (hg : g ≠ 1) {a : ZMod r} : residuePow g a = 1 ↔ a = 0 := by
  rw [← residuePow_zero (r := r) g, residuePow_inj hg]

/-- Every element is a power of any base other than the identity. -/
theorem exists_residuePow {g : G} (hg : g ≠ 1) (x : G) : ∃ a : ZMod r, x = residuePow g a := by
  have hmem : x ∈ Submonoid.powers g :=
    mem_powers_of_prime_card (OrderEq.card_eq (r := r) (G := G)) hg
  obtain ⟨n, hn⟩ := hmem
  refine ⟨(n : ZMod r), ?_⟩
  rw [residuePow_natCast]
  exact hn.symm

/-- Two powers of one element under masks whose exponents are in a known ratio give the
element away: the masks cancel when each is raised to the other's factor. -/
theorem eliminate_mask (g h : G) {x m b c : ZMod r} (hbc : b ≠ c) :
    residuePow (residuePow (residuePow g x * residuePow h (b * m)) c *
      (residuePow (residuePow g x * residuePow h (c * m)) b)⁻¹) (c - b)⁻¹ = residuePow g x := by
  have hne : c - b ≠ 0 := sub_ne_zero.2 hbc.symm
  have hmask : residuePow h (b * m * c) = residuePow h (c * m * b) := by
    congr 1
    ring
  have hsplit : residuePow g (x * c) = residuePow g (x * (c - b)) * residuePow g (x * b) := by
    rw [← residuePow_add]
    congr 1
    ring
  have hcancel : residuePow (residuePow g x * residuePow h (b * m)) c *
      (residuePow (residuePow g x * residuePow h (c * m)) b)⁻¹ = residuePow g (x * (c - b)) := by
    rw [mul_residuePow, mul_residuePow, ← residuePow_mul, ← residuePow_mul, ← residuePow_mul,
      ← residuePow_mul, hmask, hsplit, mul_assoc (residuePow g (x * (c - b))),
      mul_inv_cancel_right]
  rw [hcancel, ← residuePow_mul, mul_assoc, mul_inv_cancel₀ hne, mul_one]

end Powers

/-! ## Pairings -/

/-- A bilinear map of groups that is not trivial. -/
structure BilinearPairing (G₁ : Type u) (G₂ : Type v) (GT : Type w) [CommGroup G₁] [CommGroup G₂]
    [CommGroup GT] where
  pair : G₁ → G₂ → GT
  pair_mul_left : ∀ g g' h, pair (g * g') h = pair g h * pair g' h
  pair_mul_right : ∀ g h h', pair g (h * h') = pair g h * pair g h'
  nontrivial : ∃ g h, pair g h ≠ 1

namespace BilinearPairing

variable {r : ℕ} {G₁ : Type u} {G₂ : Type v} {GT : Type w} [CommGroup G₁] [CommGroup G₂]
  [CommGroup GT] (e : BilinearPairing G₁ G₂ GT)

theorem pair_one_left (h : G₂) : e.pair 1 h = 1 := by
  have hsquare := e.pair_mul_left 1 1 h
  rw [mul_one] at hsquare
  exact mul_eq_left.1 hsquare.symm

theorem pair_one_right (g : G₁) : e.pair g 1 = 1 := by
  have hsquare := e.pair_mul_right g 1 1
  rw [mul_one] at hsquare
  exact mul_eq_left.1 hsquare.symm

theorem pair_pow_left (g : G₁) (h : G₂) (n : ℕ) : e.pair (g ^ n) h = e.pair g h ^ n := by
  induction n with
  | zero => rw [pow_zero, pow_zero, pair_one_left]
  | succ n ih => rw [pow_succ, pow_succ, pair_mul_left, ih]

theorem pair_pow_right (g : G₁) (h : G₂) (n : ℕ) : e.pair g (h ^ n) = e.pair g h ^ n := by
  induction n with
  | zero => rw [pow_zero, pow_zero, pair_one_right]
  | succ n ih => rw [pow_succ, pow_succ, pair_mul_right, ih]

variable [OrderEq r GT]

/-- Exponents multiply under the pairing. -/
theorem pair_residuePow (g : G₁) (h : G₂) (a b : ZMod r) :
    e.pair (residuePow g a) (residuePow h b) = residuePow (e.pair g h) (a * b) := by
  rw [residuePow, residuePow, pair_pow_left, pair_pow_right, ← pow_mul, mul_comm, residuePow,
    ZMod.val_mul, pow_mod_order]

/-- The pairing of two elements other than the identities is not the identity. -/
theorem pair_ne_one (r : ℕ) [OrderEq r G₁] [OrderEq r G₂] [OrderEq r GT] [Fact r.Prime] {g : G₁}
    {h : G₂} (hg : g ≠ 1) (hh : h ≠ 1) : e.pair g h ≠ 1 := by
  intro htrivial
  -- any other pairing would be a power of this one
  obtain ⟨g', h', hne⟩ := e.nontrivial
  obtain ⟨a, rfl⟩ := exists_residuePow (r := r) hg g'
  obtain ⟨b, rfl⟩ := exists_residuePow (r := r) hh h'
  rw [pair_residuePow, htrivial, one_residuePow] at hne
  exact hne rfl

end BilinearPairing

/-! ## Products of shifts -/

section Products

variable {R : Type u} [CommRing R]

/-- The product of `z + a` over a list. -/
def rootProduct (z : R) (as : List R) : R := (as.map (z + ·)).prod

/-- The value at `z` of the polynomial with the given coefficients, constant first. -/
def evalPowers (z : R) : List R → R
  | [] => 0
  | c :: cs => c + z * evalPowers z cs

@[simp] theorem rootProduct_nil (z : R) : rootProduct z [] = 1 := rfl

@[simp] theorem rootProduct_cons (z a : R) (as : List R) :
    rootProduct z (a :: as) = (z + a) * rootProduct z as := rfl

theorem rootProduct_perm (z : R) {as bs : List R} (h : as.Perm bs) :
    rootProduct z as = rootProduct z bs :=
  (h.map _).prod_eq

theorem rootProduct_ne_zero_of_subset [IsDomain R] {z : R} {as bs : List R} (hsub : bs ⊆ as)
    (h : rootProduct z as ≠ 0) : rootProduct z bs ≠ 0 := by
  simp only [rootProduct, ne_eq, List.prod_eq_zero_iff, List.mem_map, not_exists, not_and] at h ⊢
  intro b hb
  exact h b (hsub hb)

end Products

end Lktrs.Foundation
