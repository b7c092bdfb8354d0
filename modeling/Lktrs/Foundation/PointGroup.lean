import Mathlib.Data.ZMod.Basic
import Mathlib.GroupTheory.OrderOfElement
import Mathlib.Algebra.BigOperators.Group.List.Basic
import Mathlib.Tactic

/-!
# Cyclic groups of affine points, and pairings between them

A curve library exposes raw points `P`: any coordinate pair is a value, and the
operations are specified only on the points that are on the curve and in the
prime-order subgroup. `PointGroup` is such a library read as the ideal
operations it stands for: the valid points are the multiples of the generator,
and the operations on them are those of a cyclic group of order `n`. What an
operation returns on an invalid point is left open.

Every valid point is `exp a` for one residue `a`, its discrete logarithm, and
the operations become arithmetic of residues (`add_exp`, `neg_exp`,
`scalarMultiplication_exp`). `Pairing` adds a nondegenerate bilinear map between
two such groups and its product check, which becomes a sum of products of
logarithms (`pairingCheck_exp`).
-/

set_option autoImplicit false

namespace Lktrs.Foundation

/-- The affine points `P` of a cyclic group of order `n`, with the point `infinity`
as its identity. -/
structure PointGroup (P : Type) (infinity : P) (n : ℕ) where
  isOnCurve : P → Bool
  isInSubGroup : P → Bool
  generator : P
  add : P → P → P
  neg : P → P
  scalarMultiplication : P → ℤ → P
  /-- The valid points are the multiples of the generator. -/
  valid_iff : ∀ p, (isOnCurve p = true ∧ isInSubGroup p = true) ↔
    ∃ k, p = scalarMultiplication generator k
  /-- The generator has order `n`. -/
  multiple_eq_iff : ∀ j k, scalarMultiplication generator j = scalarMultiplication generator k ↔
    (j : ZMod n) = (k : ZMod n)
  multiple_zero : scalarMultiplication generator 0 = infinity
  multiple_one : scalarMultiplication generator 1 = generator
  multiple_multiple : ∀ j k, scalarMultiplication (scalarMultiplication generator j) k =
    scalarMultiplication generator (k * j)
  add_multiple : ∀ j k, add (scalarMultiplication generator j) (scalarMultiplication generator k) =
    scalarMultiplication generator (j + k)
  neg_multiple : ∀ k, neg (scalarMultiplication generator k) =
    scalarMultiplication generator (-k)

namespace PointGroup

variable {P : Type} {infinity : P} {n : ℕ} (G : PointGroup P infinity n)

/-- The point with discrete logarithm `a`. -/
def exp (a : ZMod n) : P := G.scalarMultiplication G.generator a.cast

/-- A point that is not the identity and passes both membership tests. -/
def good [DecidableEq P] (p : P) : Bool :=
  p != infinity && G.isOnCurve p && G.isInSubGroup p

/-- Subtraction, as a library derives it. -/
def sub (p q : P) : P := G.add p (G.neg q)

theorem multiple_eq_exp (k : ℤ) : G.scalarMultiplication G.generator k = G.exp k := by
  rw [exp, multiple_eq_iff]
  simp

theorem generator_eq_exp : G.generator = G.exp 1 := by
  have h := G.multiple_eq_exp 1
  rw [multiple_one] at h
  simpa using h

theorem infinity_eq_exp : infinity = G.exp 0 := by
  have h := G.multiple_eq_exp 0
  rw [multiple_zero] at h
  simpa using h

theorem exp_inj {a b : ZMod n} : G.exp a = G.exp b ↔ a = b := by
  rw [exp, exp, multiple_eq_iff]
  simp

theorem exp_eq_infinity {a : ZMod n} : G.exp a = infinity ↔ a = 0 := by
  constructor
  · intro h
    exact G.exp_inj.1 (h.trans G.infinity_eq_exp)
  · rintro rfl
    exact G.infinity_eq_exp.symm

@[simp] theorem add_exp (a b : ZMod n) : G.add (G.exp a) (G.exp b) = G.exp (a + b) := by
  rw [exp, exp, add_multiple, multiple_eq_exp]
  simp

@[simp] theorem neg_exp (a : ZMod n) : G.neg (G.exp a) = G.exp (-a) := by
  rw [exp, neg_multiple, multiple_eq_exp]
  simp

@[simp] theorem sub_exp (a b : ZMod n) : G.sub (G.exp a) (G.exp b) = G.exp (a - b) := by
  rw [sub, neg_exp, add_exp, sub_eq_add_neg]

@[simp] theorem scalarMultiplication_exp (a : ZMod n) (k : ℤ) :
    G.scalarMultiplication (G.exp a) k = G.exp (k * a) := by
  rw [exp, multiple_multiple, multiple_eq_exp]
  simp

theorem exists_exp_iff {p : P} :
    (∃ a, p = G.exp a) ↔ G.isOnCurve p = true ∧ G.isInSubGroup p = true := by
  rw [valid_iff]
  constructor
  · rintro ⟨a, rfl⟩
    exact ⟨a.cast, rfl⟩
  · rintro ⟨k, rfl⟩
    exact ⟨k, G.multiple_eq_exp k⟩

theorem isOnCurve_exp (a : ZMod n) : G.isOnCurve (G.exp a) = true :=
  (G.exists_exp_iff.1 ⟨a, rfl⟩).1

theorem isInSubGroup_exp (a : ZMod n) : G.isInSubGroup (G.exp a) = true :=
  (G.exists_exp_iff.1 ⟨a, rfl⟩).2

variable [DecidableEq P]

/-- A good point is a point with a nonzero logarithm. -/
theorem good_iff {p : P} : G.good p = true ↔ ∃ a, a ≠ 0 ∧ p = G.exp a := by
  simp only [good, Bool.and_eq_true, bne_iff_ne, ne_eq]
  constructor
  · rintro ⟨⟨hinf, hcurve⟩, hsub⟩
    obtain ⟨a, rfl⟩ := G.exists_exp_iff.2 ⟨hcurve, hsub⟩
    refine ⟨a, ?_, rfl⟩
    rintro rfl
    exact hinf G.infinity_eq_exp.symm
  · rintro ⟨a, ha, rfl⟩
    exact ⟨⟨fun h => ha (G.exp_eq_infinity.1 h), G.isOnCurve_exp a⟩, G.isInSubGroup_exp a⟩

@[simp] theorem good_exp {a : ZMod n} : G.good (G.exp a) = true ↔ a ≠ 0 := by
  rw [good_iff]
  constructor
  · rintro ⟨b, hb, hab⟩
    rwa [G.exp_inj.1 hab]
  · intro ha
    exact ⟨a, ha, rfl⟩

/-- **Schnorr's equation gives up the logarithm.** Two answers `z₁`, `z₂` to different challenges
for one commitment `r` determine the logarithm of `y` to the base `u`. -/
theorem schnorr_extract [Fact n.Prime] {u y r : P} (hu : G.good u = true) (hy : G.good y = true)
    (hr : G.good r = true) {c₁ c₂ z₁ z₂ : ℤ} (hne : (c₁ : ZMod n) ≠ c₂)
    (h₁ : G.scalarMultiplication u z₁ = G.add r (G.scalarMultiplication y c₁))
    (h₂ : G.scalarMultiplication u z₂ = G.add r (G.scalarMultiplication y c₂)) :
    ((z₁ - z₂) / (c₁ - c₂) : ZMod n) ≠ 0 ∧
      G.scalarMultiplication u ((z₁ - z₂) / (c₁ - c₂) : ZMod n).cast = y := by
  obtain ⟨υ, -, rfl⟩ := G.good_iff.1 hu
  obtain ⟨η, hη, rfl⟩ := G.good_iff.1 hy
  obtain ⟨ρ, -, rfl⟩ := G.good_iff.1 hr
  simp only [scalarMultiplication_exp, add_exp, exp_inj] at h₁ h₂
  have hdiff : (c₁ - c₂ : ZMod n) ≠ 0 := sub_ne_zero.2 hne
  -- subtracting the equations removes the commitment
  have hlog : ((z₁ - z₂) / (c₁ - c₂) : ZMod n) * υ = η := by
    rw [div_mul_eq_mul_div, div_eq_iff hdiff]
    linear_combination h₁ - h₂
  refine ⟨?_, ?_⟩
  · intro hzero
    rw [hzero, zero_mul] at hlog
    exact hη hlog.symm
  · rw [scalarMultiplication_exp, exp_inj, ZMod.intCast_cast, ZMod.cast_id', id, hlog]

end PointGroup

/-! ## Pairings -/

/-- A nondegenerate bilinear map between two groups of order `n`, with the library's
product check: it reports whether the product of the pairings of a list of point
pairs is the identity of the target. -/
structure Pairing {P Q : Type} {infP : P} {infQ : Q} {n : ℕ} (G : PointGroup P infP n)
    (H : PointGroup Q infQ n) where
  Target : Type
  [target : CommGroup Target]
  pair : P → Q → Target
  pair_multiple : ∀ j k : ℤ,
    pair (G.scalarMultiplication G.generator j) (H.scalarMultiplication H.generator k) =
      pair G.generator H.generator ^ (j * k)
  pair_order : orderOf (pair G.generator H.generator) = n
  pairingCheck : List P → List Q → Except String Bool
  pairingCheck_spec : ∀ pairs : List (ZMod n × ZMod n),
    ∃ b, pairingCheck (pairs.map fun ab => G.exp ab.1) (pairs.map fun ab => H.exp ab.2) = .ok b ∧
      (b = true ↔ (pairs.map fun ab => pair (G.exp ab.1) (H.exp ab.2)).prod = 1)

namespace Pairing

variable {P Q : Type} {infP : P} {infQ : Q} {n : ℕ} {G : PointGroup P infP n}
  {H : PointGroup Q infQ n} (e : Pairing G H)

attribute [instance] target

theorem pair_exp (a b : ZMod n) :
    e.pair (G.exp a) (H.exp b) =
      e.pair G.generator H.generator ^ ((a.cast : ℤ) * (b.cast : ℤ)) := by
  rw [PointGroup.exp, PointGroup.exp, pair_multiple]

theorem prod_pair_exp (pairs : List (ZMod n × ZMod n)) :
    (pairs.map fun ab => e.pair (G.exp ab.1) (H.exp ab.2)).prod =
      e.pair G.generator H.generator ^
        (pairs.map fun ab => (ab.1.cast : ℤ) * (ab.2.cast : ℤ)).sum := by
  induction pairs with
  | nil => simp
  | cons ab pairs ih =>
      rw [List.map_cons, List.prod_cons, ih, pair_exp, List.map_cons, List.sum_cons, zpow_add]

/-- Casting a sum of products of representatives back gives the sum of products. -/
theorem cast_sum_representatives (pairs : List (ZMod n × ZMod n)) :
    (((pairs.map fun ab => (ab.1.cast : ℤ) * (ab.2.cast : ℤ)).sum : ℤ) : ZMod n) =
      (pairs.map fun ab => ab.1 * ab.2).sum := by
  induction pairs with
  | nil => simp
  | cons ab pairs ih =>
      rw [List.map_cons, List.sum_cons, Int.cast_add, ih, List.map_cons, List.sum_cons]
      simp

/-- The product check on points with known logarithms is a check of residues. -/
theorem pairingCheck_exp (pairs : List (ZMod n × ZMod n)) :
    e.pairingCheck (pairs.map fun ab => G.exp ab.1) (pairs.map fun ab => H.exp ab.2) =
      .ok (decide ((pairs.map fun ab => ab.1 * ab.2).sum = 0)) := by
  obtain ⟨b, hb, hiff⟩ := e.pairingCheck_spec pairs
  rw [hb, Except.ok.injEq]
  rw [prod_pair_exp, ← orderOf_dvd_iff_zpow_eq_one, e.pair_order,
    ← ZMod.intCast_zmod_eq_zero_iff_dvd, cast_sum_representatives] at hiff
  cases b with
  | true => simp [hiff.1 rfl]
  | false => simpa using hiff

end Pairing

end Lktrs.Foundation
