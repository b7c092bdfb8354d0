import Lktrs.Foundation.PointGroup

/-!
# A group of points given by its logarithms

A concrete instance of the ideal point group: raw points of which some are the
codes of logarithms below `n`, and operations that decode, compute modulo `n` and
encode. Up to the choice of codes this is the cyclic group of order `n`, and it
can be evaluated. Two of them are paired by multiplying logarithms.
-/

set_option autoImplicit false

namespace Lktrs.Foundation

/-- Codes of the logarithms below `n`. -/
structure LogCode (P : Type) (n : ℕ) where
  encode : ℕ → P
  decode : P → Option ℕ
  decode_eq_some : ∀ p a, decode p = some a ↔ a < n ∧ p = encode a

namespace LogCode

variable {P : Type} {n : ℕ} (E : LogCode P n)

/-- The logarithm of a code; what it is elsewhere does not matter. -/
def log (p : P) : ℕ := (E.decode p).getD 0

/-- The code of the residue of an integer. -/
def encodeInt (k : ℤ) : P := E.encode (k % n).toNat

theorem log_encode {a : ℕ} (ha : a < n) : E.log (E.encode a) = a := by
  rw [log, (E.decode_eq_some _ _).2 ⟨ha, rfl⟩]
  rfl

theorem emod_toNat_lt (hn : 0 < n) (k : ℤ) : (k % n).toNat < n := by
  have hpos : (0 : ℤ) < n := by exact_mod_cast hn
  have hnonneg := Int.emod_nonneg k hpos.ne'
  have hlt := Int.emod_lt_of_pos k hpos
  omega

theorem log_encodeInt (hn : 0 < n) (k : ℤ) : (E.log (E.encodeInt k) : ℤ) = k % n := by
  have hdecode : E.decode (E.encodeInt k) = some (k % n).toNat :=
    (E.decode_eq_some _ _).2 ⟨emod_toNat_lt hn k, rfl⟩
  have hpos : (0 : ℤ) < n := by exact_mod_cast hn
  rw [log, hdecode]
  exact Int.toNat_of_nonneg (Int.emod_nonneg k hpos.ne')

theorem encodeInt_eq_iff (hn : 0 < n) (j k : ℤ) :
    E.encodeInt j = E.encodeInt k ↔ (j : ZMod n) = (k : ZMod n) := by
  rw [ZMod.intCast_eq_intCast_iff']
  constructor
  · intro h
    have := congrArg (fun p => (E.log p : ℤ)) h
    simpa only [E.log_encodeInt hn] using this
  · intro h
    rw [encodeInt, encodeInt, h]

/-- The point group of the codes. -/
def pointGroup (hn : 1 < n) : PointGroup P (E.encode 0) n where
  isOnCurve p := (E.decode p).isSome
  isInSubGroup p := (E.decode p).isSome
  generator := E.encode 1
  add p q := E.encodeInt (E.log p + E.log q)
  neg p := E.encodeInt (-E.log p)
  scalarMultiplication p k := E.encodeInt (k * E.log p)
  valid_iff p := by
    rw [E.log_encode hn, and_self, Option.isSome_iff_exists]
    constructor
    · rintro ⟨a, ha⟩
      obtain ⟨hlt, rfl⟩ := (E.decode_eq_some _ _).1 ha
      refine ⟨a, ?_⟩
      rw [encodeInt, Nat.cast_one, mul_one, Int.emod_eq_of_lt (by omega) (by omega), Int.toNat_natCast]
    · rintro ⟨k, rfl⟩
      exact ⟨_, (E.decode_eq_some _ _).2 ⟨emod_toNat_lt (by omega) _, rfl⟩⟩
  multiple_eq_iff j k := by
    rw [E.encodeInt_eq_iff (by omega), E.log_encode hn]
    simp
  multiple_zero := by simp [encodeInt]
  multiple_one := by
    rw [E.log_encode hn, encodeInt, Nat.cast_one, mul_one, Int.emod_eq_of_lt (by omega) (by omega)]
    rfl
  multiple_multiple j k := by
    rw [E.encodeInt_eq_iff (by omega), E.log_encodeInt (by omega)]
    push_cast
    ring
  add_multiple j k := by
    rw [E.encodeInt_eq_iff (by omega), E.log_encodeInt (by omega), E.log_encodeInt (by omega)]
    push_cast
    ring
  neg_multiple k := by
    rw [E.encodeInt_eq_iff (by omega), E.log_encodeInt (by omega)]
    push_cast
    ring

theorem log_exp (hn : 1 < n) (a : ZMod n) : (E.log ((E.pointGroup hn).exp a) : ZMod n) = a := by
  have hlog : (E.log (E.encodeInt ((a.cast : ℤ) * E.log (E.encode 1))) : ℤ) = _ :=
    E.log_encodeInt (by omega) _
  rw [E.log_encode hn, Nat.cast_one, mul_one] at hlog
  have hcast := congrArg (Int.cast : ℤ → ZMod n) hlog
  rw [ZMod.intCast_mod] at hcast
  simpa [PointGroup.exp, pointGroup, E.log_encode hn] using hcast

variable {Q : Type} (F : LogCode Q n)

/-- The sum of the products of logarithms of two lists of points. -/
def pairLogs (ps : List P) (qs : List Q) : ℕ :=
  ((ps.zip qs).map fun pq => E.log pq.1 * F.log pq.2).sum

theorem pairLogs_exp (hn : 1 < n) (pairs : List (ZMod n × ZMod n)) :
    (E.pairLogs F (pairs.map fun ab => (E.pointGroup hn).exp ab.1)
      (pairs.map fun ab => (F.pointGroup hn).exp ab.2) : ZMod n) =
      (pairs.map fun ab => ab.1 * ab.2).sum := by
  induction pairs with
  | nil => simp [pairLogs]
  | cons ab pairs ih =>
      simp only [pairLogs, List.map_cons, List.zip_cons_cons, List.sum_cons, Nat.cast_add,
        Nat.cast_mul, E.log_exp, F.log_exp] at ih ⊢
      rw [ih]

/-- Logarithms multiply under the pairing. -/
def pairing (hn : 1 < n) : Pairing (E.pointGroup hn) (F.pointGroup hn) where
  Target := Multiplicative (ZMod n)
  pair p q := Multiplicative.ofAdd ((E.log p * F.log q : ℕ) : ZMod n)
  pair_multiple j k := by
    have hj := (E.pointGroup hn).multiple_eq_exp j
    have hk := (F.pointGroup hn).multiple_eq_exp k
    rw [hj, hk, ← ofAdd_zsmul]
    have hE : E.log (E.pointGroup hn).generator = 1 := E.log_encode hn
    have hF : F.log (F.pointGroup hn).generator = 1 := F.log_encode hn
    simp [E.log_exp, F.log_exp, hE, hF]
  pair_order := by
    have hE : E.log (E.pointGroup hn).generator = 1 := E.log_encode hn
    have hF : F.log (F.pointGroup hn).generator = 1 := F.log_encode hn
    rw [hE, hF, orderOf_ofAdd_eq_addOrderOf]
    simp
  pairingCheck ps qs := .ok (decide (E.pairLogs F ps qs % n = 0))
  pairingCheck_spec pairs := by
    refine ⟨_, rfl, ?_⟩
    have hprod : ∀ l : List (ZMod n × ZMod n), (l.map fun ab => Multiplicative.ofAdd
        ((E.log ((E.pointGroup hn).exp ab.1) * F.log ((F.pointGroup hn).exp ab.2) : ℕ) :
          ZMod n)).prod = Multiplicative.ofAdd (l.map fun ab => ab.1 * ab.2).sum := by
      intro l
      induction l with
      | nil => simp
      | cons ab l ih =>
          rw [List.map_cons, List.prod_cons, ih, List.map_cons, List.sum_cons, ofAdd_add,
            Nat.cast_mul, E.log_exp, F.log_exp]
    rw [hprod, ofAdd_eq_one, decide_eq_true_eq, ← pairLogs_exp E F hn,
      ZMod.natCast_eq_zero_iff, Nat.dvd_iff_mod_eq_zero]

end LogCode

end Lktrs.Foundation
