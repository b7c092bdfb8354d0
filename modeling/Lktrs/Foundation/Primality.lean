import Mathlib.NumberTheory.LucasPrimality
import Mathlib.Data.Nat.Prime.Basic
import Mathlib.Tactic

/-!
# Lucas primality certificates

Lucas' criterion with the powers computed by repeated squaring, so that the
kernel can check a certificate of a number of a few hundred bits: an element `a`
with `a ^ (p - 1) = 1` modulo `p` and `a ^ ((p - 1) / q) ≠ 1` for every prime
factor `q` of `p - 1`. Certificates are checked in sequence: the factors of one
are primes known beforehand or numbers certified before it (`checkSequence_prime`).
-/

set_option autoImplicit false

namespace Lktrs.Foundation

/-- `a ^ e` modulo `n` by repeated squaring, for exponents below `2 ^ bits`. -/
def powMod (n : ℕ) : ℕ → ℕ → ℕ → ℕ
  | 0, _, _ => 1 % n
  | bits + 1, a, e =>
      if e % 2 = 1 then powMod n bits (a * a % n) (e / 2) * a % n
      else powMod n bits (a * a % n) (e / 2)

theorem powMod_eq (n bits a e : ℕ) (he : e < 2 ^ bits) : powMod n bits a e = a ^ e % n := by
  induction bits generalizing a e with
  | zero =>
      obtain rfl : e = 0 := by omega
      simp [powMod]
  | succ bits ih =>
      have hhalf : e / 2 < 2 ^ bits := by
        rw [pow_succ] at he
        omega
      have hsquare : (a * a % n) ^ (e / 2) % n = a ^ (2 * (e / 2)) % n := by
        rw [← Nat.pow_mod, pow_mul, pow_two]
      rw [powMod, ih _ _ hhalf, hsquare]
      split
      · rename_i hodd
        have he' : e = 2 * (e / 2) + 1 := by omega
        conv_rhs => rw [he', pow_succ]
        rw [Nat.mod_mul_mod]
      · rename_i heven
        have he' : e = 2 * (e / 2) := by omega
        conv_rhs => rw [he']

/-- A certificate for `p`: an element and the prime factorization of `p - 1`. -/
structure LucasCertificate where
  bits : ℕ
  element : ℕ
  factors : List (ℕ × ℕ)

/-- The checks a certificate has to pass, the primality of its factors aside. -/
def LucasCertificate.checks (p : ℕ) (c : LucasCertificate) : Bool :=
  decide (1 < p) && decide (p < 2 ^ c.bits) &&
    decide ((c.factors.map fun qe => qe.1 ^ qe.2).prod = p - 1) &&
    decide (powMod p c.bits c.element (p - 1) = 1) &&
    c.factors.all fun qe => decide (powMod p c.bits c.element ((p - 1) / qe.1) ≠ 1)

/-- A number with a checked certificate, all of whose factors are prime, is prime. -/
theorem LucasCertificate.prime {p : ℕ} (c : LucasCertificate) (hc : c.checks p = true)
    (hfactors : ∀ qe ∈ c.factors, qe.1.Prime) : p.Prime := by
  simp only [checks, Bool.and_eq_true, decide_eq_true_eq, List.all_eq_true] at hc
  obtain ⟨⟨⟨⟨hlt, hbits⟩, hprod⟩, hone⟩, hne⟩ := hc
  have hcast : ∀ e, e ≤ p - 1 → ((c.element : ZMod p) ^ e = 1 ↔ powMod p c.bits c.element e = 1) := by
    intro e he
    rw [powMod_eq _ _ _ _ (by omega)]
    have hone' : ((1 : ℕ) : ZMod p) = 1 := by simp
    rw [← Nat.cast_pow, ← hone', ZMod.natCast_eq_natCast_iff, Nat.ModEq, Nat.mod_eq_of_lt hlt]
  refine lucas_primality p (c.element : ZMod p) ((hcast _ le_rfl).2 hone) ?_
  intro q hq hdvd heq
  rw [← hprod] at hdvd
  obtain ⟨x, hx, hqx⟩ := (Prime.dvd_prod_iff hq.prime).1 hdvd
  obtain ⟨qe, hqe, rfl⟩ := List.mem_map.1 hx
  obtain rfl : q = qe.1 :=
    (Nat.prime_dvd_prime_iff_eq hq (hfactors qe hqe)).1 (hq.dvd_of_dvd_pow hqx)
  exact hne qe hqe ((hcast _ (Nat.div_le_self _ _)).1 heq)

/-- Check certificates one after another; the factors of each have to be known primes or
numbers certified before it. -/
def checkSequence (known : List ℕ) : List (ℕ × LucasCertificate) → Bool
  | [] => true
  | (p, c) :: rest =>
      c.checks p && (c.factors.all fun qe => known.contains qe.1) &&
        checkSequence (p :: known) rest

theorem checkSequence_prime {known : List ℕ} {entries : List (ℕ × LucasCertificate)}
    (hknown : ∀ q ∈ known, q.Prime) (h : checkSequence known entries = true) :
    ∀ p ∈ entries.map Prod.fst, p.Prime := by
  induction entries generalizing known with
  | nil => simp
  | cons entry rest ih =>
      obtain ⟨p, c⟩ := entry
      simp only [checkSequence, Bool.and_eq_true, List.all_eq_true, List.contains_iff_mem] at h
      obtain ⟨⟨hchecks, hfactors⟩, hrest⟩ := h
      have hp : p.Prime := c.prime hchecks fun qe hqe => hknown _ (hfactors qe hqe)
      intro q hq
      rcases List.mem_cons.1 hq with rfl | hmem
      · exact hp
      · refine @ih (p :: known) ?_ hrest q hmem
        intro q' hq'
        rcases List.mem_cons.1 hq' with rfl | hq'
        · exact hp
        · exact hknown q' hq'

end Lktrs.Foundation
