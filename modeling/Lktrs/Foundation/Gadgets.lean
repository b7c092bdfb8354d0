import Lktrs.Foundation.Bytes
import Lktrs.Foundation.Outcome
import Lktrs.Foundation.Residues

/-!
# Circuit gadgets read as ideal operations

A circuit over a prime field is a list of assertions about native field
elements. This module gives the gadgets their ideal meaning: a bit decomposition
exists exactly when the value fits, an emulated field element is an integer that
stands for its residue and need not be reduced, and an assertion that does not
hold makes the circuit unsatisfied. Bits are least significant first.
-/

set_option autoImplicit false

namespace Lktrs.Foundation

/-- A constraint: the circuit is unsatisfied when it does not hold. -/
def assertThat (c : Prop) [Decidable c] : Except String Unit :=
  rejectIf (¬ c) "constraint is not satisfied"

@[simp] theorem assertThat_eq_ok {c : Prop} [Decidable c] {u : Unit} :
    assertThat c = .ok u ↔ c := by
  simp [assertThat]

/-! ## Bits -/

/-- The lowest `width` bits of `n`. -/
def bitsOf : ℕ → ℕ → List Bool
  | 0, _ => []
  | width + 1, n => decide (n % 2 = 1) :: bitsOf width (n / 2)

/-- The integer a list of bits spells. -/
def bitsValue : List Bool → ℕ
  | [] => 0
  | b :: bs => b.toNat + 2 * bitsValue bs

@[simp] theorem length_bitsOf (width n : ℕ) : (bitsOf width n).length = width := by
  induction width generalizing n with
  | zero => rfl
  | succ width ih => simp [bitsOf, ih]

theorem bitsValue_bitsOf (width n : ℕ) : bitsValue (bitsOf width n) = n % 2 ^ width := by
  induction width generalizing n with
  | zero => simp [bitsOf, bitsValue, Nat.mod_one]
  | succ width ih =>
      have hbit : (decide (n % 2 = 1)).toNat = n % 2 := by
        rcases Nat.mod_two_eq_zero_or_one n with h | h <;> simp [h]
      rw [bitsOf, bitsValue, ih, hbit, pow_succ', Nat.mod_mul]

theorem bitsValue_bitsOf_of_lt {width n : ℕ} (h : n < 2 ^ width) :
    bitsValue (bitsOf width n) = n := by
  rw [bitsValue_bitsOf, Nat.mod_eq_of_lt h]

theorem bitsValue_append (as bs : List Bool) :
    bitsValue (as ++ bs) = bitsValue as + 2 ^ as.length * bitsValue bs := by
  induction as with
  | nil => simp [bitsValue]
  | cons a as ih =>
      rw [List.cons_append, bitsValue, ih, bitsValue, List.length_cons, pow_succ']
      ring

theorem bitsValue_lt (bits : List Bool) : bitsValue bits < 2 ^ bits.length := by
  induction bits with
  | nil => exact Nat.one_pos
  | cons b bits ih =>
      have hbit := Bool.toNat_lt b
      rw [bitsValue, List.length_cons, pow_succ']
      omega

/-- The bits of the integer that a list spells are the list. -/
theorem bitsOf_bitsValue (bits : List Bool) : bitsOf bits.length (bitsValue bits) = bits := by
  induction bits with
  | nil => rfl
  | cons b bits ih =>
      have hlow : decide ((b.toNat + 2 * bitsValue bits) % 2 = 1) = b := by
        cases b <;> simp
      have hhigh : (b.toNat + 2 * bitsValue bits) / 2 = bitsValue bits := by
        have hbit := Bool.toNat_lt b
        omega
      rw [List.length_cons, bitsValue, bitsOf, hlow, hhigh, ih]

theorem bitsOf_eq_map_testBit (width n : ℕ) : bitsOf width n = (List.range width).map n.testBit := by
  induction width generalizing n with
  | zero => rfl
  | succ width ih =>
      have htail : (n / 2).testBit = fun i => n.testBit (i + 1) := by
        funext i
        rw [Nat.testBit_succ]
      rw [bitsOf, ih, List.range_succ_eq_map, List.map_cons, List.map_map, Nat.testBit_zero, htail]
      rfl

theorem bitsOf_add (low high n : ℕ) :
    bitsOf (low + high) n = bitsOf low n ++ bitsOf high (n / 2 ^ low) := by
  induction low generalizing n with
  | zero => simp [bitsOf]
  | succ low ih =>
      rw [show low + 1 + high = (low + high) + 1 by omega, bitsOf, ih, bitsOf, Nat.div_div_eq_div_mul,
        ← pow_succ', List.cons_append]

theorem drop_bitsOf (low high n : ℕ) :
    (bitsOf (low + high) n).drop low = bitsOf high (n / 2 ^ low) := by
  rw [bitsOf_add, List.drop_left' (length_bitsOf low n)]

theorem take_bitsOf (low high n : ℕ) : (bitsOf (low + high) n).take low = bitsOf low n := by
  rw [bitsOf_add, List.take_left' (length_bitsOf low n)]

/-- Padding the bits of a value that fits by zeros gives its bits in the larger width. -/
theorem bitsOf_append_replicate {width n : ℕ} (h : n < 2 ^ width) (extra : ℕ) :
    bitsOf width n ++ List.replicate extra false = bitsOf (width + extra) n := by
  have hzero : ∀ k : ℕ, bitsOf k 0 = List.replicate k false := by
    intro k
    induction k with
    | zero => rfl
    | succ k ih => simp [bitsOf, ih, List.replicate_succ]
  rw [bitsOf_add, Nat.div_eq_of_lt h, hzero]

/-- `ToBinary` with a width: the value has to fit. -/
def toBinary {r : ℕ} (v : ZMod r) (width : ℕ) : Except String (List Bool) := do
  assertThat (v.val < 2 ^ width)
  return bitsOf width v.val

@[simp] theorem toBinary_eq_ok {r : ℕ} {v : ZMod r} {width : ℕ} {bits : List Bool} :
    toBinary v width = .ok bits ↔ v.val < 2 ^ width ∧ bits = bitsOf width v.val := by
  simp only [toBinary, bind_eq_ok, assertThat_eq_ok, pure_eq_ok]
  constructor
  · rintro ⟨_, h, rfl⟩
    exact ⟨h, rfl⟩
  · rintro ⟨h, rfl⟩
    exact ⟨(), h, rfl⟩

/-- The bytes of a bit list, `width` of them, most significant first. -/
def bytesOfBits : ℕ → List Bool → List UInt8
  | 0, _ => []
  | width + 1, bits =>
      UInt8.ofNat (bitsValue ((bits.drop (8 * width)).take 8)) :: bytesOfBits width bits

theorem bytesOfBits_bitsOf (n total : ℕ) :
    ∀ width : ℕ, width ≤ total → bytesOfBits width (bitsOf (8 * total) n) = bigEndian width n := by
  intro width
  induction width with
  | zero => intro _; rfl
  | succ width ih =>
      intro h
      have hsplit : 8 * total = 8 * width + (8 + 8 * (total - width - 1)) := by omega
      have hpow : (2 : ℕ) ^ (8 * width) = 256 ^ width := by rw [pow_mul]; norm_num
      have hbyte : bitsValue (((bitsOf (8 * total) n).drop (8 * width)).take 8) =
          n / 256 ^ width % 256 := by
        rw [hsplit, drop_bitsOf, take_bitsOf, bitsValue_bitsOf, hpow]
        norm_num
      have hcast : UInt8.ofNat (n / 256 ^ width % 256) = UInt8.ofNat (n / 256 ^ width) := by
        apply UInt8.toNat_inj.1
        simp
      rw [bytesOfBits, hbyte, hcast, ih (by omega), bigEndian]

/-! ## Emulated elements -/

/-- An element of the field with `q` elements, held as an integer that need not be reduced. -/
@[ext] structure Element (q : ℕ) where
  value : ℕ
  deriving DecidableEq

namespace Element

variable {q : ℕ}

/-- The residue an element stands for. -/
def residue (a : Element q) : ZMod q := a.value

/-- The element of a constant. -/
def valueOf (q : ℕ) (n : ℤ) : Element q := ⟨(n % q).toNat⟩

def zero : Element q := ⟨0⟩
def one : Element q := ⟨1⟩
def fromBits (bits : List Bool) : Element q := ⟨bitsValue bits⟩
def reduceStrict (a : Element q) : Element q := ⟨a.value % q⟩
def add (a b : Element q) : Element q := ⟨(a.value + b.value) % q⟩
def mul (a b : Element q) : Element q := ⟨a.value * b.value % q⟩

/-- The reduced value is zero. -/
def isZero (a : Element q) : Bool := decide (a.value % q = 0)

def assertIsInRange (a : Element q) : Except String Unit := assertThat (a.value < q)

def assertIsEqual (a b : Element q) : Except String Unit := assertThat (a.value % q = b.value % q)

def assertIsDifferent (a b : Element q) : Except String Unit :=
  assertThat (a.value % q ≠ b.value % q)

/-- The inverse; there is no satisfying assignment when the element has none. -/
def inverse (a : Element q) : Except String (Element q) :=
  match modInverse a.value q with
  | none => .error "constraint is not satisfied"
  | some b => .ok ⟨b.toNat⟩

@[simp] theorem residue_fromBits (bits : List Bool) :
    (fromBits bits : Element q).residue = bitsValue bits := rfl

@[simp] theorem residue_reduceStrict (a : Element q) : a.reduceStrict.residue = a.residue := by
  simp [reduceStrict, residue]

@[simp] theorem residue_add (a b : Element q) : (a.add b).residue = a.residue + b.residue := by
  simp [add, residue]

@[simp] theorem residue_mul (a b : Element q) : (a.mul b).residue = a.residue * b.residue := by
  simp [mul, residue]

@[simp] theorem residue_one : (one : Element q).residue = 1 := by simp [one, residue]

theorem mod_eq_iff_residue {a b : Element q} :
    a.value % q = b.value % q ↔ a.residue = b.residue :=
  (ZMod.natCast_eq_natCast_iff' _ _ _).symm

@[simp] theorem assertIsInRange_eq_ok {a : Element q} {u : Unit} :
    a.assertIsInRange = .ok u ↔ a.value < q := assertThat_eq_ok

@[simp] theorem assertIsEqual_eq_ok {a b : Element q} {u : Unit} :
    a.assertIsEqual b = .ok u ↔ a.residue = b.residue := by
  rw [assertIsEqual, assertThat_eq_ok, mod_eq_iff_residue]

@[simp] theorem assertIsDifferent_zero {a : Element q} {u : Unit} :
    a.assertIsDifferent zero = .ok u ↔ a.residue ≠ 0 := by
  rw [assertIsDifferent, assertThat_eq_ok, ne_eq, mod_eq_iff_residue]
  simp [zero, residue]

/-- Over a prime field a nonzero element has its field inverse. -/
theorem inverse_eq_ok [Fact q.Prime] {a : Element q} (ha : a.residue ≠ 0) :
    ∃ b, a.inverse = .ok b ∧ b.residue = a.residue⁻¹ := by
  have ha' : ((a.value : ℤ) : ZMod q) ≠ 0 := by simpa [residue] using ha
  obtain ⟨b, hb, hnonneg, hres⟩ := modInverse_prime ha'
  refine ⟨⟨b.toNat⟩, by rw [inverse, hb], ?_⟩
  have hcast : ((b.toNat : ℕ) : ZMod q) = ((b : ℤ) : ZMod q) := by
    rw [← Int.cast_natCast, Int.toNat_of_nonneg hnonneg]
  rw [residue, hcast, hres]
  simp [residue]

theorem value_valueOf {n : ℤ} (h : 0 ≤ n) (hq : n < q) : (valueOf q n).value = n.toNat := by
  rw [valueOf, Int.emod_eq_of_lt h hq]

end Element

end Lktrs.Foundation
