import Mathlib.Tactic

/-!
# Byte strings and fixed-width integers

Byte strings are `List UInt8`; a fixed-size array is a list that carries its
length (`FixedBytes`). Integers are written most significant byte first in a
fixed width (`bigEndian`) and read back with `bigEndianValue`; on strings of the
right width the two are mutually inverse (`bigEndianValue_bigEndian`,
`bigEndian_bigEndianValue`), so a fixed-width field determines the integer and
the integer determines the field.
-/

set_option autoImplicit false

namespace Lktrs.Foundation

/-- The bytes of a text, as a conversion from string to byte slice gives them. -/
def textBytes (s : String) : List UInt8 := s.toUTF8.data.toList

/-- The text a byte string encodes, when it is valid UTF-8. -/
def bytesText (bs : List UInt8) : Option String := String.fromUTF8? ⟨bs.toArray⟩

@[simp] theorem bytesText_textBytes (s : String) : bytesText (textBytes s) = some s := by
  have hbytes : (⟨s.toUTF8.data.toList.toArray⟩ : ByteArray) = s.toUTF8 := rfl
  have hvalid : s.toUTF8.IsValidUTF8 := s.isValidUTF8
  rw [bytesText, textBytes, hbytes, String.fromUTF8?, dif_pos hvalid]
  rfl

theorem textBytes_append (s t : String) : textBytes (s ++ t) = textBytes s ++ textBytes t := by
  simp [textBytes]

theorem length_textBytes (s : String) : (textBytes s).length = s.utf8ByteSize := by
  simp [textBytes]

/-- The bytes of a text are those of its characters in turn. -/
theorem textBytes_ofList (cs : List Char) :
    textBytes (String.ofList cs) = cs.flatMap String.utf8EncodeChar := by
  simp [textBytes, List.utf8Encode]

/-- Every character takes a byte or more. -/
theorem length_le_textBytes (cs : List Char) :
    cs.length ≤ (textBytes (String.ofList cs)).length := by
  rw [length_textBytes]
  induction cs with
  | nil => exact Nat.zero_le _
  | cons c cs ih =>
      have hc := c.utf8Size_pos
      rw [String.ofList_cons, String.utf8ByteSize_append, String.utf8ByteSize_singleton,
        List.length_cons]
      omega

/-- `n` in `width` bytes, most significant first; higher bytes are dropped. -/
def bigEndian : ℕ → ℕ → List UInt8
  | 0, _ => []
  | width + 1, n => UInt8.ofNat (n / 256 ^ width) :: bigEndian width n

/-- The integer a byte string spells, most significant byte first. -/
def bigEndianValue : List UInt8 → ℕ
  | [] => 0
  | b :: bs => b.toNat * 256 ^ bs.length + bigEndianValue bs

@[simp] theorem length_bigEndian (width n : ℕ) : (bigEndian width n).length = width := by
  induction width with
  | zero => rfl
  | succ width ih => simp [bigEndian, ih]

theorem bigEndianValue_lt (bs : List UInt8) : bigEndianValue bs < 256 ^ bs.length := by
  induction bs with
  | nil => simp [bigEndianValue]
  | cons b bs ih =>
      have hb : b.toNat < 256 := b.toNat_lt
      have hmul : (b.toNat + 1) * 256 ^ bs.length ≤ 256 * 256 ^ bs.length :=
        Nat.mul_le_mul_right _ hb
      simp only [bigEndianValue, List.length_cons, pow_succ]
      linarith

theorem bigEndianValue_bigEndian (width n : ℕ) :
    bigEndianValue (bigEndian width n) = n % 256 ^ width := by
  induction width with
  | zero => simp [bigEndian, bigEndianValue, Nat.mod_one]
  | succ width ih =>
      have hmod : n % 256 ^ (width + 1) = n % 256 ^ width + 256 ^ width * (n / 256 ^ width % 256) := by
        rw [pow_succ, Nat.mod_mul]
      simp only [bigEndian, bigEndianValue, length_bigEndian, ih, UInt8.toNat_ofNat', hmod]
      ring

/-- A fixed-width encoding of an integer that fits reads back as that integer. -/
theorem bigEndianValue_bigEndian_of_lt {width n : ℕ} (h : n < 256 ^ width) :
    bigEndianValue (bigEndian width n) = n := by
  rw [bigEndianValue_bigEndian, Nat.mod_eq_of_lt h]

/-- The encoding drops every multiple of the width's range. -/
theorem bigEndian_add_mul (width n k : ℕ) :
    bigEndian width (k * 256 ^ width + n) = bigEndian width n := by
  induction width generalizing k with
  | zero => rfl
  | succ width ih =>
      have hsplit : k * 256 ^ (width + 1) + n = (k * 256) * 256 ^ width + n := by ring
      have hpos : 0 < 256 ^ width := by positivity
      have hhead : UInt8.ofNat ((k * 256 * 256 ^ width + n) / 256 ^ width) =
          UInt8.ofNat (n / 256 ^ width) := by
        apply UInt8.toNat_inj.1
        rw [UInt8.toNat_ofNat', UInt8.toNat_ofNat', Nat.add_comm,
          Nat.add_mul_div_right _ _ hpos]
        omega
      rw [hsplit, bigEndian, bigEndian, hhead, ih]

theorem bigEndian_bigEndianValue (bs : List UInt8) :
    bigEndian bs.length (bigEndianValue bs) = bs := by
  induction bs with
  | nil => rfl
  | cons b bs ih =>
      have hpos : 0 < 256 ^ bs.length := by positivity
      have hhead : UInt8.ofNat ((b.toNat * 256 ^ bs.length + bigEndianValue bs) /
          256 ^ bs.length) = b := by
        rw [Nat.add_comm, Nat.add_mul_div_right _ _ hpos,
          Nat.div_eq_of_lt (bigEndianValue_lt bs), Nat.zero_add, UInt8.ofNat_toNat]
      simp only [List.length_cons, bigEndian, bigEndianValue]
      rw [hhead, bigEndian_add_mul, ih]

/-- Two integers that fit the width have the same encoding only if they are equal. -/
theorem bigEndian_inj {width m n : ℕ} (hm : m < 256 ^ width) (hn : n < 256 ^ width)
    (h : bigEndian width m = bigEndian width n) : m = n := by
  have hval := congrArg bigEndianValue h
  rwa [bigEndianValue_bigEndian_of_lt hm, bigEndianValue_bigEndian_of_lt hn] at hval

theorem bigEndianValue_append (xs ys : List UInt8) :
    bigEndianValue (xs ++ ys) = bigEndianValue xs * 256 ^ ys.length + bigEndianValue ys := by
  induction xs with
  | nil => simp [bigEndianValue]
  | cons x xs ih =>
      simp only [List.cons_append, bigEndianValue, ih, List.length_append, pow_add]
      ring

theorem bigEndianValue_eq_zero {bs : List UInt8} : bigEndianValue bs = 0 ↔ ∀ b ∈ bs, b = 0 := by
  induction bs with
  | nil => simp [bigEndianValue]
  | cons b bs ih =>
      have hpow : 256 ^ bs.length ≠ 0 := by positivity
      rw [bigEndianValue, List.forall_mem_cons, ← ih, Nat.add_eq_zero_iff, Nat.mul_eq_zero,
        or_iff_left hpow, ← UInt8.toNat_inj, UInt8.toNat_zero]

/-- One byte is shifted into a word. -/
theorem toNat_shiftLeft_or (x : UInt64) (b : UInt8) :
    ((x <<< 8) ||| b.toUInt64).toNat = (x.toNat * 256 + b.toNat) % 2 ^ 64 := by
  have hb : b.toNat < 2 ^ 8 := b.toNat_lt
  have hshift : x.toNat <<< 8 % 2 ^ 64 = (x.toNat % 2 ^ 56) <<< 8 := by
    rw [Nat.shiftLeft_eq, Nat.shiftLeft_eq, ← Nat.mul_mod_mul_right, ← pow_add]
  rw [UInt64.toNat_or, UInt64.toNat_shiftLeft, UInt8.toNat_toUInt64]
  show (x.toNat <<< 8 % 2 ^ 64) ||| b.toNat = _
  rw [hshift, ← Nat.shiftLeft_add_eq_or_of_lt hb, Nat.shiftLeft_eq]
  omega

/-- The bytes of a word, shifted in from the most significant one on. -/
theorem toNat_foldl_shiftLeft (bs : List UInt8) (x : UInt64) :
    (bs.foldl (fun (word : UInt64) b => (word <<< 8) ||| b.toUInt64) x).toNat =
      (x.toNat * 256 ^ bs.length + bigEndianValue bs) % 2 ^ 64 := by
  induction bs generalizing x with
  | nil => simp [bigEndianValue, Nat.mod_eq_of_lt x.toNat_lt]
  | cons b bs ih =>
      have hsplit : x.toNat * 256 ^ (bs.length + 1) + (b.toNat * 256 ^ bs.length + bigEndianValue bs) =
          (x.toNat * 256 + b.toNat) * 256 ^ bs.length + bigEndianValue bs := by ring
      rw [List.foldl_cons, ih, toNat_shiftLeft_or, List.length_cons, bigEndianValue, hsplit]
      rw [Nat.add_mod, Nat.mod_mul_mod, ← Nat.add_mod]

/-- Above its last eight bytes a number has only zeros when it fits a word. -/
theorem take_zero_iff (bs : List UInt8) :
    (∀ b ∈ bs.take (bs.length - 8), b = 0) ↔ bigEndianValue bs < 2 ^ 64 := by
  have hsplit := bigEndianValue_append (bs.take (bs.length - 8)) (bs.drop (bs.length - 8))
  rw [List.take_append_drop] at hsplit
  have hlow := bigEndianValue_lt (bs.drop (bs.length - 8))
  rw [List.length_drop] at hsplit hlow
  rw [← bigEndianValue_eq_zero]
  by_cases hshort : bs.length ≤ 8
  · -- nothing stands above
    have hfits : 256 ^ bs.length ≤ 256 ^ 8 := Nat.pow_le_pow_right (by decide) hshort
    have hvalue := bigEndianValue_lt bs
    rw [Nat.sub_eq_zero_of_le hshort, List.take_zero]
    constructor
    · intro _
      exact hvalue.trans_le hfits
    · intro _
      rfl
  · have hwidth : bs.length - (bs.length - 8) = 8 := by omega
    rw [hwidth] at hsplit hlow
    omega

/-- The last eight bytes, shifted together, are the number when it fits a word. -/
theorem toNat_foldl_drop {bs : List UInt8} (h : bigEndianValue bs < 2 ^ 64) :
    ((bs.drop (bs.length - 8)).foldl (fun (word : UInt64) b => (word <<< 8) ||| b.toUInt64) 0).toNat =
      bigEndianValue bs := by
  have hhigh := bigEndianValue_eq_zero.2 ((take_zero_iff bs).2 h)
  have hsplit := bigEndianValue_append (bs.take (bs.length - 8)) (bs.drop (bs.length - 8))
  rw [List.take_append_drop, hhigh, Nat.zero_mul, Nat.zero_add] at hsplit
  rw [toNat_foldl_shiftLeft, ← hsplit, UInt64.toNat_zero, Nat.zero_mul, Nat.zero_add,
    Nat.mod_eq_of_lt h]

/-! ## Fixed-size arrays -/

/-- A byte array of `n` bytes. -/
structure FixedBytes (n : ℕ) where
  toList : List UInt8
  length_toList : toList.length = n
  deriving DecidableEq

namespace FixedBytes

variable {n : ℕ}

attribute [simp] length_toList

@[ext] theorem ext {a b : FixedBytes n} (h : a.toList = b.toList) : a = b := by
  cases a
  cases b
  simp_all

/-- The array of zero bytes. -/
def zero (n : ℕ) : FixedBytes n := ⟨List.replicate n 0, List.length_replicate⟩

/-- The big-endian encoding as an array. -/
def ofNat (n value : ℕ) : FixedBytes n := ⟨bigEndian n value, length_bigEndian n value⟩

/-- The array holding a byte string of the right length. -/
def ofList? (n : ℕ) (bs : List UInt8) : Option (FixedBytes n) :=
  if h : bs.length = n then some ⟨bs, h⟩ else none

theorem ofList?_eq_some {bs : List UInt8} {a : FixedBytes n} :
    ofList? n bs = some a ↔ bs = a.toList := by
  unfold ofList?
  split
  · rename_i h
    simp only [Option.some.injEq]
    constructor
    · rintro rfl
      rfl
    · intro hbs
      exact FixedBytes.ext hbs
  · rename_i h
    simp only [reduceCtorEq, false_iff]
    rintro rfl
    exact h a.length_toList

@[simp] theorem ofList?_toList (a : FixedBytes n) : ofList? n a.toList = some a :=
  ofList?_eq_some.2 rfl

/-- The integer the array spells. -/
def value (a : FixedBytes n) : ℕ := bigEndianValue a.toList

theorem value_ofNat {width n : ℕ} (h : n < 256 ^ width) : (ofNat width n).value = n :=
  bigEndianValue_bigEndian_of_lt h

theorem value_lt (a : FixedBytes n) : a.value < 256 ^ n := by
  have h := bigEndianValue_lt a.toList
  rwa [a.length_toList] at h

@[simp] theorem bigEndian_value (a : FixedBytes n) : bigEndian n a.value = a.toList := by
  have h := bigEndian_bigEndianValue a.toList
  rwa [a.length_toList] at h

/-- Arrays are ordered by their bytes, the first byte first. -/
instance : Ord (FixedBytes n) where
  compare a b := compare a.toList b.toList

theorem compare_def (a b : FixedBytes n) : compare a b = compare a.toList b.toList := rfl

instance : Std.TransOrd (FixedBytes n) where
  eq_swap {a b} := by
    rw [compare_def, compare_def]
    exact Std.OrientedCmp.eq_swap
  isLE_trans {a b c} hab hbc := by
    rw [compare_def] at hab hbc ⊢
    exact Std.TransCmp.isLE_trans hab hbc

/-- The order of the arrays that have the size of a digest, under its own name. -/
instance transOrdDigest : Std.TransOrd (FixedBytes 32) := inferInstance

instance : Std.LawfulEqOrd (FixedBytes n) where
  compare_self {a} := by
    rw [compare_def]
    exact Std.ReflCmp.compare_self
  eq_of_compare {a b} h := by
    rw [compare_def] at h
    exact FixedBytes.ext (Std.LawfulEqCmp.eq_of_compare h)

end FixedBytes

/-! ## Fields at fixed offsets -/

/-- The integer in `width` bytes from an offset on. -/
def fieldValue (raw : List UInt8) (offset width : ℕ) : ℕ :=
  bigEndianValue ((raw.drop offset).take width)

/-- In a string of fields, the one at an index starts after those before it. -/
theorem fieldValue_flatten {fields : List (List UInt8)} {i : ℕ} {field : List UInt8}
    (h : fields[i]? = some field) {offset width : ℕ}
    (hoffset : ((fields.map List.length).take i).sum = offset) (hwidth : field.length = width) :
    fieldValue fields.flatten offset width = bigEndianValue field := by
  obtain ⟨hi, rfl⟩ := List.getElem?_eq_some_iff.1 h
  have hsplit : fields.flatten =
      (fields.take i).flatten ++ (fields[i] ++ (fields.drop (i + 1)).flatten) := by
    conv_lhs => rw [← List.take_append_drop i fields, List.drop_eq_getElem_cons hi]
    rw [List.flatten_append, List.flatten_cons]
  have hbefore : (fields.take i).flatten.length = offset := by
    rw [List.length_flatten, List.map_take, hoffset]
  rw [fieldValue, hsplit, List.drop_left' hbefore, List.take_left' hwidth]

/-- A field inside a string is a field of every extension of it. -/
theorem fieldValue_append {raw : List UInt8} (rest : List UInt8) {offset width : ℕ}
    (h : offset + width ≤ raw.length) :
    fieldValue (raw ++ rest) offset width = fieldValue raw offset width := by
  rw [fieldValue, fieldValue, List.drop_append_of_le_length (by omega),
    List.take_append_of_le_length (by simp; omega)]

/-! ## Slices -/

/-- The bytes from `lo` up to `hi`, absent when the range leaves the string. -/
def slice? (raw : List UInt8) (lo hi : ℕ) : Option (List UInt8) :=
  if lo ≤ hi ∧ hi ≤ raw.length then some ((raw.drop lo).take (hi - lo)) else none

theorem slice?_of_le {raw : List UInt8} {lo hi : ℕ} (hlo : lo ≤ hi) (hhi : hi ≤ raw.length) :
    slice? raw lo hi = some ((raw.drop lo).take (hi - lo)) :=
  if_pos ⟨hlo, hhi⟩

/-- A slice is what stands between the rests at its two ends. -/
theorem slice?_eq_some {raw bs : List UInt8} {lo hi : ℕ} :
    slice? raw lo hi = some bs ↔
      lo ≤ hi ∧ hi ≤ raw.length ∧ bs.length = hi - lo ∧ raw.drop lo = bs ++ raw.drop hi := by
  constructor
  · intro h
    unfold slice? at h
    split at h
    · rename_i hrange
      obtain ⟨hlo, hhi⟩ := hrange
      cases h
      refine ⟨hlo, hhi, by simp; omega, ?_⟩
      have hsplit := List.take_append_drop (hi - lo) (raw.drop lo)
      rw [List.drop_drop, Nat.add_sub_cancel' hlo] at hsplit
      exact hsplit.symm
    · cases h
  · rintro ⟨hlo, hhi, hlen, hdrop⟩
    rw [slice?_of_le hlo hhi, hdrop, List.take_left' hlen]

/-! ## Counters -/

/-- A counter below a quota can be advanced. -/
theorem toNat_succ_of_lt {count k : UInt32} (h : count < k) :
    (count + 1).toNat = count.toNat + 1 := by
  have hlt := UInt32.lt_iff_toNat_lt.1 h
  have hk := k.toNat_lt
  rw [UInt32.toNat_add]
  exact Nat.mod_eq_of_lt (by simp; omega)

end Lktrs.Foundation
