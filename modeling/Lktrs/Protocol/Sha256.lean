import Lktrs.Protocol.Elements

/-!
# The SHA-256 of the C++ side

`crypto/sha256.cpp`: the whole blocks of the message are compressed where they stand, and
a buffer of 128 bytes takes what remains, the marker, the zeros and the length. Every
access to the message and to the buffer can fail here, so that a result also says that no
index was out of range. The loop takes the compression as a parameter: for every
compression it goes through the blocks of the padded message in order (`stream_eq`), and
with that of the source it gives the hash of the standard (`sha256_standard`).
-/

set_option autoImplicit false

namespace Lktrs.Protocol.Sha256

open Lktrs.Foundation (bigEndian bigEndianValue length_bigEndian)
open Lktrs.Foundation.Sha256 (Word HashState)

/-! ## Compression -/

/-- The table `K`. -/
def K : List Word :=
  [0x428a2f98, 0x71374491, 0xb5c0fbcf, 0xe9b5dba5, 0x3956c25b, 0x59f111f1,
   0x923f82a4, 0xab1c5ed5, 0xd807aa98, 0x12835b01, 0x243185be, 0x550c7dc3,
   0x72be5d74, 0x80deb1fe, 0x9bdc06a7, 0xc19bf174, 0xe49b69c1, 0xefbe4786,
   0x0fc19dc6, 0x240ca1cc, 0x2de92c6f, 0x4a7484aa, 0x5cb0a9dc, 0x76f988da,
   0x983e5152, 0xa831c66d, 0xb00327c8, 0xbf597fc7, 0xc6e00bf3, 0xd5a79147,
   0x06ca6351, 0x14292967, 0x27b70a85, 0x2e1b2138, 0x4d2c6dfc, 0x53380d13,
   0x650a7354, 0x766a0abb, 0x81c2c92e, 0x92722c85, 0xa2bfe8a1, 0xa81a664b,
   0xc24b8b70, 0xc76c51a3, 0xd192e819, 0xd6990624, 0xf40e3585, 0x106aa070,
   0x19a4c116, 0x1e376c08, 0x2748774c, 0x34b0bcb5, 0x391c0cb3, 0x4ed8aa4a,
   0x5b9cca4f, 0x682e6ff3, 0x748f82ee, 0x78a5636f, 0x84c87814, 0x8cc70208,
   0x90befffa, 0xa4506ceb, 0xbef9a3f7, 0xc67178f2]

/-- The state `INIT`. -/
def INIT : HashState :=
  ⟨0x6a09e667, 0xbb67ae85, 0x3c6ef372, 0xa54ff53a, 0x510e527f, 0x9b05688c, 0x1f83d9ab, 0x5be0cd19⟩

/-- `rotr`. -/
def rotr (value : Word) (count : ℕ) : Word := (value >>> count) ||| (value <<< (32 - count))

/-- The byte at an index, as a word. -/
def byteAt (buffer : List UInt8) (index : ℕ) : Option Word :=
  buffer[index]?.map fun byte => BitVec.ofNat 32 byte.toNat

/-- The word `w[i]` of the first loop, from the four bytes at an index. -/
def loadWord (buffer : List UInt8) (index : ℕ) : Option Word := do
  let b0 ← byteAt buffer index
  let b1 ← byteAt buffer (index + 1)
  let b2 ← byteAt buffer (index + 2)
  let b3 ← byteAt buffer (index + 3)
  pure ((b0 <<< 24) ||| (b1 <<< 16) ||| (b2 <<< 8) ||| b3)

/-- The word `w[i]` of the second loop, when `w` holds the words before it. -/
def nextWord (w : List Word) : Word :=
  let i := w.length
  let s0 := rotr (w.getD (i - 15) 0) 7 ^^^ rotr (w.getD (i - 15) 0) 18 ^^^ (w.getD (i - 15) 0 >>> 3)
  let s1 := rotr (w.getD (i - 2) 0) 17 ^^^ rotr (w.getD (i - 2) 0) 19 ^^^ (w.getD (i - 2) 0 >>> 10)
  w.getD (i - 16) 0 + s0 + w.getD (i - 7) 0 + s1

/-- The second loop, for `n` further words. -/
def extendWords : ℕ → List Word → List Word
  | 0, w => w
  | n + 1, w => extendWords n (w ++ [nextWord w])

/-- The body of the third loop. -/
def step (s : HashState) (k w : Word) : HashState :=
  let s1 := rotr s.e 6 ^^^ rotr s.e 11 ^^^ rotr s.e 25
  let ch := (s.e &&& s.f) ^^^ (~~~s.e &&& s.g)
  let t1 := s.h + s1 + ch + k + w
  let s0 := rotr s.a 2 ^^^ rotr s.a 13 ^^^ rotr s.a 22
  let maj := (s.a &&& s.b) ^^^ (s.a &&& s.c) ^^^ (s.b &&& s.c)
  let t2 := s0 + maj
  ⟨t1 + t2, s.a, s.b, s.c, s.d + t1, s.e, s.f, s.g⟩

/-- `compress` of the sixty-four bytes at an index. -/
def compress (state : HashState) (buffer : List UInt8) (base : ℕ) : Option HashState := do
  let loaded ← (List.range 16).mapM fun i => loadWord buffer (base + 4 * i)
  let w := extendWords 48 loaded
  let t := (List.range 64).foldl (fun s i => step s (K.getD i 0) (w.getD i 0)) state
  pure ⟨state.a + t.a, state.b + t.b, state.c + t.c, state.d + t.d, state.e + t.e, state.f + t.f,
    state.g + t.g, state.h + t.h⟩

/-! ## The loop over the message -/

/-- Assign a byte of a buffer. -/
def writeAt (buffer : List UInt8) (index : ℕ) (byte : UInt8) : Option (List UInt8) :=
  if index < buffer.length then some (buffer.set index byte) else none

section Stream

variable {σ : Type} (compress : σ → List UInt8 → ℕ → Option σ)

/-- The loop over the whole blocks; returns the state and the offset. -/
def absorb (data : List UInt8) (state : σ) (offset : ℕ) : Option (σ × ℕ) :=
  if 64 ≤ data.length - offset then do
    let state ← compress state data offset
    absorb data state (offset + 64)
  else some (state, offset)
termination_by data.length - offset

/-- The number of blocks in the tail. -/
def tailBlocks (remaining : ℕ) : ℕ := if remaining < 56 then 1 else 2

/-- The tail: the rest of the message, the marker and the bit length. -/
def makeTail (data : List UInt8) (offset : ℕ) : Option (List UInt8) := do
  let remaining := data.length - offset
  let tail ← (List.range remaining).foldlM (fun tail i => do
    let byte ← data[offset + i]?
    writeAt tail i byte) (List.replicate 128 0)
  let tail ← writeAt tail remaining 0x80
  let bitLength : UInt64 := UInt64.ofNat data.length * 8
  let last := tailBlocks remaining * 64 - 8
  (List.range 8).foldlM (fun tail i =>
    writeAt tail (last + i) (bitLength >>> UInt64.ofNat (56 - 8 * i)).toUInt8) tail

/-- What `sha256` does before it writes the digest. -/
def stream (init : σ) (data : List UInt8) : Option σ := do
  let (state, offset) ← absorb compress data init 0
  let tail ← makeTail data offset
  (List.range (tailBlocks (data.length - offset))).foldlM
    (fun state i => compress state tail (i * 64)) state

end Stream

/-- The four bytes of a word, as the last loop writes them. -/
def wordBytes (x : Word) : List UInt8 :=
  [(x >>> 24).toNat.toUInt8, (x >>> 16).toNat.toUInt8, (x >>> 8).toNat.toUInt8, x.toNat.toUInt8]

/-- `sha256`. -/
def sha256 (data : List UInt8) : Option (List UInt8) := do
  let s ← stream compress INIT data
  pure (wordBytes s.a ++ wordBytes s.b ++ wordBytes s.c ++ wordBytes s.d ++ wordBytes s.e ++
    wordBytes s.f ++ wordBytes s.g ++ wordBytes s.h)

/-! ## The compression is that of the standard -/

theorem rotr_eq {count : ℕ} (h : count < 32) (x : Word) : rotr x count = x.rotateRight count := by
  rw [rotr, BitVec.rotateRight_def, Nat.mod_eq_of_lt h]

theorem step_eq (s : HashState) (k w : Word) : step s k w = Foundation.Sha256.round s (k, w) := by
  simp only [step, Foundation.Sha256.round, Foundation.Sha256.bigSigma0, Foundation.Sha256.bigSigma1,
    Foundation.Sha256.choose, Foundation.Sha256.majority, rotr_eq (by decide : 2 < 32),
    rotr_eq (by decide : 13 < 32), rotr_eq (by decide : 22 < 32), rotr_eq (by decide : 6 < 32),
    rotr_eq (by decide : 11 < 32), rotr_eq (by decide : 25 < 32)]

/-- One byte is shifted into a word. -/
theorem shiftLeft_or_byte (n : ℕ) (b : UInt8) :
    (BitVec.ofNat 32 n <<< 8) ||| BitVec.ofNat 32 b.toNat = BitVec.ofNat 32 (n * 256 + b.toNat) := by
  have hb : b.toNat < 2 ^ 8 := b.toNat_lt
  have hshift : BitVec.ofNat 32 n <<< 8 = BitVec.ofNat 32 (n <<< 8) := by
    apply BitVec.eq_of_toNat_eq
    simp only [BitVec.toNat_shiftLeft, BitVec.toNat_ofNat, Nat.shiftLeft_eq, Nat.mod_mul_mod]
  rw [hshift, ← BitVec.ofNat_or, ← Nat.shiftLeft_add_eq_or_of_lt hb, Nat.shiftLeft_eq]

/-- The shifts of the first loop, one byte at a time. -/
theorem shiftLeft_bytes (w0 w1 w2 w3 : Word) :
    ((w0 <<< 24) ||| (w1 <<< 16) ||| (w2 <<< 8) ||| w3) =
      ((((w0 <<< 8) ||| w1) <<< 8 ||| w2) <<< 8) ||| w3 := by
  rw [BitVec.shiftLeft_or_distrib, BitVec.shiftLeft_or_distrib, BitVec.shiftLeft_or_distrib,
    ← BitVec.shiftLeft_add, ← BitVec.shiftLeft_add, ← BitVec.shiftLeft_add]

theorem loadWord_eq {buffer : List UInt8} {index : ℕ} (h : index + 4 ≤ buffer.length) :
    loadWord buffer index =
      some (BitVec.ofNat 32 (bigEndianValue ((buffer.drop index).take 4))) := by
  have hlength : 4 ≤ (buffer.drop index).length := by rw [List.length_drop]; omega
  have hbyte : ∀ k, byteAt buffer (index + k) =
      (buffer.drop index)[k]?.map fun byte => BitVec.ofNat 32 byte.toNat := by
    intro k
    rw [byteAt, List.getElem?_drop]
  have hfirst := hbyte 0
  rw [Nat.add_zero] at hfirst
  rw [loadWord, hfirst, hbyte 1, hbyte 2, hbyte 3]
  match buffer.drop index, hlength with
  | b0 :: b1 :: b2 :: b3 :: rest, _ =>
    show some _ = some _
    rw [shiftLeft_bytes, shiftLeft_or_byte, shiftLeft_or_byte, shiftLeft_or_byte]
    simp only [List.take_succ_cons, List.take_zero, bigEndianValue, List.length_cons,
      List.length_nil]
    ring_nf

/-- The first loop reads the words of the block. -/
theorem mapM_loadWord (buffer : List UInt8) (n base : ℕ) (h : base + 4 * n ≤ buffer.length) :
    (List.range n).mapM (fun i => loadWord buffer (base + 4 * i)) =
      some (Foundation.Sha256.readWords n (buffer.drop base)) := by
  induction n generalizing base with
  | zero => rfl
  | succ n ih =>
      have hrest : (fun i => loadWord buffer (base + 4 * i)) ∘ Nat.succ =
          fun i => loadWord buffer (base + 4 + 4 * i) := by
        funext i
        show loadWord buffer (base + 4 * (i + 1)) = _
        congr 1
        omega
      rw [List.range_succ_eq_map, List.mapM_cons, List.mapM_map, hrest, ih (base + 4) (by omega),
        Nat.mul_zero, Nat.add_zero, loadWord_eq (by omega), ← List.drop_drop]
      rfl

/-- Only the bytes of the words are read. -/
theorem readWords_take (n : ℕ) (bs : List UInt8) :
    Foundation.Sha256.readWords n (bs.take (4 * n)) = Foundation.Sha256.readWords n bs := by
  induction n generalizing bs with
  | zero => rfl
  | succ n ih =>
      have htake : (bs.take (4 * (n + 1))).take 4 = bs.take 4 := by
        rw [List.take_take, Nat.min_eq_left (by omega)]
      have hdrop : (bs.take (4 * (n + 1))).drop 4 = (bs.drop 4).take (4 * n) := by
        rw [List.drop_take]
        congr 1
      rw [Foundation.Sha256.readWords, htake, hdrop, ih, Foundation.Sha256.readWords]

@[simp] theorem length_readWords (n : ℕ) (bs : List UInt8) :
    (Foundation.Sha256.readWords n bs).length = n := by
  induction n generalizing bs with
  | zero => rfl
  | succ n ih => simp [Foundation.Sha256.readWords, ih]

/-- A position counted from the end is a position of the reversed list. -/
theorem getD_reverse {w : List Word} {k : ℕ} (h : k < w.length) :
    w.reverse.getD k 0 = w.getD (w.length - (k + 1)) 0 := by
  rw [List.getD_eq_getElem?_getD, List.getD_eq_getElem?_getD, List.getElem?_reverse h]
  congr 2
  omega

theorem nextWord_eq {w : List Word} (h : 16 ≤ w.length) :
    nextWord w = Foundation.Sha256.smallSigma1 (w.reverse.getD 1 0) + w.reverse.getD 6 0 +
      Foundation.Sha256.smallSigma0 (w.reverse.getD 14 0) + w.reverse.getD 15 0 := by
  rw [getD_reverse (by omega), getD_reverse (by omega), getD_reverse (by omega),
    getD_reverse (by omega)]
  simp only [nextWord, Foundation.Sha256.smallSigma0, Foundation.Sha256.smallSigma1,
    rotr_eq (by decide : 7 < 32), rotr_eq (by decide : 18 < 32), rotr_eq (by decide : 17 < 32),
    rotr_eq (by decide : 19 < 32)]
  ac_rfl

/-- The second loop: the words so far stand in the order of their indices here, newest
first in the recurrence of the standard. -/
theorem extendWords_eq (n : ℕ) {w : List Word} (h : 16 ≤ w.length) :
    extendWords n w = (Foundation.Sha256.extendSchedule n w.reverse).reverse := by
  induction n generalizing w with
  | zero => simp [extendWords, Foundation.Sha256.extendSchedule]
  | succ n ih =>
      rw [extendWords, ih (by simp; omega), Foundation.Sha256.extendSchedule, ← nextWord_eq h,
        List.reverse_append]
      rfl

theorem length_extendWords (n : ℕ) (w : List Word) :
    (extendWords n w).length = n + w.length := by
  induction n generalizing w with
  | zero => simp [extendWords]
  | succ n ih =>
      rw [extendWords, ih, List.length_append, List.length_singleton]
      omega

theorem K_eq : K = Foundation.Sha256.roundConstants := rfl

/-- A loop over the indices of two tables is a fold over their pairs. -/
theorem foldl_range_getD {β : Type} (f : β → Word × Word → β) (s : β) {n : ℕ} {xs ys : List Word}
    (hx : xs.length = n) (hy : ys.length = n) :
    (List.range n).foldl (fun s i => f s (xs.getD i 0, ys.getD i 0)) s = (xs.zip ys).foldl f s := by
  have hzip : xs.zip ys = (List.range n).map fun i => (xs.getD i 0, ys.getD i 0) := by
    apply List.ext_getElem
    · simp [hx, hy]
    · intro i h1 h2
      simp only [List.length_zip, hx, hy, Nat.min_self] at h1
      simp [List.getD_eq_getElem?_getD, hx, hy, h1]
  rw [hzip, List.foldl_map]

/-- The block that the source's `compress` reads, compressed as the standard does. -/
def compressBlock (s : HashState) (block : List UInt8) : HashState :=
  Foundation.Sha256.compress s (Foundation.Sha256.readWords 16 block)

theorem compress_eq (state : HashState) {buffer : List UInt8} {base : ℕ}
    (h : base + 64 ≤ buffer.length) :
    compress state buffer base = some (compressBlock state ((buffer.drop base).take 64)) := by
  have hwords : 16 ≤ (Foundation.Sha256.readWords 16 (buffer.drop base)).length :=
    (length_readWords 16 _).ge
  have hschedule : extendWords 48 (Foundation.Sha256.readWords 16 (buffer.drop base)) =
      Foundation.Sha256.schedule (Foundation.Sha256.readWords 16 ((buffer.drop base).take 64)) := by
    rw [extendWords_eq 48 hwords, Foundation.Sha256.schedule, readWords_take 16]
  have hlength := length_extendWords 48 (Foundation.Sha256.readWords 16 (buffer.drop base))
  rw [length_readWords, hschedule] at hlength
  rw [compress, mapM_loadWord buffer 16 base h]
  simp only [Option.bind_eq_bind, Option.bind_some, hschedule, step_eq]
  rw [foldl_range_getD Foundation.Sha256.round state (K_eq ▸ rfl : K.length = 64) hlength]
  rfl

/-! ## The tail -/

/-- The loop that fills part of a buffer: the bytes around the part stay. The invariant
is that the first `n` bytes of the part are the new ones. -/
theorem foldlM_writeAt (write : List UInt8 → ℕ → Option (List UInt8))
    (pre old xs post : List UInt8) (hlength : old.length = xs.length)
    (hwrite : ∀ buffer i (h : i < xs.length), write buffer i = writeAt buffer (pre.length + i) xs[i]) :
    (List.range xs.length).foldlM write (pre ++ old ++ post) = some (pre ++ xs ++ post) := by
  have hprogress : ∀ n ≤ xs.length, (List.range n).foldlM write (pre ++ old ++ post) =
      some (pre ++ (xs.take n ++ old.drop n) ++ post) := by
    intro n
    induction n with
    | zero => intro _; simp
    | succ n ih =>
        intro hn
        have hold : n < old.length := by omega
        have htake : (xs.take n).length = n := by rw [List.length_take]; omega
        rw [List.range_succ, List.foldlM_append, ih (by omega)]
        simp only [Option.bind_eq_bind, Option.bind_some, List.foldlM_cons, List.foldlM_nil,
          hwrite _ n hn]
        rw [writeAt, if_pos (by simp; omega)]
        simp only [Option.bind_some, Option.pure_def]
        -- the byte written is the first of the old ones that remain
        rw [List.drop_eq_getElem_cons hold, List.append_assoc pre, List.set_append_right _ _ (by omega),
          Nat.add_sub_cancel_left, List.append_assoc (xs.take n), List.set_append_right _ _ (by omega),
          htake, Nat.sub_self, List.take_add_one, List.getElem?_eq_getElem hn, List.cons_append,
          List.set_cons_zero]
        simp only [Option.toList_some, List.append_assoc, List.cons_append, List.nil_append]
  have hall := hprogress xs.length le_rfl
  rwa [List.take_length, ← hlength, List.drop_length, List.append_nil, hlength] at hall

/-- A byte of the bit length, by its place from the end. -/
theorem bitLength_byte (length : ℕ) {k : ℕ} (hk : k < 8) :
    ((UInt64.ofNat length * 8) >>> UInt64.ofNat (8 * k)).toUInt8 =
      UInt8.ofNat (8 * length / 256 ^ k) := by
  have h8 : (8 : UInt64).toNat = 8 := rfl
  have hword : (UInt64.ofNat length * 8).toNat = 8 * length % 2 ^ 64 := by
    rw [UInt64.toNat_mul, UInt64.toNat_ofNat', h8]
    omega
  have hshift : 8 * k % 2 ^ 64 % 64 = 8 * k := by omega
  -- the word has sixty-four bits, so the byte at `8 * k` is not cut off
  have hsplit : 2 ^ 64 = 2 ^ (8 * k) * 2 ^ (64 - 8 * k) := by
    rw [← pow_add]
    congr 1
    omega
  have hfits : 2 ^ 8 ∣ 2 ^ (64 - 8 * k) := Nat.pow_dvd_pow 2 (by omega)
  apply UInt8.toNat_inj.1
  rw [UInt64.toNat_toUInt8, UInt64.toNat_shiftRight, UInt64.toNat_ofNat', UInt8.toNat_ofNat', hword,
    hshift, Nat.shiftRight_eq_div_pow, hsplit, Nat.mod_mul_right_div_self,
    Nat.mod_mod_of_dvd _ hfits, pow_mul]
  norm_num

/-- The eight bytes of the bit length, as the loop writes them. -/
theorem bitLength_bytes (length : ℕ) {i : ℕ} (h : i < (bigEndian 8 (8 * length)).length) :
    ((UInt64.ofNat length * 8) >>> UInt64.ofNat (56 - 8 * i)).toUInt8 =
      (bigEndian 8 (8 * length))[i] := by
  have hi : i < 8 := by rwa [length_bigEndian] at h
  rw [show 56 - 8 * i = 8 * (7 - i) by omega, bitLength_byte length (by omega)]
  simp only [bigEndian]
  interval_cases i <;> rfl

/-- What follows the whole blocks in the padded message. -/
def tailBytes (data : List UInt8) (offset : ℕ) : List UInt8 :=
  data.drop offset ++ 0x80 :: List.replicate (Foundation.Sha256.paddingZeros data.length) 0 ++
    bigEndian 8 (8 * data.length)

/-- The tail fills its blocks: one when the marker and the length fit the first. -/
theorem length_tailBytes {data : List UInt8} {offset : ℕ} (hoffset : 64 ∣ offset)
    (hle : offset ≤ data.length) (hrest : data.length - offset < 64) :
    (tailBytes data offset).length = 64 * tailBlocks (data.length - offset) := by
  have hmod : data.length % 64 = data.length - offset := by omega
  simp only [tailBytes, Foundation.Sha256.paddingZeros, hmod, List.length_append, List.length_cons,
    List.length_replicate, List.length_drop, length_bigEndian, tailBlocks]
  split_ifs <;> omega

/-- The first loop of the tail copies the rest of the message. -/
theorem copy_rest {data : List UInt8} {offset : ℕ} (hrest : data.length - offset < 64) :
    (List.range (data.length - offset)).foldlM (fun tail i => do
      let byte ← data[offset + i]?
      writeAt tail i byte) (List.replicate 128 0) =
        some (data.drop offset ++ List.replicate (128 - (data.length - offset)) 0) := by
  have hlength : (data.drop offset).length = data.length - offset := List.length_drop
  have hzeros : List.replicate 128 (0 : UInt8) = [] ++ List.replicate (data.length - offset) 0 ++
      List.replicate (128 - (data.length - offset)) 0 := by
    rw [List.nil_append, List.replicate_append_replicate, Nat.add_sub_cancel' (by omega)]
  rw [hzeros, ← hlength]
  refine foldlM_writeAt _ [] _ (data.drop offset) _ (by simp) fun buffer i hi => ?_
  rw [← List.getElem?_drop, List.getElem?_eq_getElem hi, List.length_nil, Nat.zero_add]
  rfl

/-- No index of the tail is out of range, and its first blocks are the end of the padded
message. -/
theorem makeTail_eq {data : List UInt8} {offset : ℕ} (hoffset : 64 ∣ offset)
    (hle : offset ≤ data.length) (hrest : data.length - offset < 64) :
    makeTail data offset = some (tailBytes data offset ++
      List.replicate (128 - 64 * tailBlocks (data.length - offset)) 0) := by
  have hlength := length_tailBytes hoffset hle hrest
  have hblocks : tailBlocks (data.length - offset) ≤ 2 := by rw [tailBlocks]; split_ifs <;> omega
  simp only [tailBytes, List.length_append, List.length_cons, List.length_replicate,
    List.length_drop, length_bigEndian] at hlength
  -- the marker takes the first zero after the message
  have hmarker : writeAt (data.drop offset ++ List.replicate (128 - (data.length - offset)) 0)
      (data.length - offset) 0x80 = some (data.drop offset ++
        0x80 :: List.replicate (127 - (data.length - offset)) 0) := by
    rw [writeAt, if_pos (by simp; omega), List.set_append_right _ _ (by simp), List.length_drop,
      Nat.sub_self, show 128 - (data.length - offset) = 127 - (data.length - offset) + 1 by omega,
      List.replicate_succ, List.set_cons_zero]
  -- the length takes the last eight bytes of the last block
  have hzeros : data.drop offset ++ 0x80 :: List.replicate (127 - (data.length - offset)) 0 =
      (data.drop offset ++ 0x80 :: List.replicate (Foundation.Sha256.paddingZeros data.length) 0) ++
        List.replicate 8 0 ++ List.replicate (128 - 64 * tailBlocks (data.length - offset)) 0 := by
    rw [List.append_assoc, List.replicate_append_replicate, List.append_assoc, List.cons_append,
      List.replicate_append_replicate]
    congr 3
    omega
  have hlast : (data.drop offset ++
      0x80 :: List.replicate (Foundation.Sha256.paddingZeros data.length) 0).length =
        tailBlocks (data.length - offset) * 64 - 8 := by
    simp only [List.length_append, List.length_cons, List.length_replicate, List.length_drop]
    omega
  have hfill := foldlM_writeAt (fun tail i =>
      writeAt tail (tailBlocks (data.length - offset) * 64 - 8 + i)
        ((UInt64.ofNat data.length * 8) >>> UInt64.ofNat (56 - 8 * i)).toUInt8)
    (data.drop offset ++ 0x80 :: List.replicate (Foundation.Sha256.paddingZeros data.length) 0)
    (List.replicate 8 0) (bigEndian 8 (8 * data.length))
    (List.replicate (128 - 64 * tailBlocks (data.length - offset)) 0) (by simp)
    (fun buffer i hi => by rw [hlast, bitLength_bytes data.length hi])
  rw [length_bigEndian, ← hzeros] at hfill
  unfold makeTail
  dsimp only
  rw [copy_rest hrest]
  simp only [Option.bind_eq_bind, Option.bind_some, hmarker]
  rw [hfill, tailBytes]

/-! ## The blocks of the padded message -/

/-- The blocks of a byte string, `n` of them from an offset on. -/
def blocksFrom (bs : List UInt8) (offset n : ℕ) : List (List UInt8) :=
  (List.range n).map fun i => (bs.drop (offset + 64 * i)).take 64

/-- The blocks of a byte string whose length is a multiple of sixty-four. -/
def blocks (bs : List UInt8) : List (List UInt8) := blocksFrom bs 0 (bs.length / 64)

theorem blocksFrom_succ (bs : List UInt8) (offset n : ℕ) :
    blocksFrom bs offset (n + 1) = (bs.drop offset).take 64 :: blocksFrom bs (offset + 64) n := by
  rw [blocksFrom, List.range_succ_eq_map, List.map_cons, List.map_map, Nat.mul_zero, Nat.add_zero,
    blocksFrom]
  congr 1
  apply List.map_congr_left
  intro i _
  show (bs.drop (offset + 64 * (i + 1))).take 64 = _
  congr 2
  omega

/-- What follows the blocks does not change them. -/
theorem blocksFrom_append_left (xs ys : List UInt8) {offset n : ℕ}
    (h : offset + 64 * n ≤ xs.length) :
    blocksFrom (xs ++ ys) offset n = blocksFrom xs offset n := by
  apply List.map_congr_left
  intro i hi
  have hlt := List.mem_range.1 hi
  rw [List.drop_append_of_le_length (by omega), List.take_append_of_le_length]
  rw [List.length_drop]
  omega

/-- Blocks after a first part are blocks of the second. -/
theorem blocksFrom_append_right (xs ys : List UInt8) (n : ℕ) :
    blocksFrom (xs ++ ys) xs.length n = blocksFrom ys 0 n := by
  apply List.map_congr_left
  intro i _
  rw [List.drop_append, List.drop_of_length_le (by omega), List.nil_append, Nat.zero_add]
  congr 2
  omega

theorem blocksFrom_add (bs : List UInt8) (offset m n : ℕ) :
    blocksFrom bs offset (m + n) = blocksFrom bs offset m ++ blocksFrom bs (offset + 64 * m) n := by
  induction m generalizing offset with
  | zero => simp [blocksFrom]
  | succ m ih =>
      rw [show m + 1 + n = m + n + 1 by omega, blocksFrom_succ, ih, blocksFrom_succ,
        List.cons_append, show offset + 64 + 64 * m = offset + 64 * (m + 1) by omega]

/-- The standard folds its compression over the blocks. -/
theorem compressBlocks_eq (n : ℕ) (s : HashState) (bs : List UInt8) (offset : ℕ) :
    Foundation.Sha256.compressBlocks n s (bs.drop offset) =
      (blocksFrom bs offset n).foldl compressBlock s := by
  induction n generalizing s offset with
  | zero => rfl
  | succ n ih =>
      rw [blocksFrom_succ, List.foldl_cons, ← ih, Foundation.Sha256.compressBlocks, List.drop_drop]
      rfl

section Loop

variable {σ : Type} {compress : σ → List UInt8 → ℕ → Option σ} {block : σ → List UInt8 → σ}

/-- The loop over the whole blocks takes each of them once, in order. -/
theorem absorb_eq
    (hcompress : ∀ s buffer base, base + 64 ≤ buffer.length →
      compress s buffer base = some (block s ((buffer.drop base).take 64)))
    (data : List UInt8) (n : ℕ) (s : σ) (offset : ℕ) (hlow : offset + 64 * n ≤ data.length)
    (hhigh : data.length < offset + 64 * n + 64) :
    absorb compress data s offset =
      some ((blocksFrom data offset n).foldl block s, offset + 64 * n) := by
  induction n generalizing s offset with
  | zero =>
      rw [absorb, if_neg (by omega)]
      rfl
  | succ n ih =>
      rw [absorb, if_pos (by omega), hcompress s data offset (by omega)]
      simp only [Option.bind_eq_bind, Option.bind_some]
      rw [ih _ (offset + 64) (by omega) (by omega), blocksFrom_succ, List.foldl_cons]
      congr 2
      omega

/-- The last loop takes the blocks of the buffer. -/
theorem foldlM_blocks
    (hcompress : ∀ s buffer base, base + 64 ≤ buffer.length →
      compress s buffer base = some (block s ((buffer.drop base).take 64)))
    (buffer : List UInt8) (n : ℕ) (s : σ) (h : 64 * n ≤ buffer.length) :
    (List.range n).foldlM (fun s i => compress s buffer (i * 64)) s =
      some ((blocksFrom buffer 0 n).foldl block s) := by
  induction n with
  | zero => rfl
  | succ n ih =>
      rw [List.range_succ, List.foldlM_append, ih (by omega), blocksFrom_add, List.foldl_append]
      simp only [Option.bind_eq_bind, Option.bind_some, List.foldlM_cons, List.foldlM_nil,
        hcompress _ buffer (n * 64) (by omega), Option.pure_def]
      simp [blocksFrom, Nat.mul_comm]

/-- For every compression the loop and the tail go through exactly the blocks of the
padded message, in order, and no index is out of range. -/
theorem stream_eq
    (hcompress : ∀ s buffer base, base + 64 ≤ buffer.length →
      compress s buffer base = some (block s ((buffer.drop base).take 64)))
    (init : σ) (data : List UInt8) :
    stream compress init data = some ((blocks (Foundation.Sha256.pad data)).foldl block init) := by
  -- the whole blocks are read where they stand, up to this offset
  obtain ⟨n, hn⟩ : ∃ n, n = data.length / 64 := ⟨_, rfl⟩
  have hle : 64 * n ≤ data.length := by omega
  have hrest : data.length - 64 * n < 64 := by omega
  have htail := length_tailBytes (Dvd.intro n rfl) hle hrest
  have hpad : Foundation.Sha256.pad data = data.take (64 * n) ++ tailBytes data (64 * n) := by
    rw [Foundation.Sha256.pad, tailBytes, ← List.append_assoc, ← List.append_assoc,
      List.take_append_drop]
  have hwhole : (data.take (64 * n)).length = 64 * n := by rw [List.length_take]; omega
  have hcount : (Foundation.Sha256.pad data).length / 64 = n + tailBlocks (data.length - 64 * n) := by
    rw [hpad, List.length_append, hwhole, htail]
    omega
  have hfirst : blocksFrom (data.take (64 * n)) 0 n = blocksFrom data 0 n := by
    have happend := blocksFrom_append_left (data.take (64 * n)) (data.drop (64 * n))
      (by omega : 0 + 64 * n ≤ (data.take (64 * n)).length)
    rw [← happend, List.take_append_drop]
  have hlast := blocksFrom_append_right (data.take (64 * n)) (tailBytes data (64 * n))
    (tailBlocks (data.length - 64 * n))
  rw [hwhole] at hlast
  have hsplit : blocks (Foundation.Sha256.pad data) = blocksFrom data 0 n ++
      blocksFrom (tailBytes data (64 * n)) 0 (tailBlocks (data.length - 64 * n)) := by
    rw [blocks, hcount, blocksFrom_add, hpad, blocksFrom_append_left _ _ (by omega), hfirst,
      Nat.zero_add, hlast]
  have hwholeBlocks := absorb_eq hcompress data n init 0 (by omega) (by omega)
  rw [Nat.zero_add] at hwholeBlocks
  rw [stream, hwholeBlocks]
  simp only [Option.bind_eq_bind, Option.bind_some, makeTail_eq (Dvd.intro n rfl) hle hrest]
  rw [foldlM_blocks hcompress _ _ _ (by rw [List.length_append]; omega),
    blocksFrom_append_left _ _ (by omega), hsplit, List.foldl_append]

end Loop

/-! ## The hash -/

theorem wordBytes_eq (x : Word) : wordBytes x = bigEndian 4 x.toNat := by
  simp only [wordBytes, bigEndian, BitVec.toNat_ushiftRight, Nat.shiftRight_eq_div_pow]
  norm_num

/-- The padding is the least that completes a block. -/
theorem paddingZeros_isLeast (length : ℕ) :
    IsLeast {zeros | 64 ∣ length + 1 + zeros + 8} (Foundation.Sha256.paddingZeros length) := by
  constructor
  · show 64 ∣ length + 1 + Foundation.Sha256.paddingZeros length + 8
    rw [Foundation.Sha256.paddingZeros]
    omega
  · intro zeros hzeros
    have hdvd : 64 ∣ length + 1 + zeros + 8 := hzeros
    rw [Foundation.Sha256.paddingZeros]
    omega

/-- `sha256` is the hash of the standard: the fold of its compression over the blocks of
the padded message. The message is followed by the marker, the least number of zero bytes
that completes a block and the bit length; whatever is done with a block, the loop and
the tail meet exactly those blocks, in order, and every index into the message and into
the tail is in range. -/
theorem sha256_standard :
    (∀ data, sha256 data = some (Foundation.sha256 data).toList) ∧
    (∀ data, (Foundation.sha256 data).toList = (Foundation.Sha256.digest
      ((blocks (Foundation.Sha256.pad data)).foldl compressBlock
        Foundation.Sha256.initialState)).toList) ∧
    (∀ data, ∃ zeros, IsLeast {zeros | 64 ∣ data.length + 1 + zeros + 8} zeros ∧
      Foundation.Sha256.pad data =
        data ++ 0x80 :: List.replicate zeros 0 ++ bigEndian 8 (8 * data.length)) ∧
    ∀ (σ : Type) (block : σ → List UInt8 → σ) (init : σ) (data : List UInt8),
      stream (fun s buffer base =>
          if base + 64 ≤ buffer.length then some (block s ((buffer.drop base).take 64)) else none)
        init data = some ((blocks (Foundation.Sha256.pad data)).foldl block init) := by
  have hdigest : ∀ data, Foundation.sha256 data = Foundation.Sha256.digest
      ((blocks (Foundation.Sha256.pad data)).foldl compressBlock
        Foundation.Sha256.initialState) := by
    intro data
    rw [Foundation.sha256, blocks, ← compressBlocks_eq, List.drop_zero]
  refine ⟨fun data => ?_, fun data => by rw [hdigest data], fun data => ?_,
    fun σ block init data => ?_⟩
  · rw [sha256, stream_eq (fun s buffer base h => compress_eq s h), hdigest data]
    simp only [Option.bind_eq_bind, Option.bind_some, wordBytes_eq]
    rfl
  · exact ⟨_, paddingZeros_isLeast data.length, rfl⟩
  · exact stream_eq (fun s buffer base h => if_pos h) init data

end Lktrs.Protocol.Sha256
