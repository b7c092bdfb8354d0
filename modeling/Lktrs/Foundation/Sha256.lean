import Lktrs.Foundation.Bytes

/-!
# SHA-256

The hash function of FIPS 180-4 on byte strings: pad the message, split it into
64-byte blocks, fold the compression function over the blocks from the initial
state, and write the eight words of the final state in order. The protocols treat
`sha256` as a function about which nothing is known but its value on concrete
inputs, which the kernel computes; only the C++ implementation is compared with
it block by block.
-/

set_option autoImplicit false

namespace Lktrs.Foundation.Sha256

/-- A 32-bit word. -/
abbrev Word := BitVec 32

/-- The eight working variables. -/
structure HashState where
  a : Word
  b : Word
  c : Word
  d : Word
  e : Word
  f : Word
  g : Word
  h : Word
  deriving DecidableEq

/-! ## Functions and constants (FIPS 180-4, sections 4.1.2 and 4.2.2) -/

def choose (x y z : Word) : Word := (x &&& y) ^^^ (~~~x &&& z)

def majority (x y z : Word) : Word := (x &&& y) ^^^ (x &&& z) ^^^ (y &&& z)

def bigSigma0 (x : Word) : Word := x.rotateRight 2 ^^^ x.rotateRight 13 ^^^ x.rotateRight 22

def bigSigma1 (x : Word) : Word := x.rotateRight 6 ^^^ x.rotateRight 11 ^^^ x.rotateRight 25

def smallSigma0 (x : Word) : Word := x.rotateRight 7 ^^^ x.rotateRight 18 ^^^ (x >>> 3)

def smallSigma1 (x : Word) : Word := x.rotateRight 17 ^^^ x.rotateRight 19 ^^^ (x >>> 10)

/-- The round constants: fractional parts of the cube roots of the first 64 primes. -/
def roundConstants : List Word :=
  [0x428a2f98, 0x71374491, 0xb5c0fbcf, 0xe9b5dba5, 0x3956c25b, 0x59f111f1, 0x923f82a4, 0xab1c5ed5,
   0xd807aa98, 0x12835b01, 0x243185be, 0x550c7dc3, 0x72be5d74, 0x80deb1fe, 0x9bdc06a7, 0xc19bf174,
   0xe49b69c1, 0xefbe4786, 0x0fc19dc6, 0x240ca1cc, 0x2de92c6f, 0x4a7484aa, 0x5cb0a9dc, 0x76f988da,
   0x983e5152, 0xa831c66d, 0xb00327c8, 0xbf597fc7, 0xc6e00bf3, 0xd5a79147, 0x06ca6351, 0x14292967,
   0x27b70a85, 0x2e1b2138, 0x4d2c6dfc, 0x53380d13, 0x650a7354, 0x766a0abb, 0x81c2c92e, 0x92722c85,
   0xa2bfe8a1, 0xa81a664b, 0xc24b8b70, 0xc76c51a3, 0xd192e819, 0xd6990624, 0xf40e3585, 0x106aa070,
   0x19a4c116, 0x1e376c08, 0x2748774c, 0x34b0bcb5, 0x391c0cb3, 0x4ed8aa4a, 0x5b9cca4f, 0x682e6ff3,
   0x748f82ee, 0x78a5636f, 0x84c87814, 0x8cc70208, 0x90befffa, 0xa4506ceb, 0xbef9a3f7, 0xc67178f2]

/-- The initial hash value: fractional parts of the square roots of the first eight primes. -/
def initialState : HashState :=
  ⟨0x6a09e667, 0xbb67ae85, 0x3c6ef372, 0xa54ff53a, 0x510e527f, 0x9b05688c, 0x1f83d9ab, 0x5be0cd19⟩

/-! ## Compression (section 6.2.2) -/

/-- `n` further words of the message schedule. The words so far are kept newest
first, so the recurrence reads positions 2, 7, 15 and 16 back from the front. -/
def extendSchedule : ℕ → List Word → List Word
  | 0, w => w
  | n + 1, w =>
      extendSchedule n
        ((smallSigma1 (w.getD 1 0) + w.getD 6 0 + smallSigma0 (w.getD 14 0) + w.getD 15 0) :: w)

/-- The sixty-four schedule words of a block of sixteen words. -/
def schedule (block : List Word) : List Word := (extendSchedule 48 block.reverse).reverse

/-- One round, with its constant and its schedule word. -/
def round (s : HashState) (kw : Word × Word) : HashState :=
  let t1 := s.h + bigSigma1 s.e + choose s.e s.f s.g + kw.1 + kw.2
  let t2 := bigSigma0 s.a + majority s.a s.b s.c
  ⟨t1 + t2, s.a, s.b, s.c, s.d + t1, s.e, s.f, s.g⟩

/-- The compression function: sixty-four rounds, added to the chaining state. -/
def compress (s : HashState) (block : List Word) : HashState :=
  let t := (roundConstants.zip (schedule block)).foldl round s
  ⟨s.a + t.a, s.b + t.b, s.c + t.c, s.d + t.d, s.e + t.e, s.f + t.f, s.g + t.g, s.h + t.h⟩

/-! ## Padding and hashing (sections 5.1.1, 5.2.1 and 6.2.2) -/

/-- The least number of zero bytes that completes a block after the marker byte
and before the eight length bytes. -/
def paddingZeros (length : ℕ) : ℕ := (119 - length % 64) % 64

/-- The padded message. -/
def pad (message : List UInt8) : List UInt8 :=
  message ++ 0x80 :: List.replicate (paddingZeros message.length) 0 ++
    bigEndian 8 (8 * message.length)

/-- `n` big-endian words read off a byte string. -/
def readWords : ℕ → List UInt8 → List Word
  | 0, _ => []
  | n + 1, bs => BitVec.ofNat 32 (bigEndianValue (bs.take 4)) :: readWords n (bs.drop 4)

/-- Fold the compression function over `n` blocks of 64 bytes. -/
def compressBlocks : ℕ → HashState → List UInt8 → HashState
  | 0, s, _ => s
  | n + 1, s, bs => compressBlocks n (compress s (readWords 16 (bs.take 64))) (bs.drop 64)

/-- The final state as thirty-two bytes. -/
def digest (s : HashState) : FixedBytes 32 :=
  ⟨bigEndian 4 s.a.toNat ++ bigEndian 4 s.b.toNat ++ bigEndian 4 s.c.toNat ++
    bigEndian 4 s.d.toNat ++ bigEndian 4 s.e.toNat ++ bigEndian 4 s.f.toNat ++
    bigEndian 4 s.g.toNat ++ bigEndian 4 s.h.toNat, by simp⟩

end Sha256

/-- SHA-256 of a byte string. -/
def sha256 (message : List UInt8) : FixedBytes 32 :=
  Sha256.digest (Sha256.compressBlocks ((Sha256.pad message).length / 64) Sha256.initialState
    (Sha256.pad message))

/-- The example of FIPS 180-4 for a one-block message. -/
example : (sha256 (textBytes "abc")).value =
    0xba7816bf8f01cfea414140de5dae2223b00361a396177a9cb410ff61f20015ad := by
  decide +kernel

end Lktrs.Foundation
