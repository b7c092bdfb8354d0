import Lktrs.Foundation.Primality
import Lktrs.Protocol.Hashing

/-!
# The group `G_p`

`crypto/ddh.cpp`: the wrapper of the Ristretto group, its scalars modulo
`ristrettoOrder` (proved prime from Lucas certificates) and the two derivations from
the sixty-four byte BLAKE2b hash. BLAKE2b, the map from hashes to the group and the
encodings of elements are those of the libraries (`CryptoLibrary`). Adding,
inverting and multiplying by a scalar do not fail on the elements of a group of prime
order, so the texts for a failing library call do not occur.
-/

set_option autoImplicit false

namespace Lktrs.Protocol

open Lktrs.Foundation

/-! ## The order -/

/-- The scalar order `L`. -/
def ristrettoOrder : ℕ := 2 ^ 252 + 27742317777372353535851937790883648493

/-- The primes below two million that occur in the certificates. -/
def ristrettoFactors : List ℕ :=
  [2, 3, 5, 7, 11, 23, 41, 43, 73, 269, 307, 1361, 2851, 5879, 30703, 82163, 132667, 137849, 409477,
   531581, 1224481]

theorem ristrettoFactors_prime : ∀ q ∈ ristrettoFactors, q.Prime := by
  simp only [ristrettoFactors, List.forall_mem_cons, List.not_mem_nil, false_implies, implies_true,
    and_true]
  norm_num

/-- Certificates for the order, each after the larger factors it needs. -/
def ristrettoCertificates : List (ℕ × LucasCertificate) :=
  [(14741173, ⟨24, 2, [(2, 2), (3, 2), (409477, 1)]⟩),
   (58964693, ⟨26, 2, [(2, 2), (14741173, 1)]⟩),
   (3044861653679985063343,
     ⟨72, 5, [(2, 1), (3, 1), (11, 1), (30703, 1), (82163, 1), (132667, 1), (137849, 1)]⟩),
   (198211423230930754013084525763697,
     ⟨108, 5, [(2, 4), (3, 1), (23, 1), (58964693, 1), (3044861653679985063343, 1)]⟩),
   (292386187, ⟨29, 2, [(2, 1), (3, 4), (307, 1), (5879, 1)]⟩),
   (213441916511, ⟨38, 13, [(2, 1), (5, 1), (73, 1), (292386187, 1)]⟩),
   (1257559732178653, ⟨51, 2, [(2, 2), (3, 1), (7, 1), (23, 1), (531581, 1), (1224481, 1)]⟩),
   (4434155615661930479, ⟨62, 17, [(2, 1), (41, 1), (43, 1), (1257559732178653, 1)]⟩),
   (172054593956031949258510691,
     ⟨88, 2, [(2, 1), (5, 1), (1361, 1), (2851, 1), (4434155615661930479, 1)]⟩),
   (19757330305831588566944191468367130476339,
     ⟨134, 2, [(2, 1), (269, 1), (213441916511, 1), (172054593956031949258510691, 1)]⟩),
   (276602624281642239937218680557139826668747,
     ⟨138, 2, [(2, 1), (7, 1), (19757330305831588566944191468367130476339, 1)]⟩),
   (ristrettoOrder,
     ⟨253, 2, [(2, 2), (3, 1), (11, 1), (198211423230930754013084525763697, 1),
       (276602624281642239937218680557139826668747, 1)]⟩)]

theorem ristrettoCertificates_check : checkSequence ristrettoFactors ristrettoCertificates = true := by
  decide +kernel

instance : Fact (Nat.Prime ristrettoOrder) :=
  ⟨checkSequence_prime ristrettoFactors_prime ristrettoCertificates_check _
    (by simp [ristrettoCertificates])⟩

/-! ## Contexts and scalars -/

/-- A context of `G_p`; `state` is empty after it was moved from. -/
structure DdhContext where
  state : Option ℕ
deriving Repr, DecidableEq

/-- `DdhAccess::context_state`. -/
def DdhContext.get (context : DdhContext) : Except Thrown ℕ :=
  match context.state with
  | some k => .ok k
  | none => .error ⟨.logicError, "operation on moved-from G_p context"⟩

theorem DdhContext.get_eq_ok {context : DdhContext} {k : ℕ} :
    context.get = .ok k ↔ context.state = some k := by
  obtain ⟨state⟩ := context
  cases state with
  | none => simp [DdhContext.get]
  | some j => simp [DdhContext.get]

/-- A scalar of `G_p`. -/
abbrev GpScalar : Type := Element (ZMod ristrettoOrder)

namespace GpScalar

/-- `scalar`: an integer modulo the order. -/
def ofInt (context : DdhContext) (value : ℤ) : Except Thrown GpScalar := do
  let k ← context.get
  pure (.live k (value : ZMod ristrettoOrder))

theorem ofInt_of_state {context : DdhContext} {k : ℕ} (hk : context.state = some k) (value : ℤ) :
    ofInt context value = .ok (.live k (value : ZMod ristrettoOrder)) := by
  rw [ofInt, DdhContext.get_eq_ok.2 hk]
  rfl

/-- `add`. -/
def add : GpScalar → GpScalar → Except Thrown GpScalar :=
  Element.combine gpScalarTexts gpScalarTexts (· + ·)

/-- `sub`. -/
def sub : GpScalar → GpScalar → Except Thrown GpScalar :=
  Element.combine gpScalarTexts gpScalarTexts (· - ·)

/-- `mul`. -/
def mul : GpScalar → GpScalar → Except Thrown GpScalar :=
  Element.combine gpScalarTexts gpScalarTexts (· * ·)

/-- `is_zero`. -/
def isZero : GpScalar → Except Thrown Bool :=
  Element.test gpScalarTexts fun a => decide (a = 0)

/-- `inverse`. -/
def inverse (x : GpScalar) : Except Thrown GpScalar := do
  let a ← x.get gpScalarTexts
  throwIf (a.raw = 0) .domainError "cannot invert zero G_p scalar"
  pure (.live a.state a.raw⁻¹)

theorem inverse_live {k : ℕ} {a : ZMod ristrettoOrder} (ha : a ≠ 0) :
    inverse (.live k a) = .ok (.live k a⁻¹) := by
  simp [inverse, throwIf, ha, pure, Except.pure]

end GpScalar

/-! ## Elements and hashing -/

/-- The integer that bytes encode, least significant byte first. -/
def littleEndianValue (bytes : List UInt8) : ℕ := bigEndianValue bytes.reverse

/-- What `hash64` hashes. -/
def hash64Input (domain message : List UInt8) (counter : ℕ) : List UInt8 :=
  if counter = 0 then hashInput domain message
  else hashInput domain message ++ (bigEndian 8 8 ++ bigEndian 8 counter)

/-- What the protocol takes from its libraries: the pairing, the encodings of elements,
the generator of `G_p`, its map from hashes and the hash. The loop that looks for a
nonzero scalar ends before its counter wraps. -/
structure CryptoLibrary (G₁ G₂ GT Gp : Type) [CommGroup G₁] [CommGroup G₂] [CommGroup GT] where
  pairing : BilinearPairing G₁ G₂ GT
  encodeG1 : G₁ → List UInt8
  gpGenerator : Gp
  encodeGp : Gp → List UInt8
  gpFromHash : List UInt8 → Gp
  generichash : List UInt8 → List UInt8
  hash_nonzero : ∀ domain message, ∃ counter, counter < 2 ^ 64 ∧
    (littleEndianValue (generichash (hash64Input domain message counter)) : ZMod ristrettoOrder) ≠ 0

section Gp

variable {G₁ G₂ GT Gp : Type} [CommGroup G₁] [CommGroup G₂] [CommGroup GT]

/-- The first nonzero scalar that the loop over the counter finds. -/
def CryptoLibrary.gpResidue (lib : CryptoLibrary G₁ G₂ GT Gp) (domain : String)
    (message : List UInt8) : ZMod ristrettoOrder :=
  (littleEndianValue (lib.generichash
    (hash64Input (textBytes domain) message
      (Nat.find (lib.hash_nonzero (textBytes domain) message)))) : ZMod ristrettoOrder)

theorem CryptoLibrary.gpResidue_ne_zero (lib : CryptoLibrary G₁ G₂ GT Gp) (domain : String)
    (message : List UInt8) : lib.gpResidue domain message ≠ 0 :=
  (Nat.find_spec (lib.hash_nonzero (textBytes domain) message)).2

/-- `GpScalar::hash_to_scalar`. -/
def GpScalar.hashToScalar (lib : CryptoLibrary G₁ G₂ GT Gp) (context : DdhContext)
    (domain : String) (message : List UInt8) : Except Thrown GpScalar := do
  let k ← context.get
  pure (.live k (lib.gpResidue domain message))

theorem GpScalar.hashToScalar_of_state {context : DdhContext} {k : ℕ}
    (hk : context.state = some k) (lib : CryptoLibrary G₁ G₂ GT Gp) (domain : String)
    (message : List UInt8) :
    GpScalar.hashToScalar lib context domain message =
      .ok (.live k (lib.gpResidue domain message)) := by
  rw [GpScalar.hashToScalar, DdhContext.get_eq_ok.2 hk]
  rfl

/-- `gp_generator`. -/
def gpGenerator (lib : CryptoLibrary G₁ G₂ GT Gp) (context : DdhContext) :
    Except Thrown (Element Gp) := do
  let k ← context.get
  pure (.live k lib.gpGenerator)

/-- `hash_to_group_Gp`. -/
def hashToGroupGp (lib : CryptoLibrary G₁ G₂ GT Gp) (context : DdhContext) (domain : String)
    (message : List UInt8) : Except Thrown (Element Gp) := do
  let k ← context.get
  pure (.live k (lib.gpFromHash (lib.generichash (hash64Input (textBytes domain) message 0))))

/-- `to_bytes` of the first pairing group. -/
def g1Bytes (lib : CryptoLibrary G₁ G₂ GT Gp) (x : Element G₁) : Except Thrown (List UInt8) := do
  let a ← x.get pbcTexts
  pure (lib.encodeG1 a.raw)

/-- `to_bytes` of `G_p`. -/
def gpBytes (lib : CryptoLibrary G₁ G₂ GT Gp) (x : Element Gp) : Except Thrown (List UInt8) := do
  let a ← x.get gpElementTexts
  pure (lib.encodeGp a.raw)

@[simp] theorem g1Bytes_live (lib : CryptoLibrary G₁ G₂ GT Gp) (k : ℕ) (g : G₁) :
    g1Bytes lib (.live k g) = .ok (lib.encodeG1 g) := rfl

@[simp] theorem gpBytes_live (lib : CryptoLibrary G₁ G₂ GT Gp) (k : ℕ) (x : Gp) :
    gpBytes lib (.live k x) = .ok (lib.encodeGp x) := rfl

variable [CommGroup Gp]

/-- `mul` of `G_p`. -/
def gpMul : Element Gp → Element Gp → Except Thrown (Element Gp) :=
  Element.combine gpElementTexts gpElementTexts (· * ·)

/-- `pow` of `G_p`. -/
def gpPow : Element Gp → GpScalar → Except Thrown (Element Gp) :=
  Element.combine gpElementTexts gpScalarTexts residuePow

/-- `inverse` of `G_p`. -/
def gpInverse (x : Element Gp) : Except Thrown (Element Gp) := do
  let a ← x.get gpElementTexts
  pure (.live a.state a.raw⁻¹)

@[simp] theorem gpInverse_live (k : ℕ) (x : Gp) :
    gpInverse (.live k x) = .ok (.live k x⁻¹) := rfl

end Gp

end Lktrs.Protocol
