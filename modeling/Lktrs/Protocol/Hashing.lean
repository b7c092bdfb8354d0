import Lktrs.Protocol.Accumulator

/-!
# Hashing to scalars of the pairing groups, and key material

The byte strings that the C++ protocol hashes: every part stands behind its length,
and a repeated attempt appends its number. `hashToScalar` is `derive_scalar` of
`crypto/pairing.cpp`; `seedMaterial` and `deriveMaterial` are those of
`protocol/clear.cpp`.
-/

set_option autoImplicit false

namespace Lktrs.Protocol

open Lktrs.Foundation

/-- The domain and the message, each behind its length. -/
def hashInput (domain message : List UInt8) : List UInt8 :=
  lengthPrefixed domain ++ lengthPrefixed message

/-- What `derive_scalar` hashes in an attempt. -/
def deriveBlock (domain message : List UInt8) (attempt : ℕ) : List UInt8 :=
  if attempt = 0 then hashInput domain message
  else hashInput domain message ++ bigEndian 4 attempt

/-- The residue that an attempt gives. -/
def deriveResidue (r : ℕ) (domain : String) (message : List UInt8) (attempt : ℕ) : ZMod r :=
  ((sha256 (deriveBlock (textBytes domain) message attempt)).value : ZMod r)

/-- The first of the sixty-four attempts that gives a nonzero residue. -/
def deriveScalar (r : ℕ) (domain : String) (message : List UInt8) : Option (ZMod r) :=
  ((List.range 64).map (deriveResidue r domain message)).find? fun a => decide (a ≠ 0)

/-- `Scalar::hash_to_scalar`. -/
def hashToScalar {r : ℕ} (context : PairingContext) (domain : String) (message : List UInt8) :
    Except Thrown (Scalar r) := do
  let k ← context.get
  match deriveScalar r domain message with
  | some a => pure (.live k a)
  | none => .error ⟨.runtimeError, "hash_to_scalar failed to derive a nonzero residue"⟩

theorem context_get_eq_ok {context : PairingContext} {k : ℕ} :
    context.get = .ok k ↔ context.state = some k := by
  obtain ⟨state, parameterId⟩ := context
  cases state with
  | none => simp [PairingContext.get]
  | some j => simp [PairingContext.get]

theorem hashToScalar_eq_ok {r : ℕ} {context : PairingContext} {domain : String}
    {message : List UInt8} {x : Scalar r} :
    hashToScalar context domain message = .ok x ↔
      ∃ k a, context.state = some k ∧ deriveScalar r domain message = some a ∧ x = .live k a := by
  simp only [hashToScalar, bind_eq_ok, context_get_eq_ok]
  cases deriveScalar r domain message with
  | none => simp
  | some a =>
      constructor
      · rintro ⟨k, hk, hx⟩
        exact ⟨k, a, hk, rfl, (pure_eq_ok.1 hx).symm⟩
      · rintro ⟨k, b, hk, hb, rfl⟩
        exact ⟨k, hk, by rw [Option.some.inj hb]; rfl⟩

/-- In a live context only the derivation can fail. -/
theorem hashToScalar_of_state {r : ℕ} {context : PairingContext} {k : ℕ}
    (hk : context.state = some k) {domain : String} {message : List UInt8} {x : Scalar r} :
    hashToScalar context domain message = .ok x ↔
      ∃ a, deriveScalar r domain message = some a ∧ x = .live k a := by
  simp only [hashToScalar_eq_ok]
  constructor
  · rintro ⟨j, a, hj, ha, rfl⟩
    obtain rfl : k = j := Option.some.inj (hk.symm.trans hj)
    exact ⟨a, ha, rfl⟩
  · rintro ⟨a, ha, rfl⟩
    exact ⟨k, a, hk, ha, rfl⟩

/-! ## Key material -/

/-- `seed_material`. -/
def seedMaterial (domain userId entropy : List UInt8) : List UInt8 :=
  lengthPrefixed domain ++ lengthPrefixed userId ++ lengthPrefixed entropy

/-- `derive_material`. -/
def deriveMaterial (seed issue accountId : List UInt8) (branch : UInt8) : List UInt8 :=
  lengthPrefixed seed ++ lengthPrefixed issue ++ lengthPrefixed accountId ++ [branch]

end Lktrs.Protocol
