import Lktrs.Foundation.PrimeGroup
import Lktrs.Foundation.Sha256
import Lktrs.Foundation.Outcome

/-!
# The typed wrappers of the pairing and the DDH library

`crypto/pairing.cpp` and `crypto/ddh.cpp` wrap raw library elements in owners that
remember the context they belong to. An `Element` is such an owner: empty after it
was moved from, otherwise a raw value with the identity of its context. Every
operation first reads both storages and compares their contexts, and throws on a
mismatch; the raw operation is that of the library, here the operation of a group
of prime order or of the residues modulo that order.

The two wrappers differ in their texts (`ElementTexts`) and otherwise do the same,
so each operation is written once. `Element.combine_eq_ok` is the inversion lemma:
an operation returns only for two live elements of one context.
-/

set_option autoImplicit false

namespace Lktrs.Protocol

open Lktrs.Foundation

/-- The exception classes that are thrown. -/
inductive ErrorKind where
  | invalidArgument
  | lengthError
  | domainError
  | overflowError
  | logicError
  | runtimeError
deriving Repr, DecidableEq

/-- An exception with its text. -/
structure Thrown where
  kind : ErrorKind
  what : String
deriving Repr, DecidableEq

/-- Throw when the condition holds, and go on otherwise. -/
def throwIf (c : Prop) [Decidable c] (kind : ErrorKind) (what : String) : Except Thrown Unit :=
  if c then .error ⟨kind, what⟩ else .ok ()

@[simp] theorem throwIf_eq_ok {c : Prop} [Decidable c] {kind : ErrorKind} {what : String} {u : Unit} :
    throwIf c kind what = .ok u ↔ ¬ c := by
  unfold throwIf
  split <;> simp_all

theorem throwIf_of_not {c : Prop} [Decidable c] {kind : ErrorKind} {what : String} (h : ¬ c) :
    throwIf c kind what = .ok () :=
  if_neg h

/-- `catch (const std::exception&) { return false; }`. -/
def orFalse (x : Except Thrown Bool) : Bool :=
  match x with
  | .ok b => b
  | .error _ => false

@[simp] theorem orFalse_eq_true {x : Except Thrown Bool} : orFalse x = true ↔ x = .ok true := by
  cases x with
  | error e => simp [orFalse]
  | ok b => simp [orFalse]

/-- The texts of a wrapper for an element that was moved from and for two elements of
different contexts. -/
structure ElementTexts where
  moved : String
  different : String

/-- The texts of the pairing wrapper. -/
def pbcTexts : ElementTexts :=
  ⟨"operation on moved-from PBC element", "different PBC pairing contexts"⟩

/-- The texts of the wrapper of `G_p` scalars. -/
def gpScalarTexts : ElementTexts :=
  ⟨"operation on moved-from G_p scalar", "different G_p contexts"⟩

/-- The texts of the wrapper of `G_p` elements. -/
def gpElementTexts : ElementTexts :=
  ⟨"operation on moved-from G_p element", "different G_p contexts"⟩

/-- A raw element with the identity of the context it was made in. -/
structure Storage (α : Type) where
  state : ℕ
  raw : α
deriving Repr, DecidableEq

/-- An owner of a raw element; empty after it was moved from. -/
structure Element (α : Type) where
  storage : Option (Storage α)
deriving Repr, DecidableEq

namespace Element

variable {α β γ : Type}

/-- An element of the context `state`. -/
def live (state : ℕ) (raw : α) : Element α := ⟨some ⟨state, raw⟩⟩

@[simp] theorem live_inj {j k : ℕ} {a b : α} : live j a = live k b ↔ j = k ∧ a = b := by
  simp [live]

/-- `Access::get`. -/
def get (t : ElementTexts) (x : Element α) : Except Thrown (Storage α) :=
  match x.storage with
  | some s => .ok s
  | none => .error ⟨.logicError, t.moved⟩

@[simp] theorem get_live (t : ElementTexts) (k : ℕ) (a : α) : (live k a).get t = .ok ⟨k, a⟩ := rfl

theorem get_eq_ok {t : ElementTexts} {x : Element α} {s : Storage α} :
    x.get t = .ok s ↔ x = live s.state s.raw := by
  obtain ⟨storage⟩ := x
  cases storage with
  | none => simp [get, live]
  | some s' => simp [get, live]

/-- Read two elements of one context. -/
def getBoth (t t' : ElementTexts) (x : Element α) (y : Element β) :
    Except Thrown (ℕ × α × β) := do
  let a ← x.get t
  let b ← y.get t'
  throwIf (a.state ≠ b.state) .invalidArgument t.different
  pure (a.state, a.raw, b.raw)

theorem getBoth_eq_ok {t t' : ElementTexts} {x : Element α} {y : Element β} {kab : ℕ × α × β} :
    getBoth t t' x y = .ok kab ↔ x = live kab.1 kab.2.1 ∧ y = live kab.1 kab.2.2 := by
  obtain ⟨k, a, b⟩ := kab
  simp only [getBoth, bind_eq_ok, throwIf_eq_ok, pure_eq_ok, get_eq_ok, not_not]
  constructor
  · rintro ⟨sa, rfl, sb, rfl, -, hstate, h⟩
    obtain ⟨rfl, rfl, rfl⟩ : sa.state = k ∧ sa.raw = a ∧ sb.raw = b := by simpa using h
    exact ⟨rfl, by rw [hstate]⟩
  · rintro ⟨rfl, rfl⟩
    exact ⟨⟨k, a⟩, rfl, ⟨k, b⟩, rfl, ⟨⟩, rfl, rfl⟩

@[simp] theorem getBoth_live (t t' : ElementTexts) (k : ℕ) (a : α) (b : β) :
    getBoth t t' (live k a) (live k b) = .ok (k, a, b) :=
  getBoth_eq_ok.2 ⟨rfl, rfl⟩

/-- `equals`. -/
def equals [DecidableEq α] (t : ElementTexts) (x y : Element α) : Except Thrown Bool := do
  let ⟨_, a, b⟩ ← getBoth t t x y
  pure (decide (a = b))

@[simp] theorem equals_live [DecidableEq α] (t : ElementTexts) (k : ℕ) (a b : α) :
    equals t (live k a) (live k b) = .ok (decide (a = b)) := by
  simp [equals, pure, Except.pure]

theorem equals_eq_ok [DecidableEq α] {t : ElementTexts} {x y : Element α} {r : Bool} :
    equals t x y = .ok r ↔ ∃ k a b, x = live k a ∧ y = live k b ∧ r = decide (a = b) := by
  simp only [equals, bind_eq_ok, pure_eq_ok, getBoth_eq_ok]
  constructor
  · rintro ⟨⟨k, a, b⟩, ⟨hx, hy⟩, hr⟩
    exact ⟨k, a, b, hx, hy, hr.symm⟩
  · rintro ⟨k, a, b, hx, hy, hr⟩
    exact ⟨(k, a, b), ⟨hx, hy⟩, hr.symm⟩

/-- A binary operation on two elements of one context. -/
def combine (t t' : ElementTexts) (f : α → β → γ) (x : Element α) (y : Element β) :
    Except Thrown (Element γ) := do
  let ⟨k, a, b⟩ ← getBoth t t' x y
  pure (live k (f a b))

@[simp] theorem combine_live (t t' : ElementTexts) (f : α → β → γ) (k : ℕ) (a : α) (b : β) :
    combine t t' f (live k a) (live k b) = .ok (live k (f a b)) := by
  simp [combine, pure, Except.pure]

/-- An operation returns exactly for two live elements of one context. -/
theorem combine_eq_ok {t t' : ElementTexts} {f : α → β → γ} {x : Element α} {y : Element β}
    {z : Element γ} :
    combine t t' f x y = .ok z ↔ ∃ k a b, x = live k a ∧ y = live k b ∧ z = live k (f a b) := by
  simp only [combine, bind_eq_ok, pure_eq_ok, getBoth_eq_ok]
  constructor
  · rintro ⟨⟨k, a, b⟩, ⟨hx, hy⟩, hz⟩
    exact ⟨k, a, b, hx, hy, hz.symm⟩
  · rintro ⟨k, a, b, hx, hy, hz⟩
    exact ⟨(k, a, b), ⟨hx, hy⟩, hz.symm⟩

/-- A test of one element, such as `is_identity` and `is_zero`. -/
def test (t : ElementTexts) (p : α → Bool) (x : Element α) : Except Thrown Bool := do
  let a ← x.get t
  pure (p a.raw)

@[simp] theorem test_live (t : ElementTexts) (p : α → Bool) (k : ℕ) (a : α) :
    test t p (live k a) = .ok (p a) := rfl

theorem test_eq_ok {t : ElementTexts} {p : α → Bool} {x : Element α} {r : Bool} :
    test t p x = .ok r ↔ ∃ k a, x = live k a ∧ r = p a := by
  simp only [test, bind_eq_ok, pure_eq_ok, get_eq_ok]
  constructor
  · rintro ⟨s, hx, hr⟩
    exact ⟨s.state, s.raw, hx, hr.symm⟩
  · rintro ⟨k, a, hx, hr⟩
    exact ⟨⟨k, a⟩, hx, hr.symm⟩

end Element

/-! ## The pairing wrapper -/

/-- A pairing context; `state` is empty after it was moved from. -/
structure PairingContext where
  state : Option ℕ
  parameterId : List UInt8
deriving Repr, DecidableEq

/-- `Access::context_state`. -/
def PairingContext.get (context : PairingContext) : Except Thrown ℕ :=
  match context.state with
  | some k => .ok k
  | none => .error ⟨.logicError, "operation on moved-from pairing context"⟩

/-- A scalar of the pairing groups. -/
abbrev Scalar (r : ℕ) : Type := Element (ZMod r)

section Pbc

variable {r : ℕ} {G : Type} [CommGroup G] [DecidableEq G]

/-- The identity, with which a group element is initialised. -/
def identity (context : PairingContext) : Except Thrown (Element G) := do
  let k ← context.get
  pure (.live k 1)

/-- `scalar`: an integer modulo the order. -/
def scalar (context : PairingContext) (value : ℤ) : Except Thrown (Scalar r) := do
  let k ← context.get
  pure (.live k (value : ZMod r))

/-- `add` on scalars. -/
def Scalar.add : Scalar r → Scalar r → Except Thrown (Scalar r) :=
  Element.combine pbcTexts pbcTexts (· + ·)

/-- `mul` on scalars. -/
def Scalar.mul : Scalar r → Scalar r → Except Thrown (Scalar r) :=
  Element.combine pbcTexts pbcTexts (· * ·)

/-- `mul` on the elements of a pairing group. -/
def groupMul : Element G → Element G → Except Thrown (Element G) :=
  Element.combine pbcTexts pbcTexts (· * ·)

/-- `pow`. -/
def groupPow : Element G → Scalar r → Except Thrown (Element G) :=
  Element.combine pbcTexts pbcTexts residuePow

/-- `is_identity`. -/
def isIdentity : Element G → Except Thrown Bool :=
  Element.test pbcTexts fun g => decide (g = 1)

/-- `pair`. -/
def pairElements {G₁ G₂ GT : Type} [CommGroup G₁] [CommGroup G₂]
    [CommGroup GT] (e : BilinearPairing G₁ G₂ GT) :
    Element G₁ → Element G₂ → Except Thrown (Element GT) :=
  Element.combine pbcTexts pbcTexts e.pair

/-- The length in bytes of an encoded scalar. -/
def scalarWidth (r : ℕ) : ℕ := (Nat.size r + 7) / 8

/-- The fixed-length big-endian encoding of a residue. -/
def residueBytes (a : ZMod r) : List UInt8 := bigEndian (scalarWidth r) a.val

/-- `to_bytes` on scalars. -/
def Scalar.toBytes (x : Scalar r) : Except Thrown (List UInt8) := do
  let a ← x.get pbcTexts
  pure (residueBytes a.raw)

end Pbc

end Lktrs.Protocol
