import Lktrs.Foundation.Owners
import Lktrs.Protocol.Elements

/-!
# Lifetimes of pairings and elements

The raw objects of the pairing library are cleared by hand: `pairing_clear` in the
destructor of `PairingState`, `element_clear` in that of `ElementStorage`, and an
element must be cleared while its pairing still is. `crypto/pairing.cpp` leaves the
order to its owners: contexts and storages share the `PairingState`, each `Element`
owns at most one storage, and copies, moves, assignments and exceptions pass
ownership around.

`Heap` is that memory. Every object ever made keeps its number, a use count stands
where `std::shared_ptr` has one, and a library call on an object that is cleared
already, or on an element whose pairing is, has no result (`none`): it is undefined
behaviour. `Owned` says that the counts count. Each operation keeps it and does to
the variables what `Values`, the model without memory, says; so no program reaches
undefined behaviour, and what the other modules prove about values holds of the
objects that are allocated, moved and cleared here.
-/

set_option autoImplicit false

namespace Lktrs.Protocol

open Lktrs.Foundation

namespace Lifetimes

/-- What an operation may raise: an exception of the wrapper, or a failed allocation. -/
inductive Raised where
  | thrown (t : Thrown)
  | badAlloc
deriving Repr, DecidableEq

/-- A `PairingState` with the count of its `shared_ptr`. -/
structure PairingCell where
  useCount : ℕ
  initialized : Bool
  /-- The destructor ran. -/
  freed : Bool
  /-- `pairing_clear` was called. -/
  cleared : Bool
deriving Repr, DecidableEq

/-- The library may use the pairing. -/
def PairingCell.Usable (c : PairingCell) : Prop := c.initialized = true ∧ c.freed = false

instance PairingCell.decidableUsable (c : PairingCell) : Decidable c.Usable :=
  inferInstanceAs (Decidable (_ ∧ _))

/-- An `ElementStorage`; `cleared` after its destructor called `element_clear`. -/
structure StorageCell (α : Type) where
  storage : Storage α
  cleared : Bool
deriving Repr, DecidableEq

/-- The objects made so far and the variables that are, or were, in scope. A new object
or variable gets the next number. -/
structure Heap (α : Type) where
  pairings : List PairingCell
  storages : List (StorageCell α)
  contexts : List Slot
  elements : List Slot
deriving Repr, DecidableEq

/-- How `pairing_init_set_buf` and the test of the order end. -/
inductive Parameters where
  | invalidText
  | initFails
  | badOrder
  | good
deriving Repr, DecidableEq

/-- The operations of the wrapper. Variables are named by number, `alloc` says whether
the allocations of the operation succeed. -/
inductive Op (α : Type) where
  /-- `from_trusted_parameters`. -/
  | parameters (text : Parameters) (alloc : Bool)
  | copyContext (c : ℕ)
  | moveContext (c : ℕ)
  | assignContext (dst src : ℕ)
  | moveAssignContext (dst src : ℕ)
  | destroyContext (c : ℕ)
  /-- A new element of a context: the constructor, `scalar`, `from_bytes`. -/
  | construct (c : ℕ) (alloc : Bool) (value : Except Thrown α)
  | copy (e : ℕ) (alloc : Bool)
  | move (e : ℕ)
  | assign (dst src : ℕ) (alloc : Bool)
  | moveAssign (dst src : ℕ)
  | destroy (e : ℕ)
  /-- `negate` and `inverse`; the check comes before the allocation. -/
  | unary (f : α → α) (check : α → Except Thrown Unit) (e : ℕ) (alloc : Bool)
  /-- `mul`, `add`, `sub`, `group_pow` and `pair`. -/
  | combine (f : α → α → α) (a b : ℕ) (alloc : Bool)
  /-- `equals`. -/
  | equals (a b : ℕ)

/-- How a step ends: the memory after it, and what was raised. -/
abbrev Outcome (α : Type) : Type := Heap α × Option Raised

def movedContext : Thrown := ⟨.logicError, "operation on moved-from pairing context"⟩

def moved : Thrown := ⟨.logicError, pbcTexts.moved⟩

def different : Thrown := ⟨.invalidArgument, pbcTexts.different⟩

namespace Heap

variable {α : Type}

/-- No object and no variable. -/
def empty : Heap α := ⟨[], [], [], []⟩

/-! ## Owners -/

/-- A copy of a `shared_ptr`. -/
def retain (h : Heap α) (p : ℕ) : Option (Heap α) :=
  match h.pairings[p]? with
  | some c =>
      if c.freed then none
      else some { h with pairings := h.pairings.set p { c with useCount := c.useCount + 1 } }
  | none => none

/-- The destructor of a `shared_ptr`. The last owner runs `~PairingState`, which calls
`pairing_clear` only if the pairing was initialised. -/
def release (h : Heap α) (p : ℕ) : Option (Heap α) :=
  match h.pairings[p]? with
  | some c =>
      if c.freed then none
      else if c.useCount = 1 then
        some { h with pairings := h.pairings.set p ⟨0, c.initialized, true, c.initialized⟩ }
      else some { h with pairings := h.pairings.set p { c with useCount := c.useCount - 1 } }
  | none => none

/-- A context or a temporary that may be empty is destroyed. -/
def releaseSlot (h : Heap α) : Slot → Option (Heap α)
  | some (some p) => h.release p
  | _ => some h

/-- A storage the library may read and write: it is not cleared, and neither is its
pairing. -/
def access (h : Heap α) (s : ℕ) : Option (Storage α) :=
  match h.storages[s]? with
  | some c =>
      match h.pairings[c.storage.state]? with
      | some p => if c.cleared = false ∧ p.Usable then some c.storage else none
      | none => none
  | none => none

/-- `element_init` on a pairing that must be usable; the storage takes over a reference. -/
def initStorage (h : Heap α) (blank : α) (p : ℕ) : Option (Heap α × ℕ) :=
  match h.pairings[p]? with
  | some c =>
      if c.Usable then
        some ({ h with storages := h.storages ++ [⟨⟨p, blank⟩, false⟩] }, h.storages.length)
      else none
  | none => none

/-- The library writes its result. -/
def write (h : Heap α) (s : ℕ) (a : α) : Option (Heap α) :=
  match h.access s with
  | some c => some { h with storages := h.storages.set s ⟨⟨c.state, a⟩, false⟩ }
  | none => none

/-- `~ElementStorage`: `element_clear`, and only then the reference is given back. -/
def destroyStorage (h : Heap α) (s : ℕ) : Option (Heap α) :=
  match h.access s with
  | some c => ({ h with storages := h.storages.set s ⟨c, true⟩ } : Heap α).release c.state
  | none => none

/-- The destructor of `unique_ptr`. -/
def destroySlot (h : Heap α) : Slot → Option (Heap α)
  | some (some s) => h.destroyStorage s
  | _ => some h

/-- `Element(std::shared_ptr<PairingState>)`, and the value that is then written. The
argument is a reference of its own, which a failed allocation gives back; an exception
while the value is computed destroys the storage. -/
def build (h : Heap α) (blank : α) (p : ℕ) (alloc : Bool) (value : Except Thrown α) :
    Option (Heap α × Except Raised ℕ) := do
  let h ← h.retain p
  if alloc = false then
    let h ← h.release p
    some (h, .error .badAlloc)
  else
    let (h, s) ← h.initStorage blank p
    match value with
    | .ok a =>
        let h ← h.write s a
        some (h, .ok s)
    | .error t =>
        let h ← h.destroyStorage s
        some (h, .error (.thrown t))

/-- The new element is returned to a new variable, or the exception goes on. -/
def declare : Heap α × Except Raised ℕ → Outcome α
  | (h, .ok s) => ({ h with elements := h.elements ++ [some (some s)] }, none)
  | (h, .error e) => (h, some e)

/-- `require_same` on a storage that may be absent. -/
def sameState (h : Heap α) (d : Option ℕ) (state : ℕ) : Option Bool :=
  match d with
  | some s => (h.access s).map fun c => decide (c.state = state)
  | none => some true

/-! ## The operations -/

/-- `from_trusted_parameters`. The state is not initialised until PBC reported success. -/
def fromParameters (h : Heap α) (text : Parameters) (alloc : Bool) : Option (Outcome α) :=
  let p := h.pairings.length
  let owner (initialized : Bool) : Heap α :=
    { h with pairings := h.pairings ++ [⟨1, initialized, false, false⟩] }
  match text with
  | .invalidText =>
      some (h, some (.thrown ⟨.invalidArgument, "missing or invalid trusted parameter text/id"⟩))
  | _ =>
      if alloc = false then some (h, some .badAlloc)
      else match text with
      | .initFails => do
          let h ← (owner false).release p
          some (h, some (.thrown ⟨.runtimeError, "PBC parameter initialization failed"⟩))
      | .badOrder => do
          let h ← (owner true).release p
          some (h, some (.thrown ⟨.invalidArgument, "PBC adapter requires a prime scalar order"⟩))
      | _ => some ({ owner true with contexts := h.contexts ++ [some (some p)] }, none)

/-- The copy constructor of a context. -/
def copyContext (h : Heap α) (c : ℕ) : Option (Outcome α) :=
  match h.contexts[c]? with
  | some (some (some p)) => do
      let h ← h.retain p
      some ({ h with contexts := h.contexts ++ [some (some p)] }, none)
  | some (some none) => some ({ h with contexts := h.contexts ++ [some none] }, none)
  | _ => some (h, none)

/-- The move constructor of a context. -/
def moveContext (h : Heap α) (c : ℕ) : Option (Outcome α) :=
  match h.contexts[c]? with
  | some (some o) =>
      some ({ h with contexts := h.contexts.set c (some none) ++ [some o] }, none)
  | _ => some (h, none)

/-- The copy assignment of a context: the new owner is counted before the old one is
given back. -/
def assignContext (h : Heap α) (dst src : ℕ) : Option (Outcome α) :=
  match h.contexts[dst]?, h.contexts[src]? with
  | some (some d), some (some (some p)) => do
      let h ← h.retain p
      let h ← ({ h with contexts := h.contexts.set dst (some (some p)) } : Heap α).releaseSlot (some d)
      some (h, none)
  | some (some d), some (some none) => do
      let h ← ({ h with contexts := h.contexts.set dst (some none) } : Heap α).releaseSlot (some d)
      some (h, none)
  | _, _ => some (h, none)

/-- The move assignment of a context: a temporary takes the source and is swapped. -/
def moveAssignContext (h : Heap α) (dst src : ℕ) : Option (Outcome α) :=
  match h.contexts[src]? with
  | some (some o) =>
      let emptied := h.contexts.set src (some none)
      match emptied[dst]? with
      | some (some d) => do
          let h ← ({ h with contexts := emptied.set dst (some o) } : Heap α).releaseSlot (some d)
          some (h, none)
      | _ => some (h, none)
  | _ => some (h, none)

/-- A context goes out of scope. -/
def destroyContext (h : Heap α) (c : ℕ) : Option (Outcome α) :=
  match h.contexts[c]? with
  | some (some o) => do
      let h ← ({ h with contexts := h.contexts.set c none } : Heap α).releaseSlot (some o)
      some (h, none)
  | _ => some (h, none)

/-- A new element of a context. -/
def construct (h : Heap α) (blank : α) (c : ℕ) (alloc : Bool) (value : Except Thrown α) :
    Option (Outcome α) :=
  match h.contexts[c]? with
  | some (some (some p)) => (h.build blank p alloc value).map declare
  | some (some none) => some (h, some (.thrown movedContext))
  | _ => some (h, none)

/-- The copy constructor. -/
def copy (h : Heap α) (blank : α) (e : ℕ) (alloc : Bool) : Option (Outcome α) :=
  match h.elements[e]? with
  | some (some (some s)) => do
      let source ← h.access s
      (h.build blank source.state alloc (.ok source.raw)).map declare
  | some (some none) => some (h, some (.thrown moved))
  | _ => some (h, none)

/-- The move constructor. -/
def move (h : Heap α) (e : ℕ) : Option (Outcome α) :=
  match h.elements[e]? with
  | some (some o) => some ({ h with elements := h.elements.set e (some none) ++ [some o] }, none)
  | _ => some (h, none)

/-- The copy assignment: a replacement is built, swapped in, and destroyed with what the
variable held before. -/
def assign (h : Heap α) (blank : α) (dst src : ℕ) (alloc : Bool) : Option (Outcome α) :=
  match h.elements[dst]?, h.elements[src]? with
  | some (some d), some (some o) =>
      if dst = src then some (h, none)
      else match o with
      | none => some (h, some (.thrown moved))
      | some s => do
          let source ← h.access s
          if ← h.sameState d source.state then
            match ← h.build blank source.state alloc (.ok source.raw) with
            | (h, .error e) => some (h, some e)
            | (h, .ok fresh) => do
                let h ← ({ h with elements := h.elements.set dst (some (some fresh)) } : Heap α).destroySlot
                  (some d)
                some (h, none)
          else some (h, some (.thrown different))
  | _, _ => some (h, none)

/-- The move assignment. -/
def moveAssign (h : Heap α) (dst src : ℕ) : Option (Outcome α) :=
  match h.elements[dst]?, h.elements[src]? with
  | some (some d), some (some o) =>
      if dst = src then some (h, none)
      else match o with
      | none => some (h, some (.thrown moved))
      | some s => do
          let source ← h.access s
          if ← h.sameState d source.state then
            let h ← ({ h with
              elements := (h.elements.set src (some none)).set dst (some (some s)) } : Heap α).destroySlot
                (some d)
            some (h, none)
          else some (h, some (.thrown different))
  | _, _ => some (h, none)

/-- An element goes out of scope. -/
def destroy (h : Heap α) (e : ℕ) : Option (Outcome α) :=
  match h.elements[e]? with
  | some (some o) => do
      let h ← ({ h with elements := h.elements.set e none } : Heap α).destroySlot (some o)
      some (h, none)
  | _ => some (h, none)

/-- An operation on one element. -/
def unary (h : Heap α) (blank : α) (f : α → α) (check : α → Except Thrown Unit) (e : ℕ)
    (alloc : Bool) : Option (Outcome α) :=
  match h.elements[e]? with
  | some (some (some s)) => do
      let a ← h.access s
      match check a.raw with
      | .error t => some (h, some (.thrown t))
      | .ok _ => (h.build blank a.state alloc (.ok (f a.raw))).map declare
  | some (some none) => some (h, some (.thrown moved))
  | _ => some (h, none)

/-- Read two elements of one context, and go on with their values. -/
def both (h : Heap α) (a b : ℕ) (next : ℕ → α → α → Option (Outcome α)) : Option (Outcome α) :=
  match h.elements[a]?, h.elements[b]? with
  | some (some o), some (some o') =>
      match o, o' with
      | some s, some s' => do
          let x ← h.access s
          let y ← h.access s'
          if x.state = y.state then next x.state x.raw y.raw
          else some (h, some (.thrown different))
      | _, _ => some (h, some (.thrown moved))
  | _, _ => some (h, none)

/-- One operation. -/
def step (h : Heap α) (blank : α) : Op α → Option (Outcome α)
  | .parameters text alloc => h.fromParameters text alloc
  | .copyContext c => h.copyContext c
  | .moveContext c => h.moveContext c
  | .assignContext dst src => h.assignContext dst src
  | .moveAssignContext dst src => h.moveAssignContext dst src
  | .destroyContext c => h.destroyContext c
  | .construct c alloc value => h.construct blank c alloc value
  | .copy e alloc => h.copy blank e alloc
  | .move e => h.move e
  | .assign dst src alloc => h.assign blank dst src alloc
  | .moveAssign dst src => h.moveAssign dst src
  | .destroy e => h.destroy e
  | .unary f check e alloc => h.unary blank f check e alloc
  | .combine f a b alloc => h.both a b fun k x y => (h.build blank k alloc (.ok (f x y))).map declare
  | .equals a b => h.both a b fun _ _ _ => some (h, none)

/-- A program: the memory it ends in and what its operations raised. -/
def run (blank : α) : Heap α → List (Op α) → Option (Heap α × List (Option Raised))
  | h, [] => some (h, [])
  | h, op :: ops => do
      let (h, r) ← h.step blank op
      let (h, rs) ← run blank h ops
      some (h, r :: rs)

end Heap

/-! ## The same programs over values

Without memory an element is a value of its context or was moved from, and an operation
that raises something changes no variable. -/

/-- The variables of a program with their values; `made` numbers the pairings. -/
structure Values (α : Type) where
  made : ℕ
  contexts : List Slot
  elements : List (Option (Element α))
deriving Repr, DecidableEq

namespace Values

variable {α : Type}

/-- No variable. -/
def empty : Values α := ⟨0, [], []⟩

/-- A new element, once it is allocated and its value computed. -/
def build (v : Values α) (k : ℕ) (alloc : Bool) (value : Except Thrown α) :
    Values α × Option Raised :=
  if alloc = false then (v, some .badAlloc)
  else match value with
  | .ok a => ({ v with elements := v.elements ++ [some (.live k a)] }, none)
  | .error t => (v, some (.thrown t))

def fromParameters (v : Values α) (text : Parameters) (alloc : Bool) : Values α × Option Raised :=
  match text with
  | .invalidText =>
      (v, some (.thrown ⟨.invalidArgument, "missing or invalid trusted parameter text/id"⟩))
  | _ =>
      if alloc = false then (v, some .badAlloc)
      else
        let v : Values α := { v with made := v.made + 1 }
        match text with
        | .initFails => (v, some (.thrown ⟨.runtimeError, "PBC parameter initialization failed"⟩))
        | .badOrder =>
            (v, some (.thrown ⟨.invalidArgument, "PBC adapter requires a prime scalar order"⟩))
        | _ => ({ v with contexts := v.contexts ++ [some (some (v.made - 1))] }, none)

def copyContext (v : Values α) (c : ℕ) : Values α :=
  match v.contexts[c]? with
  | some (some o) => { v with contexts := v.contexts ++ [some o] }
  | _ => v

def moveContext (v : Values α) (c : ℕ) : Values α :=
  match v.contexts[c]? with
  | some (some o) => { v with contexts := v.contexts.set c (some none) ++ [some o] }
  | _ => v

def assignContext (v : Values α) (dst src : ℕ) : Values α :=
  match v.contexts[dst]?, v.contexts[src]? with
  | some (some _), some (some o) => { v with contexts := v.contexts.set dst (some o) }
  | _, _ => v

def moveAssignContext (v : Values α) (dst src : ℕ) : Values α :=
  match v.contexts[dst]?, v.contexts[src]? with
  | some (some _), some (some o) =>
      { v with contexts := (v.contexts.set src (some none)).set dst (some o) }
  | _, _ => v

def destroyContext (v : Values α) (c : ℕ) : Values α :=
  match v.contexts[c]? with
  | some (some _) => { v with contexts := v.contexts.set c none }
  | _ => v

def construct (v : Values α) (c : ℕ) (alloc : Bool) (value : Except Thrown α) :
    Values α × Option Raised :=
  match v.contexts[c]? with
  | some (some (some k)) => v.build k alloc value
  | some (some none) => (v, some (.thrown movedContext))
  | _ => (v, none)

/-- An operation on one element that is in scope and was not moved from. -/
def one (v : Values α) (e : ℕ) (next : Storage α → Values α × Option Raised) :
    Values α × Option Raised :=
  match v.elements[e]? with
  | some (some x) =>
      match x.get pbcTexts with
      | .ok a => next a
      | .error t => (v, some (.thrown t))
  | _ => (v, none)

def move (v : Values α) (e : ℕ) : Values α :=
  match v.elements[e]? with
  | some (some x) => { v with elements := v.elements.set e (some ⟨none⟩) ++ [some x] }
  | _ => v

/-- An element may be overwritten by one of its own context, and by any after a move. -/
def Accepts (d : Element α) (state : ℕ) : Prop := ∀ c ∈ d.storage, c.state = state

instance decidableAccepts (d : Element α) (state : ℕ) : Decidable (Accepts d state) :=
  inferInstanceAs (Decidable (∀ c ∈ d.storage, c.state = state))

/-- The checks of the two assignments, which come before any change. -/
def assignable (v : Values α) (dst src : ℕ) (next : Element α → Values α × Option Raised) :
    Values α × Option Raised :=
  match v.elements[dst]?, v.elements[src]? with
  | some (some d), some (some x) =>
      if dst = src then (v, none)
      else match x.get pbcTexts with
      | .error t => (v, some (.thrown t))
      | .ok source =>
          if Accepts d source.state then next x else (v, some (.thrown different))
  | _, _ => (v, none)

def assign (v : Values α) (dst src : ℕ) (alloc : Bool) : Values α × Option Raised :=
  v.assignable dst src fun x =>
    if alloc = false then (v, some .badAlloc)
    else ({ v with elements := v.elements.set dst (some x) }, none)

def moveAssign (v : Values α) (dst src : ℕ) : Values α × Option Raised :=
  v.assignable dst src fun x =>
    ({ v with elements := (v.elements.set src (some ⟨none⟩)).set dst (some x) }, none)

def destroy (v : Values α) (e : ℕ) : Values α :=
  match v.elements[e]? with
  | some (some _) => { v with elements := v.elements.set e none }
  | _ => v

/-- Two elements of one context. -/
def both (v : Values α) (a b : ℕ) (next : ℕ × α × α → Values α × Option Raised) :
    Values α × Option Raised :=
  match v.elements[a]?, v.elements[b]? with
  | some (some x), some (some y) =>
      match Element.getBoth pbcTexts pbcTexts x y with
      | .ok r => next r
      | .error t => (v, some (.thrown t))
  | _, _ => (v, none)

/-- One operation. -/
def step (v : Values α) : Op α → Values α × Option Raised
  | .parameters text alloc => v.fromParameters text alloc
  | .copyContext c => (v.copyContext c, none)
  | .moveContext c => (v.moveContext c, none)
  | .assignContext dst src => (v.assignContext dst src, none)
  | .moveAssignContext dst src => (v.moveAssignContext dst src, none)
  | .destroyContext c => (v.destroyContext c, none)
  | .construct c alloc value => v.construct c alloc value
  | .copy e alloc => v.one e fun a => v.build a.state alloc (.ok a.raw)
  | .move e => (v.move e, none)
  | .assign dst src alloc => v.assign dst src alloc
  | .moveAssign dst src => v.moveAssign dst src
  | .destroy e => (v.destroy e, none)
  | .unary f check e alloc => v.one e fun a =>
      match check a.raw with
      | .error t => (v, some (.thrown t))
      | .ok _ => v.build a.state alloc (.ok (f a.raw))
  | .combine f a b alloc => v.both a b fun r => v.build r.1 alloc (.ok (f r.2.1 r.2.2))
  | .equals a b => v.both a b fun _ => (v, none)

/-- A program. -/
def run : Values α → List (Op α) → Values α × List (Option Raised)
  | v, [] => (v, [])
  | v, op :: ops =>
      let (v, r) := v.step op
      let (v, rs) := run v ops
      (v, r :: rs)

/-- A variable in scope belongs to the pairing `p`. -/
def Names (v : Values α) (p : ℕ) : Prop :=
  some (some p) ∈ v.contexts ∨ ∃ x, some x ∈ v.elements ∧ ∃ s ∈ x.storage, s.state = p

end Values

/-! ## What the counts count -/

namespace Heap

variable {α : Type} {h : Heap α} {shared loose : List ℕ}

/-- The storage is alive and belongs to the pairing `p`. -/
def Alive (p : ℕ) (c : StorageCell α) : Bool := !c.cleared && c.storage.state == p

theorem alive_live (p : ℕ) (c : Storage α) : Alive p ⟨c, false⟩ = (c.state == p) := rfl

theorem alive_cleared (p : ℕ) (c : Storage α) : Alive p ⟨c, true⟩ = false := rfl

/-- The owners a pairing has among the contexts and the storages. -/
def uses (h : Heap α) (p : ℕ) : ℕ := owners h.contexts p + h.storages.countP (Alive p)

/-- A pairing with `n` owners: it is destroyed when there is none, and cleared with that
exactly if it was initialised. -/
structure Counted (c : PairingCell) (n : ℕ) : Prop where
  useCount : c.useCount = n
  freed : c.freed = true ↔ n = 0
  cleared : c.cleared = (c.freed && c.initialized)

/-- The counts are right when the references in `shared` and the storages in `loose`
belong to temporaries. -/
structure Owned (h : Heap α) (shared loose : List ℕ) : Prop where
  counted : ∀ p c, h.pairings[p]? = some c → Counted c (h.uses p + shared.count p)
  held : ∀ p, 0 < h.uses p + shared.count p → ∃ c, h.pairings[p]? = some c ∧ c.initialized = true
  single : ∀ s c, h.storages[s]? = some c →
    owners h.elements s + loose.count s = if c.cleared then 0 else 1
  made : ∀ s, 0 < owners h.elements s + loose.count s → s < h.storages.length

theorem owned_empty : Owned (empty : Heap α) [] [] := by
  constructor <;> simp [empty, uses, owners]

/-- A pairing with an owner may be used. -/
theorem Owned.pairing (ho : Owned h shared loose) {p : ℕ} (hp : 0 < h.uses p + shared.count p) :
    ∃ c, h.pairings[p]? = some c ∧ c.Usable ∧ Counted c (h.uses p + shared.count p) := by
  obtain ⟨c, hc, hinit⟩ := ho.held p hp
  have hcount := ho.counted p c hc
  refine ⟨c, hc, ⟨hinit, ?_⟩, hcount⟩
  by_contra hfreed
  exact hp.ne' (hcount.freed.1 (by simpa using hfreed))

/-- A storage with an owner may be used, and its pairing has an owner. -/
theorem Owned.accessible (ho : Owned h shared loose) {s : ℕ}
    (hs : 0 < owners h.elements s + loose.count s) :
    ∃ c, h.storages[s]? = some ⟨c, false⟩ ∧ h.access s = some c ∧ 0 < h.uses c.state := by
  have hlt := ho.made s hs
  obtain ⟨⟨c, cleared⟩, hget⟩ : ∃ c, h.storages[s]? = some c := ⟨_, List.getElem?_eq_getElem hlt⟩
  obtain rfl : cleared = false := by
    have hone := ho.single s _ hget
    cases cleared with
    | false => rfl
    | true => simp at hone; omega
  have huse : 0 < h.uses c.state := by
    have : 0 < h.storages.countP (Alive c.state) :=
      List.countP_pos_iff.2 ⟨_, List.mem_of_getElem? hget, by simp [Alive]⟩
    rw [uses]
    omega
  obtain ⟨p, hp, husable, -⟩ := ho.pairing (p := c.state) (by omega)
  exact ⟨c, hget, by simp [access, hget, hp, husable], huse⟩

/-- The pairing of one number changes, and with it the references to it that temporaries
hold. -/
theorem Owned.setPairing (ho : Owned h shared loose) {p : ℕ} {c c' : PairingCell}
    {shared' : List ℕ} (hp : h.pairings[p]? = some c) (hinit : c'.initialized = true)
    (hcount : Counted c' (h.uses p + shared'.count p))
    (hother : ∀ q, q ≠ p → shared'.count q = shared.count q) :
    Owned { h with pairings := h.pairings.set p c' } shared' loose where
  counted q d hd := by
    change Counted d (h.uses q + shared'.count q)
    rcases getElem?_set_cases hp hd with ⟨rfl, rfl⟩ | ⟨hq, hd'⟩
    · exact hcount
    · rw [hother q hq]
      exact ho.counted q d hd'
  held q hq := by
    change 0 < h.uses q + shared'.count q at hq
    by_cases hqp : q = p
    · subst hqp
      exact ⟨c', getElem?_set_of_some hp c', hinit⟩
    · obtain ⟨d, hd, hdi⟩ := ho.held q (by rwa [hother q hqp] at hq)
      exact ⟨d, (List.getElem?_set_ne (Ne.symm hqp)).trans hd, hdi⟩
  single := ho.single
  made := ho.made

/-- A temporary copies a reference that has an owner. -/
theorem Owned.retain (ho : Owned h shared loose) {p : ℕ} (hp : 0 < h.uses p + shared.count p) :
    ∃ ps, ps.length = h.pairings.length ∧ h.retain p = some { h with pairings := ps } ∧
      Owned { h with pairings := ps } (p :: shared) loose := by
  obtain ⟨c, hc, husable, hcount⟩ := ho.pairing hp
  refine ⟨h.pairings.set p { c with useCount := c.useCount + 1 }, List.length_set, ?_,
    ho.setPairing hc husable.1 ⟨?_, ?_, ?_⟩ ?_⟩
  · simp [Heap.retain, hc, husable.2]
  · simp [hcount.useCount, Nat.add_assoc]
  · simp [husable.2]
  · simp [hcount.cleared]
  · intro q hq
    exact List.count_cons_of_ne (Ne.symm hq)

/-- A temporary gives its reference back. -/
theorem Owned.release {p : ℕ} (ho : Owned h (p :: shared) loose) :
    ∃ ps, ps.length = h.pairings.length ∧ h.release p = some { h with pairings := ps } ∧
      Owned { h with pairings := ps } shared loose := by
  obtain ⟨c, hc, husable, hcount⟩ := ho.pairing (p := p) (by simp)
  have huse : c.useCount = h.uses p + shared.count p + 1 := by
    rw [hcount.useCount, List.count_cons_self]
    rfl
  have hother : ∀ q, q ≠ p → shared.count q = (p :: shared).count q := fun q hq =>
    (List.count_cons_of_ne (Ne.symm hq)).symm
  by_cases hone : c.useCount = 1
  · refine ⟨h.pairings.set p ⟨0, c.initialized, true, c.initialized⟩, List.length_set, ?_,
      ho.setPairing hc husable.1 ⟨?_, ?_, ?_⟩ hother⟩
    · simp [Heap.release, hc, husable.2, hone]
    · simp; omega
    · simp; omega
    · simp
  · refine ⟨h.pairings.set p { c with useCount := c.useCount - 1 }, List.length_set, ?_,
      ho.setPairing hc husable.1 ⟨?_, ?_, ?_⟩ hother⟩
    · simp [Heap.release, hc, husable.2, hone]
    · simp; omega
    · simp [husable.2]; omega
    · simp [hcount.cleared]

/-- No pairing changes, and each keeps its number of owners, be they variables, storages or
temporaries. -/
theorem Owned.recount {h' : Heap α} {shared' loose' : List ℕ} (ho : Owned h shared loose)
    (hpairings : h'.pairings = h.pairings)
    (huses : ∀ p, h'.uses p + shared'.count p = h.uses p + shared.count p)
    (hsingle : ∀ s c, h'.storages[s]? = some c →
      owners h'.elements s + loose'.count s = if c.cleared then 0 else 1)
    (hmade : ∀ s, 0 < owners h'.elements s + loose'.count s → s < h'.storages.length) :
    Owned h' shared' loose' where
  counted p c hc := by
    rw [huses p]
    exact ho.counted p c (hpairings ▸ hc)
  held p hp := by
    rw [huses p] at hp
    rw [hpairings]
    exact ho.held p hp
  single := hsingle
  made := hmade

/-- The context variables change, and what they no longer own belongs to temporaries. -/
theorem Owned.withContexts {contexts : List Slot} {shared' : List ℕ} (ho : Owned h shared loose)
    (hcount : ∀ p, owners contexts p + shared'.count p = owners h.contexts p + shared.count p) :
    Owned { h with contexts := contexts } shared' loose := by
  refine ho.recount rfl (fun p => ?_) ho.single ho.made
  have := hcount p
  simp only [uses]
  omega

/-- The element variables change, and what they no longer own belongs to temporaries. -/
theorem Owned.withElements {elements : List Slot} {loose' : List ℕ} (ho : Owned h shared loose)
    (hcount : ∀ s, owners elements s + loose'.count s = owners h.elements s + loose.count s) :
    Owned { h with elements := elements } shared loose' :=
  ho.recount rfl (fun _ => rfl) (fun s c hc => (hcount s).trans (ho.single s c hc))
    fun s hs => ho.made s (hcount s ▸ hs)

/-- A temporary and a context variable exchange what they hold. -/
theorem Owned.exchangeContext (new : Slot) {i : ℕ} {old : Slot}
    (ho : Owned h (new.tokens ++ shared) loose) (hi : h.contexts[i]? = some old) :
    Owned { h with contexts := h.contexts.set i new } (old.tokens ++ shared) loose := by
  refine ho.withContexts fun p => ?_
  have := owners_set hi new p
  simp only [List.count_append]
  omega

/-- A temporary becomes a context variable. -/
theorem Owned.declareContext (new : Slot) (ho : Owned h (new.tokens ++ shared) loose) :
    Owned { h with contexts := h.contexts ++ [new] } shared loose := by
  refine ho.withContexts fun p => ?_
  rw [owners_append, List.count_append, Nat.add_assoc]

/-- A temporary and an element variable exchange what they hold. -/
theorem Owned.exchangeElement (new : Slot) {i : ℕ} {old : Slot}
    (ho : Owned h shared (new.tokens ++ loose)) (hi : h.elements[i]? = some old) :
    Owned { h with elements := h.elements.set i new } shared (old.tokens ++ loose) := by
  refine ho.withElements fun s => ?_
  have := owners_set hi new s
  simp only [List.count_append]
  omega

/-- A temporary becomes an element variable. -/
theorem Owned.declareElement (new : Slot) (ho : Owned h shared (new.tokens ++ loose)) :
    Owned { h with elements := h.elements ++ [new] } shared loose := by
  refine ho.withElements fun s => ?_
  rw [owners_append, List.count_append, Nat.add_assoc]

/-- A storage takes over a reference. -/
theorem Owned.storage {p : ℕ} (ho : Owned h (p :: shared) loose) (a : α) :
    Owned { h with storages := h.storages ++ [⟨⟨p, a⟩, false⟩] } shared
      (h.storages.length :: loose) := by
  have huses : ∀ q, ({ h with storages := h.storages ++ [⟨⟨p, a⟩, false⟩] } : Heap α).uses q +
      shared.count q = h.uses q + (p :: shared).count q := by
    intro q
    simp only [uses, List.countP_append, List.countP_singleton, List.count_cons, Alive,
      Bool.not_false, Bool.true_and]
    omega
  -- the number of the new storage had no owner before
  have hfresh : owners h.elements h.storages.length + loose.count h.storages.length = 0 := by
    by_contra hne
    exact absurd (ho.made _ (Nat.pos_of_ne_zero hne)) (lt_irrefl _)
  refine ho.recount rfl huses ?_ ?_
  · intro s c hc
    change owners h.elements s + _ = _
    rcases Nat.lt_trichotomy s h.storages.length with hlt | rfl | hgt
    · rw [List.count_cons_of_ne (by omega)]
      exact ho.single s c (by rwa [List.getElem?_append_left hlt] at hc)
    · obtain rfl : _ = c := by simpa using hc
      rw [List.count_cons_self]
      simp
      omega
    · rw [List.getElem?_eq_none (by simp; omega)] at hc
      cases hc
  · intro s hs
    change 0 < owners h.elements s + _ at hs
    simp only [List.length_append, List.length_singleton]
    by_cases hs' : s = h.storages.length
    · omega
    · rw [List.count_cons_of_ne (Ne.symm hs')] at hs
      have := ho.made s hs
      omega

/-- The destructor of a storage clears it; the reference it held is a temporary until it
is given back. -/
theorem Owned.clear {s : ℕ} {c : Storage α} (ho : Owned h shared (s :: loose))
    (hs : h.storages[s]? = some ⟨c, false⟩) :
    Owned { h with storages := h.storages.set s ⟨c, true⟩ } (c.state :: shared) loose := by
  have huses : ∀ q, ({ h with storages := h.storages.set s ⟨c, true⟩ } : Heap α).uses q +
      (c.state :: shared).count q = h.uses q + shared.count q := by
    intro q
    have := countP_set_add (Alive q) hs ⟨c, true⟩
    by_cases hq : c.state = q
    · simp [uses, alive_cleared, alive_live, hq] at this ⊢
      omega
    · simp [uses, alive_cleared, alive_live, hq] at this ⊢
      omega
  have hone := ho.single s _ hs
  rw [List.count_cons_self] at hone
  refine ho.recount rfl huses ?_ ?_
  · intro t d hd
    change owners h.elements t + loose.count t = _
    rcases getElem?_set_cases hs hd with ⟨rfl, rfl⟩ | ⟨ht, hd'⟩
    · simp at hone ⊢
      omega
    · have := ho.single t d hd'
      rwa [List.count_cons_of_ne (Ne.symm ht)] at this
  · intro t ht
    change 0 < owners h.elements t + loose.count t at ht
    have := ho.made t (by rw [List.count_cons]; omega)
    simpa using this

/-- The library writes a value into a storage. -/
theorem Owned.written {s : ℕ} {c : Storage α} (ho : Owned h shared loose)
    (hs : h.storages[s]? = some ⟨c, false⟩) (a : α) :
    Owned { h with storages := h.storages.set s ⟨⟨c.state, a⟩, false⟩ } shared loose := by
  have huses : ∀ q, ({ h with storages := h.storages.set s ⟨⟨c.state, a⟩, false⟩ } : Heap α).uses q =
      h.uses q := by
    intro q
    have := countP_set_add (Alive q) hs ⟨⟨c.state, a⟩, false⟩
    simp only [uses, Nat.add_left_cancel_iff]
    exact Nat.add_right_cancel this
  refine ho.recount rfl (fun q => by rw [huses q]) ?_ ?_
  · intro t d hd
    rcases getElem?_set_cases hs hd with ⟨rfl, rfl⟩ | ⟨ht, hd'⟩
    · exact ho.single t ⟨c, false⟩ hs
    · exact ho.single t d hd'
  · intro t ht
    simpa using ho.made t ht

end Heap

end Lifetimes

end Lktrs.Protocol
