import Lktrs.Protocol.Lifetimes

/-!
# Programs over pairings and elements

Each operation of the wrapper, run on a memory whose counts are right, is defined,
leaves the counts right and does to the variables what it does over values
(`Heap.Owned.step`). By induction this holds of every program, and the three results
at the end follow: no program reaches undefined behaviour, objects are cleared with
their last owner, and an operation that raises something changes nothing.
-/

set_option autoImplicit false

namespace Lktrs.Protocol

open Lktrs.Foundation

namespace Lifetimes

/-! ## The operations do what they do to values -/

namespace Heap

variable {α : Type} {h h' : Heap α} {shared loose : List ℕ}

/-- What the storages ever made hold. -/
def stores (h : Heap α) : List (Storage α) := h.storages.map StorageCell.storage

/-- The value of an element variable. -/
def valueOf (h : Heap α) (o : Option ℕ) : Element α := ⟨o.bind fun s => h.stores[s]?⟩

/-- The variables with their values. -/
def values (h : Heap α) : Values α :=
  ⟨h.pairings.length, h.contexts, h.elements.map (Option.map h.valueOf)⟩

/-- No variable changed, and storages were only added. -/
structure Grows (h h' : Heap α) : Prop where
  pairings : h'.pairings.length = h.pairings.length
  contexts : h'.contexts = h.contexts
  elements : h'.elements = h.elements
  stores : h.stores <+: h'.stores

theorem Grows.refl (h : Heap α) : Grows h h := ⟨rfl, rfl, rfl, List.prefix_rfl⟩

theorem Grows.trans {h'' : Heap α} (g : Grows h h') (g' : Grows h' h'') : Grows h h'' :=
  ⟨g'.pairings.trans g.pairings, g'.contexts.trans g.contexts, g'.elements.trans g.elements,
    g.stores.trans g'.stores⟩

/-- The counts of pairings may change at will. -/
theorem grows_pairings {ps : List PairingCell} (hps : ps.length = h.pairings.length) :
    Grows h { h with pairings := ps } :=
  ⟨hps, rfl, rfl, List.prefix_rfl⟩

theorem Grows.valueOf_eq (g : Grows h h') {s : ℕ} (hs : s < h.storages.length) :
    h'.valueOf (some s) = h.valueOf (some s) := by
  obtain ⟨more, hmore⟩ := g.stores
  have hlen : s < h.stores.length := by simpa [Heap.stores] using hs
  simp only [valueOf, Option.bind_some, ← hmore, List.getElem?_append_left hlen]

/-- What variables are worth does not depend on storages that are added. -/
theorem Owned.map_valueOf (ho : Owned h shared loose) (g : Grows h h') :
    h.elements.map (Option.map h'.valueOf) = h.elements.map (Option.map h.valueOf) := by
  refine List.map_congr_left fun slot hslot => ?_
  match slot with
  | none => rfl
  | some none => rfl
  | some (some s) =>
      have : 0 < owners h.elements s := owners_pos.2 hslot
      exact congrArg some (g.valueOf_eq (ho.made s (by omega)))

theorem Owned.values_eq (ho : Owned h shared loose) (g : Grows h h') : h'.values = h.values := by
  simp only [values, g.pairings, g.contexts, g.elements, ho.map_valueOf g]

/-- The value of an element that may be read. -/
theorem valueOf_of_access {s : ℕ} {c : Storage α} {cleared : Bool}
    (hs : h.storages[s]? = some ⟨c, cleared⟩) : h.valueOf (some s) = .live c.state c.raw := by
  simp [valueOf, stores, hs, Element.live]

/-- A storage keeps what it holds when storages are added. -/
theorem getElem?_of_stores (hstores : h.stores <+: h'.stores) {s : ℕ} {c : StorageCell α}
    (hc : h.storages[s]? = some c) :
    ∃ c', h'.storages[s]? = some c' ∧ c'.storage = c.storage := by
  have hheld : h'.stores[s]? = some c.storage := by
    obtain ⟨more, hmore⟩ := hstores
    have hlt : s < h.stores.length := by
      simpa [stores] using (List.getElem?_eq_some_iff.1 hc).1
    rw [← hmore, List.getElem?_append_left hlt]
    simp [stores, hc]
  simpa [stores] using hheld

/-- The destructor of a storage. -/
theorem Owned.destroyStorage {s : ℕ} (ho : Owned h shared (s :: loose)) :
    ∃ h', h.destroyStorage s = some h' ∧ Owned h' shared loose ∧ Grows h h' := by
  obtain ⟨c, hs, haccess, -⟩ := ho.accessible (s := s) (by simp)
  obtain ⟨ps, hps, hrelease, howned⟩ := (ho.clear hs).release
  refine ⟨_, by simp only [Heap.destroyStorage, haccess, hrelease], howned, hps, rfl, rfl, ?_⟩
  have hset : (h.storages.set s ⟨c, true⟩).map StorageCell.storage = h.stores := by
    rw [List.map_set]
    refine List.ext_getElem? fun i => ?_
    by_cases hi : s = i
    · subst hi
      rw [getElem?_set_of_some (a := c) (by simp [hs])]
      simp [stores, hs]
    · rw [List.getElem?_set_ne hi]
      rfl
  exact hset ▸ List.prefix_rfl

/-- What a variable held is destroyed. -/
theorem Owned.destroySlot {slot : Slot} (ho : Owned h shared (slot.tokens ++ loose)) :
    ∃ h', h.destroySlot slot = some h' ∧ Owned h' shared loose ∧ Grows h h' := by
  match slot with
  | some (some s) => exact ho.destroyStorage
  | some none => exact ⟨h, rfl, ho, .refl h⟩
  | none => exact ⟨h, rfl, ho, .refl h⟩

/-- What a context held is given back. -/
theorem Owned.releaseSlot {slot : Slot} (ho : Owned h (slot.tokens ++ shared) loose) :
    ∃ h', h.releaseSlot slot = some h' ∧ Owned h' shared loose ∧ Grows h h' := by
  match slot with
  | some (some p) =>
      obtain ⟨ps, hps, hrelease, howned⟩ := Owned.release ho
      exact ⟨_, hrelease, howned, grows_pairings hps⟩
  | some none => exact ⟨h, rfl, ho, .refl h⟩
  | none => exact ⟨h, rfl, ho, .refl h⟩

section Build

variable {p : ℕ} (blank : α)

/-- A failed allocation gives the argument's reference back. -/
theorem Owned.build_alloc (ho : Owned h shared loose) (hp : 0 < h.uses p)
    (value : Except Thrown α) :
    ∃ h', h.build blank p false value = some (h', .error .badAlloc) ∧
      Owned h' shared loose ∧ Grows h h' := by
  obtain ⟨ps, hps, hretain, howned⟩ := ho.retain (p := p) (by omega)
  obtain ⟨ps', hps', hrelease, howned'⟩ := howned.release
  exact ⟨_, by simp [build, hretain, hrelease], howned', hps'.trans hps, rfl, rfl, List.prefix_rfl⟩

/-- A storage on a pairing that has an owner. -/
theorem Owned.initStorage (ho : Owned h shared loose) (hp : 0 < h.uses p) :
    ∃ ps, ps.length = h.pairings.length ∧ h.retain p = some { h with pairings := ps } ∧
      ({ h with pairings := ps } : Heap α).initStorage blank p = some
        ({ h with pairings := ps, storages := h.storages ++ [⟨⟨p, blank⟩, false⟩] },
          h.storages.length) ∧
      Owned { h with pairings := ps, storages := h.storages ++ [⟨⟨p, blank⟩, false⟩] } shared
        (h.storages.length :: loose) := by
  obtain ⟨ps, hps, hretain, howned⟩ := ho.retain (p := p) (by omega)
  obtain ⟨c, hc, husable, -⟩ := howned.pairing (p := p) (by simp)
  exact ⟨ps, hps, hretain, by simp [Heap.initStorage, hc, husable], howned.storage blank⟩

theorem grows_storage {ps : List PairingCell} (hps : ps.length = h.pairings.length)
    (c : StorageCell α) : Grows h { h with pairings := ps, storages := h.storages ++ [c] } :=
  ⟨hps, rfl, rfl, by simp [stores]⟩

/-- An exception after the allocation destroys the storage. -/
theorem Owned.build_throws (ho : Owned h shared loose) (hp : 0 < h.uses p) (t : Thrown) :
    ∃ h', h.build blank p true (.error t) = some (h', .error (.thrown t)) ∧
      Owned h' shared loose ∧ Grows h h' := by
  obtain ⟨ps, hps, hretain, hinit, howned⟩ := ho.initStorage blank hp
  obtain ⟨h', hdestroy, howned', g⟩ := howned.destroyStorage
  exact ⟨h', by simp [build, hretain, hinit, hdestroy], howned', (grows_storage hps _).trans g⟩

/-- The value is written into a new storage, which a temporary owns. -/
theorem Owned.build_ok (ho : Owned h shared loose) (hp : 0 < h.uses p) (a : α) :
    ∃ h', h.build blank p true (.ok a) = some (h', .ok h.storages.length) ∧
      Owned h' shared (h.storages.length :: loose) ∧ Grows h h' ∧
      h'.valueOf (some h.storages.length) = .live p a := by
  obtain ⟨ps, hps, hretain, hinit, howned⟩ := ho.initStorage blank hp
  obtain ⟨c, hs, haccess, -⟩ := howned.accessible (s := h.storages.length) (by simp)
  obtain rfl : (⟨p, blank⟩ : Storage α) = c := by simpa using hs
  refine ⟨_, by simp [build, hretain, hinit, write, haccess], howned.written hs a,
    ⟨hps, rfl, rfl, ?_⟩, ?_⟩
  · simp [stores]
  · simp [valueOf, stores, Element.live]

end Build

/-- From `h` the step leaves the counts right, does to the variables what `w` says, and if it
raises something, leaves each variable with the storage it owns. -/
def Does (h : Heap α) (x : Option (Outcome α)) (w : Values α × Option Raised) : Prop :=
  ∃ o, x = some o ∧ Owned o.1 [] [] ∧ (o.1.values, o.2) = w ∧
    (o.2 ≠ none → o.1.elements = h.elements ∧ h.stores <+: o.1.stores)

/-- A step that leaves the memory as it is. -/
theorem Owned.does_nothing (ho : Owned h [] []) (r : Option Raised) :
    Does h (some (h, r)) (h.values, r) :=
  ⟨(h, r), rfl, ho, rfl, fun _ => ⟨rfl, List.prefix_rfl⟩⟩

/-- A step that changes no variable. -/
theorem Owned.does_grow (ho : Owned h [] []) (ho' : Owned h' [] []) (g : Grows h h')
    (r : Option Raised) : Does h (some (h', r)) (h.values, r) :=
  ⟨(h', r), rfl, ho', by rw [ho.values_eq g], fun _ => ⟨g.elements, g.stores⟩⟩

theorem values_contexts (h : Heap α) : h.values.contexts = h.contexts := rfl

theorem values_elements (h : Heap α) (elements : List Slot) :
    ({ h with elements := elements } : Heap α).values =
      { h.values with elements := elements.map (Option.map h.valueOf) } := rfl

theorem getElem?_values (h : Heap α) (e : ℕ) :
    h.values.elements[e]? = h.elements[e]?.map (Option.map h.valueOf) := by
  simp [values]

/-- A new element is built and declared. -/
theorem Owned.does_build (ho : Owned h [] []) {p : ℕ} (hp : 0 < h.uses p) (blank : α)
    (alloc : Bool) (value : Except Thrown α) :
    Does h ((h.build blank p alloc value).map declare) (h.values.build p alloc value) := by
  match alloc, value with
  | false, value =>
      obtain ⟨h', hbuild, ho', g⟩ := ho.build_alloc blank hp value
      rw [hbuild]
      exact ho.does_grow ho' g _
  | true, .error t =>
      obtain ⟨h', hbuild, ho', g⟩ := ho.build_throws blank hp t
      rw [hbuild]
      exact ho.does_grow ho' g _
  | true, .ok a =>
      obtain ⟨h', hbuild, ho', g, hvalue⟩ := ho.build_ok blank hp a
      refine ⟨_, by rw [hbuild]; rfl, Owned.declareElement (some (some _)) ho', ?_,
        fun hne => absurd rfl hne⟩
      change (({ h' with elements := h'.elements ++ [some (some _)] } : Heap α).values, none) = _
      rw [values_elements, ho.values_eq g, List.map_append, g.elements, ho.map_valueOf g]
      simp [Values.build, hvalue, values]

/-- A context that holds a pairing counts. -/
theorem uses_context {c p : ℕ} (hc : h.contexts[c]? = some (some (some p))) :
    0 < h.uses p := by
  have : 0 < owners h.contexts p := owners_pos.2 (List.mem_of_getElem? hc)
  rw [uses]
  omega

section Steps

variable (ho : Owned h [] [])
include ho

/-- An element variable that was not moved from. -/
theorem Owned.element {e s : ℕ} (he : h.elements[e]? = some (some (some s))) :
    ∃ c, h.access s = some c ∧ 0 < h.uses c.state ∧
      h.valueOf (some s) = .live c.state c.raw := by
  have : 0 < owners h.elements s := owners_pos.2 (List.mem_of_getElem? he)
  obtain ⟨c, hs, haccess, huse⟩ := ho.accessible (s := s) (by omega)
  exact ⟨c, haccess, huse, valueOf_of_access hs⟩

/-- A pairing is added with the temporaries that own it. -/
theorem Owned.addPairing {c : PairingCell} (own : List ℕ)
    (hcount : Counted c (own.count h.pairings.length))
    (hown : ∀ p ∈ own, p = h.pairings.length ∧ c.initialized = true) :
    Owned { h with pairings := h.pairings ++ [c] } own [] := by
  -- the number of the new pairing has no owner yet
  have hfresh : h.uses h.pairings.length = 0 := by
    by_contra hne
    obtain ⟨c, hc, -⟩ := ho.held h.pairings.length (by omega)
    exact absurd (List.getElem?_eq_some_iff.1 hc).1 (lt_irrefl _)
  have hother : ∀ p, p ≠ h.pairings.length → own.count p = 0 := fun p hp =>
    List.count_eq_zero.2 fun hmem => hp (hown p hmem).1
  refine ⟨fun p d hd => ?_, fun p hp => ?_, ho.single, ho.made⟩
  · change Counted d (h.uses p + _)
    rcases Nat.lt_trichotomy p h.pairings.length with hlt | rfl | hgt
    · rw [hother p hlt.ne]
      exact ho.counted p d (by rwa [List.getElem?_append_left hlt] at hd)
    · obtain rfl : c = d := by simpa using hd
      rwa [hfresh, Nat.zero_add]
    · rw [List.getElem?_eq_none (by simp; omega)] at hd
      cases hd
  · change 0 < h.uses p + _ at hp
    by_cases hpl : p = h.pairings.length
    · subst hpl
      have hmem : h.pairings.length ∈ own := List.count_pos_iff.1 (by omega)
      exact ⟨c, by simp, (hown _ hmem).2⟩
    · obtain ⟨d, hd, hinit⟩ := ho.held p (by rwa [hother p hpl] at hp)
      exact ⟨d, by rw [List.getElem?_append_left (List.getElem?_eq_some_iff.1 hd).1, hd], hinit⟩

/-- The owner of `from_trusted_parameters` is destroyed again by an exception: the pairing
is cleared exactly if it was initialised. -/
theorem Owned.does_abandon (b : Bool) (t : Thrown) :
    Does h (do
        let h ← ({ h with pairings := h.pairings ++ [⟨1, b, false, false⟩] } : Heap α).release
          h.pairings.length
        some (h, some (.thrown t)))
      ({ h.values with made := h.values.made + 1 }, some (.thrown t)) := by
  refine ⟨({ h with pairings := h.pairings ++ [⟨0, b, true, b⟩] }, some (.thrown t)), ?_,
    ho.addPairing [] ⟨rfl, by simp, by simp⟩ (by simp), ?_, fun _ => ⟨rfl, List.prefix_rfl⟩⟩
  · simp [Heap.release]
  · change ((⟨(h.pairings ++ [_]).length, h.contexts, h.values.elements⟩ : Values α), _) = _
    rw [List.length_append]
    rfl

theorem Owned.fromParameters (text : Parameters) (alloc : Bool) :
    Does h (h.fromParameters text alloc) (h.values.fromParameters text alloc) := by
  cases text with
  | invalidText => exact ho.does_nothing _
  | initFails =>
      cases alloc with
      | false => exact ho.does_nothing _
      | true => exact ho.does_abandon false _
  | badOrder =>
      cases alloc with
      | false => exact ho.does_nothing _
      | true => exact ho.does_abandon true _
  | good =>
      cases alloc with
      | false => exact ho.does_nothing _
      | true =>
          have howned := ho.addPairing (c := ⟨1, true, false, false⟩) [h.pairings.length]
            ⟨by simp, by simp, by simp⟩ (by simp)
          refine ⟨_, rfl, Owned.declareContext (some (some h.pairings.length)) howned, ?_,
            fun hne => absurd rfl hne⟩
          change ((⟨(h.pairings ++ [_]).length, _, h.values.elements⟩ : Values α), _) = _
          rw [List.length_append]
          rfl

theorem Owned.copyContext (c : ℕ) :
    Does h (h.copyContext c) (h.values.copyContext c, none) := by
  unfold Heap.copyContext Values.copyContext
  rw [values_contexts]
  split
  next p hc =>
    obtain ⟨ps, hps, hretain, howned⟩ := ho.retain (p := p) (by have := uses_context hc; omega)
    refine ⟨_, by rw [hretain]; rfl, Owned.declareContext (some (some p)) howned, ?_,
      fun hne => absurd rfl hne⟩
    simp only [hc]
    change ((⟨ps.length, _, h.values.elements⟩ : Values α), _) = _
    rw [hps]
    rfl
  next hc =>
    refine ⟨_, rfl, Owned.declareContext (some none) ho, ?_, fun hne => absurd rfl hne⟩
    simp only [hc]
    rfl
  next hnot hnot' =>
    split
    next o ho' =>
      cases o with
      | none => exact absurd ho' hnot'
      | some p => exact absurd ho' (hnot p)
    next => exact ho.does_nothing none

theorem Owned.moveContext (c : ℕ) :
    Does h (h.moveContext c) (h.values.moveContext c, none) := by
  unfold Heap.moveContext Values.moveContext
  rw [values_contexts]
  split
  next o hc =>
    have hmoved := Owned.exchangeContext (some none) ho hc
    exact ⟨_, rfl, Owned.declareContext (some o) hmoved, rfl, fun hne => absurd rfl hne⟩
  next => exact ho.does_nothing none

/-- A context variable is overwritten and what it held is given back. -/
theorem Owned.does_replaceContext {cs : List Slot} {old : Slot} {v : Values α}
    (ho' : Owned { h' with contexts := cs } old.tokens []) (g : Grows h h')
    (hv : v = { h.values with contexts := cs }) :
    Does h (do
        let h ← ({ h' with contexts := cs } : Heap α).releaseSlot old
        some (h, none)) (v, none) := by
  obtain ⟨h'', hrelease, howned, g'⟩ :=
    Owned.releaseSlot (by rwa [List.append_nil])
  refine ⟨(h'', none), by rw [hrelease]; rfl, howned, ?_, fun hne => absurd rfl hne⟩
  rw [ho'.values_eq g', hv, ← ho.values_eq g]
  rfl

theorem Owned.assignContext (dst src : ℕ) :
    Does h (h.assignContext dst src) (h.values.assignContext dst src, none) := by
  unfold Heap.assignContext Values.assignContext
  rw [values_contexts]
  split
  next d p hd hs =>
    obtain ⟨ps, hps, hretain, howned⟩ := ho.retain (p := p) (by have := uses_context hs; omega)
    rw [hretain]
    have hset := Owned.exchangeContext (some (some p)) howned hd
    rw [List.append_nil] at hset
    exact ho.does_replaceContext hset (grows_pairings hps) (by simp only [hd, hs])
  next d hd hs =>
    have hset := Owned.exchangeContext (some none) ho hd
    rw [List.append_nil] at hset
    exact ho.does_replaceContext hset (.refl h) (by simp only [hd, hs])
  next hnot hnot' =>
    split
    next d o hd hs =>
      cases o with
      | none => exact absurd hs (hnot' d hd)
      | some p => exact absurd hs (hnot d p hd)
    next => exact ho.does_nothing none

theorem Owned.moveAssignContext (dst src : ℕ) :
    Does h (h.moveAssignContext dst src) (h.values.moveAssignContext dst src, none) := by
  unfold Heap.moveAssignContext Values.moveAssignContext
  rw [values_contexts]
  split
  next o hs =>
    have hmoved := Owned.exchangeContext (some none) ho hs
    -- the destination is in scope after the source was emptied exactly if it was before
    by_cases hsame : dst = src
    · subst hsame
      have hd : (h.contexts.set dst (some none))[dst]? = some (some none) :=
        getElem?_set_of_some hs _
      have hset := Owned.exchangeContext (some o) hmoved hd
      simp only [hd, hs]
      exact ho.does_replaceContext hset (.refl h) rfl
    · have hget : (h.contexts.set src (some none))[dst]? = h.contexts[dst]? :=
        List.getElem?_set_ne (Ne.symm hsame)
      simp only [hget, hs]
      split
      next d hd =>
        have hset := Owned.exchangeContext (some o) hmoved (hget.trans hd)
        rw [List.append_nil] at hset
        exact ho.does_replaceContext hset (.refl h) (by simp only [hd])
      next hnot =>
        split
        next d _ hd _ => exact absurd hd (hnot d)
        next => exact ho.does_nothing none
  next hnot =>
    split
    next d o _ hs => exact absurd hs (hnot o)
    next => exact ho.does_nothing none

theorem Owned.destroyContext (c : ℕ) :
    Does h (h.destroyContext c) (h.values.destroyContext c, none) := by
  unfold Heap.destroyContext Values.destroyContext
  rw [values_contexts]
  split
  next o hc =>
    have hset := Owned.exchangeContext none ho hc
    rw [List.append_nil] at hset
    exact ho.does_replaceContext hset (.refl h) rfl
  next => exact ho.does_nothing none

theorem Owned.construct (blank : α) (c : ℕ) (alloc : Bool) (value : Except Thrown α) :
    Does h (h.construct blank c alloc value) (h.values.construct c alloc value) := by
  unfold Heap.construct Values.construct
  rw [values_contexts]
  split
  next p hc => exact ho.does_build (uses_context hc) blank alloc value
  next => exact ho.does_nothing _
  next => exact ho.does_nothing _

theorem Owned.copy (blank : α) (e : ℕ) (alloc : Bool) :
    Does h (h.copy blank e alloc)
      (h.values.one e fun a => h.values.build a.state alloc (.ok a.raw)) := by
  unfold Heap.copy Values.one
  rw [getElem?_values]
  rcases he : h.elements[e]? with _ | _ | _ | s
  · exact ho.does_nothing none
  · exact ho.does_nothing none
  · exact ho.does_nothing _
  · obtain ⟨c, haccess, huse, hvalue⟩ := ho.element he
    simp only [haccess, Option.map_some, hvalue, Element.get_live]
    exact ho.does_build huse blank alloc _

theorem Owned.unary (blank : α) (f : α → α) (check : α → Except Thrown Unit) (e : ℕ)
    (alloc : Bool) :
    Does h (h.unary blank f check e alloc) (h.values.step (.unary f check e alloc)) := by
  unfold Heap.unary Values.step Values.one
  simp only [getElem?_values]
  rcases he : h.elements[e]? with _ | _ | _ | s
  · exact ho.does_nothing none
  · exact ho.does_nothing none
  · exact ho.does_nothing _
  · obtain ⟨c, haccess, huse, hvalue⟩ := ho.element he
    simp only [haccess, Option.map_some, hvalue, Element.get_live, Option.bind_eq_bind,
      Option.bind_some]
    split
    next t _ => exact ho.does_nothing _
    next => exact ho.does_build huse blank alloc _

theorem Owned.move (e : ℕ) : Does h (h.move e) (h.values.move e, none) := by
  unfold Heap.move Values.move
  rw [getElem?_values]
  rcases he : h.elements[e]? with _ | _ | o
  · exact ho.does_nothing none
  · exact ho.does_nothing none
  · have hmoved := Owned.exchangeElement (some none) ho he
    refine ⟨_, rfl, Owned.declareElement (some o) hmoved, ?_, fun hne => absurd rfl hne⟩
    change (({ h with elements := h.elements.set e (some none) ++ [some o] } : Heap α).values, none) = _
    rw [values_elements, List.map_append, List.map_set]
    rfl

theorem Owned.destroy (e : ℕ) : Does h (h.destroy e) (h.values.destroy e, none) := by
  unfold Heap.destroy Values.destroy
  rw [getElem?_values]
  rcases he : h.elements[e]? with _ | _ | o
  · exact ho.does_nothing none
  · exact ho.does_nothing none
  · have hset := Owned.exchangeElement none ho he
    obtain ⟨h', hdestroy, howned, g⟩ := hset.destroySlot
    refine ⟨(h', none), by simp [hdestroy], howned, ?_, fun hne => absurd rfl hne⟩
    rw [hset.values_eq g, values_elements, List.map_set]
    rfl

/-- Two elements that may be read. -/
theorem Owned.both (a b : ℕ) {next : ℕ → α → α → Option (Outcome α)}
    {next' : ℕ × α × α → Values α × Option Raised}
    (hnext : ∀ k x y, 0 < h.uses k → Does h (next k x y) (next' (k, x, y))) :
    Does h (h.both a b next) (h.values.both a b next') := by
  unfold Heap.both Values.both
  rw [getElem?_values, getElem?_values]
  rcases ha : h.elements[a]? with _ | _ | o
  · exact ho.does_nothing none
  · exact ho.does_nothing none
  rcases hb : h.elements[b]? with _ | _ | o'
  · exact ho.does_nothing none
  · exact ho.does_nothing none
  rcases o with _ | s
  · exact ho.does_nothing _
  obtain ⟨c, haccess, huse, hvalue⟩ := ho.element ha
  rcases o' with _ | s'
  · simp only [Option.map_some, hvalue]
    exact ho.does_nothing _
  obtain ⟨c', haccess', -, hvalue'⟩ := ho.element hb
  simp only [Option.map_some, hvalue, hvalue', haccess, haccess', Option.bind_eq_bind,
    Option.bind_some]
  by_cases hstate : c.state = c'.state
  · rw [if_pos hstate, ← hstate, Element.getBoth_live]
    exact hnext c.state c.raw c'.raw huse
  · rw [if_neg hstate]
    have : Element.getBoth pbcTexts pbcTexts (.live c.state c.raw) (.live c'.state c'.raw) =
        .error different := by
      simp [Element.getBoth, throwIf, hstate, bind, Except.bind, different]
    rw [this]
    exact ho.does_nothing _

/-- `require_same` on the destination of an assignment. -/
theorem Owned.sameState {dst : ℕ} {d : Option ℕ} (hd : h.elements[dst]? = some (some d))
    (state : ℕ) :
    h.sameState d state = some (decide (Values.Accepts (h.valueOf d) state)) := by
  rcases d with _ | s
  · simp [Heap.sameState, Values.Accepts, valueOf]
  · obtain ⟨c, haccess, -, hvalue⟩ := ho.element hd
    simp [Heap.sameState, haccess, hvalue, Values.Accepts, Element.live]

/-- The two assignments make the same checks, in the same order. -/
theorem Owned.assignable (dst src : ℕ) {f : Option ℕ → ℕ → Storage α → Option (Outcome α)}
    {next : Element α → Values α × Option Raised}
    (hnext : ∀ d s c, dst ≠ src → h.elements[dst]? = some (some d) →
      h.elements[src]? = some (some (some s)) → 0 < h.uses c.state →
      h.valueOf (some s) = .live c.state c.raw →
      Does h (f d s c) (next (.live c.state c.raw))) :
    Does h (match h.elements[dst]?, h.elements[src]? with
      | some (some d), some (some o) =>
          if dst = src then some (h, none)
          else match o with
          | none => some (h, some (.thrown moved))
          | some s => do
              let source ← h.access s
              if ← h.sameState d source.state then f d s source
              else some (h, some (.thrown different))
      | _, _ => some (h, none)) (h.values.assignable dst src next) := by
  unfold Values.assignable
  rw [getElem?_values, getElem?_values]
  rcases hd : h.elements[dst]? with _ | _ | d
  · exact ho.does_nothing none
  · exact ho.does_nothing none
  rcases hs : h.elements[src]? with _ | _ | o
  · exact ho.does_nothing none
  · exact ho.does_nothing none
  by_cases hsame : dst = src
  · simp only [Option.map_some, if_pos hsame]
    exact ho.does_nothing none
  rcases o with _ | s
  · simp only [Option.map_some, if_neg hsame]
    exact ho.does_nothing _
  obtain ⟨c, haccess, huse, hvalue⟩ := ho.element hs
  simp only [Option.map_some, if_neg hsame, hvalue, Element.get_live, haccess, ho.sameState hd,
    Option.bind_eq_bind, Option.bind_some, decide_eq_true_eq]
  by_cases haccepts : Values.Accepts (h.valueOf d) c.state
  · rw [if_pos haccepts, if_pos haccepts]
    exact hnext d s c hsame hd hs huse hvalue
  · rw [if_neg haccepts, if_neg haccepts]
    exact ho.does_nothing _

theorem Owned.assign (blank : α) (dst src : ℕ) (alloc : Bool) :
    Does h (h.assign blank dst src alloc) (h.values.assign dst src alloc) := by
  refine ho.assignable dst src fun d s c _ hd _ huse _ => ?_
  cases alloc with
  | false =>
      obtain ⟨h', hbuild, ho', g⟩ := ho.build_alloc blank huse (.ok c.raw)
      rw [hbuild]
      exact ho.does_grow ho' g _
  | true =>
      obtain ⟨h', hbuild, ho', g, hvalue⟩ := ho.build_ok blank huse c.raw
      have hset := Owned.exchangeElement (some (some h.storages.length)) ho'
        (by rw [g.elements]; exact hd)
      obtain ⟨h'', hdestroy, howned, g'⟩ := hset.destroySlot
      refine ⟨(h'', none), by simp [hbuild, hdestroy], howned, ?_, fun hne => absurd rfl hne⟩
      rw [hset.values_eq g', values_elements, List.map_set, g.elements, ho.map_valueOf g,
        ho.values_eq g, Option.map_some, hvalue]
      rfl

theorem Owned.moveAssign (dst src : ℕ) :
    Does h (h.moveAssign dst src) (h.values.moveAssign dst src) := by
  refine ho.assignable dst src fun d s c hne hd hs _ hvalue => ?_
  have hmoved := Owned.exchangeElement (some none) ho hs
  have hset := Owned.exchangeElement (some (some s)) hmoved
    ((List.getElem?_set_ne (Ne.symm hne)).trans hd)
  obtain ⟨h', hdestroy, howned, g⟩ := hset.destroySlot
  refine ⟨(h', none), by simp [hdestroy], howned, ?_, fun hne => absurd rfl hne⟩
  rw [hset.values_eq g, ← hvalue]
  change (({ h with elements := (h.elements.set src (some none)).set dst (some (some s)) } : Heap α).values,
    none) = _
  rw [values_elements, List.map_set, List.map_set]
  rfl

/-- Every operation is defined, keeps the counts right, and does what it does to values. -/
theorem Owned.step (blank : α) (op : Op α) : Does h (h.step blank op) (h.values.step op) := by
  cases op with
  | parameters text alloc => exact ho.fromParameters text alloc
  | copyContext c => exact ho.copyContext c
  | moveContext c => exact ho.moveContext c
  | assignContext dst src => exact ho.assignContext dst src
  | moveAssignContext dst src => exact ho.moveAssignContext dst src
  | destroyContext c => exact ho.destroyContext c
  | construct c alloc value => exact ho.construct blank c alloc value
  | copy e alloc => exact ho.copy blank e alloc
  | move e => exact ho.move e
  | assign dst src alloc => exact ho.assign blank dst src alloc
  | moveAssign dst src => exact ho.moveAssign dst src
  | destroy e => exact ho.destroy e
  | unary f check e alloc => exact ho.unary blank f check e alloc
  | combine f a b alloc =>
      unfold Heap.step Values.step
      exact ho.both a b fun k x y huse => ho.does_build huse blank alloc _
  | equals a b =>
      unfold Heap.step Values.step
      exact ho.both a b fun _ _ _ _ => ho.does_nothing none

/-- Every program is defined. -/
theorem Owned.run (blank : α) (ops : List (Op α)) :
    ∃ o rs, Heap.run blank h ops = some (o, rs) ∧ Owned o [] [] ∧
      (o.values, rs) = h.values.run ops := by
  induction ops generalizing h with
  | nil => exact ⟨h, [], rfl, ho, rfl⟩
  | cons op ops ih =>
      obtain ⟨⟨h₁, r⟩, hstep, ho₁, hv₁, -⟩ := ho.step blank op
      obtain ⟨o, rs, hrun, ho', hv⟩ := ih ho₁
      refine ⟨o, r :: rs, by simp [Heap.run, hstep, hrun], ho', ?_⟩
      simp only [Values.run, ← hv₁, ← hv]

/-- The pairings that have an owner are those that a variable names. -/
theorem Owned.uses_pos_iff (p : ℕ) : 0 < h.uses p ↔ h.values.Names p := by
  constructor
  · intro huse
    by_cases hcontext : 0 < owners h.contexts p
    · exact .inl (owners_pos.1 hcontext)
    · -- a storage is left, and a storage that is not cleared belongs to a variable
      have hstored : 0 < h.storages.countP (Alive p) := by
        rw [uses] at huse
        omega
      obtain ⟨⟨c, cleared⟩, hmem, halive⟩ := List.countP_pos_iff.1 hstored
      obtain ⟨rfl, rfl⟩ : cleared = false ∧ c.state = p := by simpa [Alive] using halive
      obtain ⟨s, hs⟩ := List.getElem?_of_mem hmem
      have howner : owners h.elements s = 1 := by simpa using ho.single s _ hs
      have hslot : some (some s) ∈ h.elements := owners_pos.1 (by omega)
      refine .inr ⟨h.valueOf (some s), List.mem_map.2 ⟨_, hslot, rfl⟩, c, ?_, rfl⟩
      rw [valueOf_of_access hs]
      rfl
  · rintro (hcontext | ⟨x, hx, c, hc, rfl⟩)
    · have : 0 < owners h.contexts p := owners_pos.2 hcontext
      rw [uses]
      omega
    · obtain ⟨slot, hslot, heq⟩ := List.mem_map.1 hx
      rcases slot with _ | _ | s
      · cases heq
      · obtain rfl : h.valueOf none = x := by simpa using heq
        simp [valueOf] at hc
      · obtain rfl : h.valueOf (some s) = x := by simpa using heq
        obtain ⟨e, he⟩ := List.getElem?_of_mem hslot
        obtain ⟨c', -, huse, hvalue⟩ := ho.element he
        obtain rfl : c' = c := by
          rw [hvalue] at hc
          simpa [Element.live] using hc
        exact huse

/-- A pairing is destroyed when no variable names it, and was cleared then exactly if it
had been initialised. -/
theorem Owned.pairing_iff {p : ℕ} {c : PairingCell} (hc : h.pairings[p]? = some c) :
    (c.freed = true ↔ ¬ h.values.Names p) ∧
      (c.cleared = true ↔ c.initialized = true ∧ ¬ h.values.Names p) := by
  have hcount := ho.counted p c hc
  have hfreed : c.freed = true ↔ ¬ h.values.Names p := by
    rw [hcount.freed, ← ho.uses_pos_iff p]
    simp
  refine ⟨hfreed, ?_⟩
  rw [hcount.cleared, Bool.and_eq_true, hfreed, and_comm]

/-- A storage is cleared when no variable owns it, and is never owned twice. -/
theorem Owned.storage_iff {s : ℕ} {c : StorageCell α} (hc : h.storages[s]? = some c) :
    (c.cleared = true ↔ some (some s) ∉ h.elements) ∧ h.elements.count (some (some s)) ≤ 1 := by
  have hone := ho.single s c hc
  simp only [List.count_nil, Nat.add_zero] at hone
  have hmem : some (some s) ∉ h.elements ↔ owners h.elements s = 0 := by
    rw [← owners_pos]
    omega
  rw [hmem, hone]
  change _ ∧ owners h.elements s ≤ 1
  cases hcleared : c.cleared with
  | false =>
      rw [hcleared] at hone
      simp [hone]
  | true =>
      rw [hcleared] at hone
      simp [hone]

end Steps

end Heap

/-! ## Programs -/

namespace Values

variable {α : Type}

/-- If something was raised, no variable changed. Only the number of a pairing that could
not be used may be taken. -/
def Keeps (v : Values α) (w : Values α × Option Raised) : Prop :=
  v.made ≤ w.1.made ∧ (w.2 ≠ none → w.1.contexts = v.contexts ∧ w.1.elements = v.elements)

variable {v : Values α}

theorem keeps_same (r : Option Raised) : v.Keeps (v, r) := ⟨le_rfl, fun _ => ⟨rfl, rfl⟩⟩

theorem keeps_quiet {w : Values α} (h : w.made = v.made) : v.Keeps (w, none) :=
  ⟨h.ge, fun hne => absurd rfl hne⟩

theorem keeps_build (k : ℕ) (alloc : Bool) (value : Except Thrown α) :
    v.Keeps (v.build k alloc value) := by
  unfold build
  split
  next => exact keeps_same _
  next =>
    split
    next => exact keeps_quiet rfl
    next => exact keeps_same _

theorem keeps_one {next : Storage α → Values α × Option Raised} (hnext : ∀ a, v.Keeps (next a))
    (e : ℕ) : v.Keeps (v.one e next) := by
  unfold one
  split
  next =>
    split
    next a _ => exact hnext a
    next => exact keeps_same _
  next => exact keeps_same _

theorem keeps_both {next : ℕ × α × α → Values α × Option Raised} (hnext : ∀ r, v.Keeps (next r))
    (a b : ℕ) : v.Keeps (v.both a b next) := by
  unfold both
  split
  next =>
    split
    next r _ => exact hnext r
    next => exact keeps_same _
  next => exact keeps_same _

theorem keeps_assignable {next : Element α → Values α × Option Raised}
    (hnext : ∀ x, v.Keeps (next x)) (dst src : ℕ) : v.Keeps (v.assignable dst src next) := by
  unfold assignable
  split
  next d x _ _ =>
    split
    next => exact keeps_same _
    next =>
      split
      next => exact keeps_same _
      next =>
        split
        next => exact hnext x
        next => exact keeps_same _
  next => exact keeps_same _

/-- The strong guarantee of every operation. -/
theorem step_keeps (v : Values α) (op : Op α) : v.Keeps (v.step op) := by
  cases op with
  | parameters text alloc =>
      cases text <;> cases alloc
      all_goals first | exact keeps_same _ | exact ⟨Nat.le_succ _, by simp [step, fromParameters]⟩
  | copyContext c => exact keeps_quiet (by unfold copyContext; split <;> rfl)
  | moveContext c => exact keeps_quiet (by unfold moveContext; split <;> rfl)
  | assignContext dst src => exact keeps_quiet (by unfold assignContext; split <;> rfl)
  | moveAssignContext dst src => exact keeps_quiet (by unfold moveAssignContext; split <;> rfl)
  | destroyContext c => exact keeps_quiet (by unfold destroyContext; split <;> rfl)
  | construct c alloc value =>
      unfold step construct
      dsimp only
      split
      next => exact keeps_build _ _ _
      next => exact keeps_same _
      next => exact keeps_same _
  | copy e alloc => exact keeps_one (fun a => keeps_build _ _ _) e
  | move e => exact keeps_quiet (by unfold move; split <;> rfl)
  | assign dst src alloc =>
      refine keeps_assignable (fun x => ?_) dst src
      split
      next => exact keeps_same _
      next => exact keeps_quiet rfl
  | moveAssign dst src =>
      refine keeps_assignable (fun x => ?_) dst src
      exact keeps_quiet rfl
  | destroy e => exact keeps_quiet (by unfold destroy; split <;> rfl)
  | unary f check e alloc =>
      refine keeps_one (fun a => ?_) e
      split
      next => exact keeps_same _
      next => exact keeps_build _ _ _
  | combine f a b alloc => exact keeps_both (fun r => keeps_build _ _ _) a b
  | equals a b => exact keeps_both (fun r => keeps_same _) a b

end Values

section Programs

variable {α : Type} (blank : α) (ops : List (Op α))

/-- No program of constructions, copies, moves, assignments and operations clears an
object twice, clears an element after its pairing or touches an object that is cleared:
every program is defined, and does to its variables what it does over values. -/
theorem pairing_programs_defined :
    ∃ h rs, Heap.run blank Heap.empty ops = some (h, rs) ∧
      (h.values, rs) = Values.empty.run ops := by
  obtain ⟨h, rs, hrun, -, hvalues⟩ := Heap.owned_empty.run blank ops
  exact ⟨h, rs, hrun, hvalues⟩

/-- After every program a pairing is destroyed exactly if no variable belongs to it any
more, and cleared with that exactly if it was initialised; a storage is cleared exactly
if no variable owns it, and no two variables own one. So nothing is left behind once
every variable is out of scope. -/
theorem pairing_cleared_with_last_owner :
    ∃ h rs, Heap.run blank Heap.empty ops = some (h, rs) ∧
      (∀ p c, h.pairings[p]? = some c →
        (c.freed = true ↔ ¬ h.values.Names p) ∧
          (c.cleared = true ↔ c.initialized = true ∧ ¬ h.values.Names p)) ∧
      (∀ s c, h.storages[s]? = some c →
        (c.cleared = true ↔ some (some s) ∉ h.elements) ∧
          h.elements.count (some (some s)) ≤ 1) ∧
      ((∀ slot ∈ h.contexts ++ h.elements, slot = none) →
        (∀ c ∈ h.pairings, c.freed = true) ∧ ∀ c ∈ h.storages, c.cleared = true) := by
  obtain ⟨h, rs, hrun, ho, -⟩ := Heap.owned_empty.run blank ops
  refine ⟨h, rs, hrun, fun p c hc => ho.pairing_iff hc, fun s c hc => ho.storage_iff hc, ?_⟩
  intro hscope
  have hcontexts : ∀ slot ∈ h.contexts, slot = none := fun slot hslot =>
    hscope slot (List.mem_append_left _ hslot)
  have helements : ∀ slot ∈ h.elements, slot = none := fun slot hslot =>
    hscope slot (List.mem_append_right _ hslot)
  constructor
  · intro c hc
    obtain ⟨p, hp⟩ := List.getElem?_of_mem hc
    refine (ho.pairing_iff hp).1.2 ?_
    rintro (hmem | ⟨x, hx, -⟩)
    · exact absurd (hcontexts _ hmem) (by simp)
    · obtain ⟨slot, hslot, heq⟩ := List.mem_map.1 hx
      rw [helements slot hslot] at heq
      cases heq
  · intro c hc
    obtain ⟨s, hs⟩ := List.getElem?_of_mem hc
    exact (ho.storage_iff hs).1.2 fun hmem => absurd (helements _ hmem) (by simp)

/-- An operation that throws, or runs out of memory, changes nothing a program can see:
every variable keeps its value, no pairing is destroyed or kept alive by it, and no element
is cleared, changed or left behind. -/
theorem raising_operation_changes_nothing (op : Op α) :
    ∃ (h : Heap α) (rs : List (Option Raised)) (h' : Heap α) (r : Option Raised),
      Heap.run blank Heap.empty ops = some (h, rs) ∧
      h.step blank op = some (h', r) ∧
      (r ≠ none → h'.values.contexts = h.values.contexts ∧ h'.values.elements = h.values.elements ∧
        (∀ (p : ℕ) (c : PairingCell), h.pairings[p]? = some c →
          ∃ c', h'.pairings[p]? = some c' ∧ c'.freed = c.freed) ∧
        (∀ (p : ℕ) (c' : PairingCell), h.pairings.length ≤ p → h'.pairings[p]? = some c' →
          c'.freed = true) ∧
        (∀ (s : ℕ) (c : StorageCell α), h.storages[s]? = some c → h'.storages[s]? = some c) ∧
        ∀ (s : ℕ) (c' : StorageCell α), h.storages.length ≤ s → h'.storages[s]? = some c' →
          c'.cleared = true) := by
  obtain ⟨h, rs, hrun, ho, -⟩ := Heap.owned_empty.run blank ops
  obtain ⟨⟨h', r⟩, hstep, ho', hvalues, hraised⟩ := ho.step blank op
  refine ⟨h, rs, h', r, hrun, hstep, fun hr => ?_⟩
  obtain ⟨hmade, hkeeps⟩ := h.values.step_keeps op
  rw [← hvalues] at hmade hkeeps
  obtain ⟨hcontexts, helements⟩ := hkeeps hr
  obtain ⟨hslots, hstores⟩ := hraised hr
  have hnames : ∀ p, h'.values.Names p ↔ h.values.Names p := fun p => by
    rw [Values.Names, Values.Names, hcontexts, helements]
  refine ⟨hcontexts, helements, fun p c hc => ?_, fun p c' hp hc' => ?_, fun s c hc => ?_,
    fun s c' hs hc' => ?_⟩
  · have hlt : p < h'.pairings.length :=
      (List.getElem?_eq_some_iff.1 hc).1.trans_le hmade
    refine ⟨h'.pairings[p], List.getElem?_eq_getElem hlt, ?_⟩
    rw [Bool.eq_iff_iff, (ho'.pairing_iff (List.getElem?_eq_getElem hlt)).1, hnames p,
      (ho.pairing_iff hc).1]
  · -- a pairing that was not there before has no variable, so it is gone again
    rw [(ho'.pairing_iff hc').1, hnames p, ← ho.uses_pos_iff p]
    intro huse
    obtain ⟨c, hc, -⟩ := ho.held p (by simpa using huse)
    have := (List.getElem?_eq_some_iff.1 hc).1
    omega
  · -- the storage holds what it held, and is owned exactly if it was
    obtain ⟨c', hc', hstorage⟩ := Heap.getElem?_of_stores hstores hc
    have hcleared : c'.cleared = c.cleared := by
      rw [Bool.eq_iff_iff, (ho'.storage_iff hc').1, (ho.storage_iff hc).1, hslots]
    obtain ⟨storage, cleared⟩ := c
    obtain ⟨storage', cleared'⟩ := c'
    obtain rfl : storage' = storage := hstorage
    obtain rfl : cleared' = cleared := hcleared
    exact hc'
  · -- a storage that was not there before has no owner
    rw [(ho'.storage_iff hc').1, hslots]
    intro hmem
    have : 0 < owners h.elements s := owners_pos.2 hmem
    have := ho.made s (by omega)
    omega

end Programs

end Lifetimes

end Lktrs.Protocol
