import Lktrs.Foundation.Bytes
import Lktrs.Foundation.Outcome

/-!
# Encodings that end by themselves

An encoding is a relation between values and the byte strings that stand for them. It is
delimited when a string that starts with an encoded value determines the value and what
follows it; no length is needed from outside. Fields of one width and fields behind their
length are delimited, and so are sequences of delimited fields and lists of them behind
their number. Nothing here is about a particular format.
-/

set_option autoImplicit false

namespace Lktrs.Foundation

variable {α β : Type}

/-- A string that starts with an encoded value determines the value and the rest. -/
def SelfDelimiting (R : α → List UInt8 → Prop) : Prop :=
  ∀ ⦃a a' : α⦄ ⦃xs xs' ys ys' : List UInt8⦄, R a xs → R a' xs' → xs ++ ys = xs' ++ ys' →
    a = a' ∧ ys = ys'

/-- One field after another. -/
def Encodes.seq (R : α → List UInt8 → Prop) (S : β → List UInt8 → Prop) (ab : α × β)
    (bytes : List UInt8) : Prop :=
  ∃ xs ys, R ab.1 xs ∧ S ab.2 ys ∧ bytes = xs ++ ys

/-- A field after a part of one width that does not depend on the value. -/
def Encodes.behind (width : ℕ) (R : α → List UInt8 → Prop) (a : α) (bytes : List UInt8) : Prop :=
  ∃ head xs, head.length = width ∧ R a xs ∧ bytes = head ++ xs

/-- The fields of a list one after another. -/
inductive Encodes.many (R : α → List UInt8 → Prop) : List α → List UInt8 → Prop where
  | nil : Encodes.many R [] []
  | cons {a : α} {as : List α} {xs ys : List UInt8} :
      R a xs → Encodes.many R as ys → Encodes.many R (a :: as) (xs ++ ys)

/-- A list behind its number of elements, which is bounded and written in one width. -/
def Encodes.counted (width max : ℕ) (R : α → List UInt8 → Prop) (as : List α)
    (bytes : List UInt8) : Prop :=
  as.length ≤ max ∧ ∃ xs, Encodes.many R as xs ∧ bytes = bigEndian width as.length ++ xs

variable {R : α → List UInt8 → Prop} {S : β → List UInt8 → Prop}

/-- A list takes at least the bytes that its elements take. -/
theorem Encodes.many.sum_le {as : List α} {xs : List UInt8} (h : Encodes.many R as xs) (size : α → ℕ)
    (hsize : ∀ {a xs}, R a xs → size a ≤ xs.length) : (as.map size).sum ≤ xs.length := by
  induction h with
  | nil => exact Nat.zero_le _
  | cons ha _ ih =>
      rw [List.map_cons, List.sum_cons, List.length_append]
      exact Nat.add_le_add (hsize ha) ih

/-- A list of values is encoded as the list of what stands for them is. -/
theorem Encodes.many.map {as : List α} {xs : List UInt8} (h : Encodes.many R as xs) {f : α → β}
    (hf : ∀ {a xs}, R a xs → S (f a) xs) : Encodes.many S (as.map f) xs := by
  induction h with
  | nil => exact .nil
  | cons ha _ ih => exact .cons (hf ha) ih

/-- The fields that an encoder writes one after another, for values with a property. -/
theorem Encodes.many_mapM {ε : Type} {encode : α → Except ε (List UInt8)} {P : α → Prop}
    {as : List α} {bytes : List UInt8} :
    Encodes.many (fun a xs => P a ∧ encode a = .ok xs) as bytes ↔
      (∀ a ∈ as, P a) ∧ ∃ parts, as.mapM encode = .ok parts ∧ bytes = parts.flatten := by
  constructor
  · intro h
    induction h with
    | nil => exact ⟨fun _ ha => absurd ha List.not_mem_nil, [], rfl, rfl⟩
    | cons hfirst _ ih =>
        obtain ⟨hP, part⟩ := hfirst
        obtain ⟨hrest, parts, hparts, rfl⟩ := ih
        refine ⟨List.forall_mem_cons.2 ⟨hP, hrest⟩, _ :: parts, ?_, rfl⟩
        simp only [List.mapM_cons, bind_eq_ok, pure_eq_ok]
        exact ⟨_, part, parts, hparts, rfl⟩
  · rintro ⟨hP, parts, hparts, rfl⟩
    induction as generalizing parts with
    | nil =>
        rw [List.mapM_nil, pure_eq_ok] at hparts
        subst hparts
        exact .nil
    | cons a as ih =>
        simp only [List.mapM_cons, bind_eq_ok, pure_eq_ok] at hparts
        obtain ⟨part, hpart, rest, hrest, rfl⟩ := hparts
        rw [List.forall_mem_cons] at hP
        exact .cons ⟨hP.1, hpart⟩ (ih hP.2 rest hrest)

namespace SelfDelimiting

/-- A value has one encoding only, and an encoding one value. -/
theorem inj (hR : SelfDelimiting R) {a a' : α} {xs : List UInt8} (h : R a xs) (h' : R a' xs) :
    a = a' :=
  (hR h h' rfl : a = a' ∧ xs = xs).1

/-- Encodings of one width are delimited when no two values share one. -/
theorem of_length (width : ℕ) (hlength : ∀ {a xs}, R a xs → xs.length = width)
    (hinj : ∀ {a a' xs}, R a xs → R a' xs → a = a') : SelfDelimiting R := by
  intro a a' xs xs' ys ys' h h' heq
  obtain ⟨hxs, hys⟩ := List.append_inj heq ((hlength h).trans (hlength h').symm)
  subst hxs
  exact ⟨hinj h h', hys⟩

theorem seq (hR : SelfDelimiting R) (hS : SelfDelimiting S) : SelfDelimiting (Encodes.seq R S) := by
  rintro ⟨a, b⟩ ⟨a', b'⟩ _ _ zs zs' ⟨xs, ys, hxs, hys, rfl⟩ ⟨xs', ys', hxs', hys', rfl⟩ heq
  rw [List.append_assoc, List.append_assoc] at heq
  obtain ⟨hab, hrest⟩ := hR hxs hxs' heq
  obtain ⟨hb, hzs⟩ := hS hys hys' hrest
  exact ⟨Prod.ext hab hb, hzs⟩

theorem behind (width : ℕ) (hR : SelfDelimiting R) : SelfDelimiting (Encodes.behind width R) := by
  rintro a a' _ _ ys ys' ⟨head, xs, hhead, hxs, rfl⟩ ⟨head', xs', hhead', hxs', rfl⟩ heq
  rw [List.append_assoc, List.append_assoc] at heq
  obtain ⟨_, hrest⟩ := List.append_inj heq (hhead.trans hhead'.symm)
  exact hR hxs hxs' hrest

/-- Two lists of one length are read off field by field. -/
theorem many (hR : SelfDelimiting R) {as as' : List α} {xs xs' ys ys' : List UInt8}
    (h : Encodes.many R as xs) (h' : Encodes.many R as' xs') (hlength : as.length = as'.length)
    (heq : xs ++ ys = xs' ++ ys') : as = as' ∧ ys = ys' := by
  induction h generalizing as' xs' with
  | nil =>
      cases h' with
      | nil => exact ⟨rfl, heq⟩
      | cons ha' _ => cases hlength
  | cons ha _ ih =>
      cases h' with
      | nil => cases hlength
      | cons ha' has' =>
          rw [List.append_assoc, List.append_assoc] at heq
          obtain ⟨rfl, hrest⟩ := hR ha ha' heq
          obtain ⟨rfl, hys⟩ := ih has' (Nat.succ.inj hlength) hrest
          exact ⟨rfl, hys⟩

theorem counted {width max : ℕ} (hmax : max < 256 ^ width) (hR : SelfDelimiting R) :
    SelfDelimiting (Encodes.counted width max R) := by
  rintro as as' _ _ ys ys' ⟨hn, xs, hxs, rfl⟩ ⟨hn', xs', hxs', rfl⟩ heq
  rw [List.append_assoc, List.append_assoc] at heq
  obtain ⟨hcount, hrest⟩ := List.append_inj heq (by simp)
  exact hR.many hxs hxs' (bigEndian_inj (hn.trans_lt hmax) (hn'.trans_lt hmax) hcount) hrest

end SelfDelimiting

end Lktrs.Foundation
