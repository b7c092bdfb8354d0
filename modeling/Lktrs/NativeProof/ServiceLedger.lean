import Lktrs.NativeProof.CanonicalText
import Lktrs.NativeProof.StrictJson
import Lktrs.Foundation.Maps
import Std.Data.ExtTreeSet.Lemmas

/-!
# The service ledger and its file

The part of the service that survives a restart: the quota pinned for each
issue, the revoked users and the digests of consumed envelopes. `Ledger.text` is
what `persistState` writes and `loadState` what a start reads. The reader has
rules of its own, the fields of `Ledger.Valid`; a ledger that meets them is read
back from its text as it was (`loadState_text`).

The file is given by its text. The service writes no byte sequence that is not the
encoding of one, and the file it finds at its first start is taken to be such a text.
-/

set_option autoImplicit false

namespace Lktrs.NativeProof

open Lktrs.Foundation
open Std (ExtTreeMap ExtTreeSet)

/-! ## Blank texts -/

/-- `unicode.IsSpace`. -/
def isSpace (c : Char) : Bool :=
  c.toNat ∈ [0x09, 0x0a, 0x0b, 0x0c, 0x0d, 0x20, 0x85, 0xa0, 0x1680, 0x2028, 0x2029, 0x202f, 0x205f,
    0x3000] || (0x2000 ≤ c.toNat && c.toNat ≤ 0x200a)

/-- `strings.TrimSpace(s) == ""`. -/
def isBlank (s : String) : Bool := s.toList.all isSpace

/-! ## The ledger -/

/-- The three persisted maps; the two boolean ones only ever hold true. -/
@[ext] structure Ledger where
  policies : ExtTreeMap (FixedBytes 32) UInt32 compare
  revoked : ExtTreeSet String compare
  seen : ExtTreeSet (FixedBytes 32) compare

def Ledger.empty : Ledger := ⟨∅, ∅, ∅⟩

/-- `durableServiceState`; the policies are the entries of a map. -/
structure DurableServiceState where
  version : ℤ
  policies : List (String × UInt32)
  revoked : List String
  seen : List String
  deriving Inhabited

def durableServiceStateType : GoType :=
  .struct [("version", .int 64), ("policies", .map (.uint 32)), ("revoked", .slice .string),
    ("seen", .slice .string)]

/-! ## Writing -/

/-- The state `persistState` builds. The encoder lists the policies by ascending key and the two
slices are sorted; for hexadecimal texts this is the order of the digests. -/
def Ledger.durable (l : Ledger) : DurableServiceState where
  version := 1
  policies := l.policies.toList.map fun e => (hexDigest e.1, e.2)
  revoked := l.revoked.toList
  seen := l.seen.toList.map hexDigest

/-- The value the JSON encoder is given. -/
def DurableServiceState.value (d : DurableServiceState) : GoValue :=
  .struct [.int d.version, .map (d.policies.map fun e => (e.1, .int e.2.toNat)),
    .slice (d.revoked.map .string), .slice (d.seen.map .string)]

/-- The contents `persistState` writes. -/
def Ledger.text (l : Ledger) : List Char := marshal durableServiceStateType l.durable.value

/-! ## Reading -/

def textsOf : GoValue → List String
  | .slice elems => elems.map fun v => match v with
      | .string s => s
      | _ => ""
  | _ => []

def quotasOf : GoValue → List (String × UInt32)
  | .map entries => entries.map fun e => match e.2 with
      | .int k => (e.1, UInt32.ofNat k.toNat)
      | _ => (e.1, 0)
  | _ => []

/-- The state a decoded value holds; a nil map or slice has no entries. -/
def durableServiceStateOf : GoValue → DurableServiceState
  | .struct [.int version, policies, revoked, seen] =>
      { version, policies := quotasOf policies, revoked := textsOf revoked, seen := textsOf seen }
  | _ => default

/-- One turn of the loop over the policies. -/
def loadPolicy (policies : ExtTreeMap (FixedBytes 32) UInt32 compare) (e : String × UInt32) :
    Except String (ExtTreeMap (FixedBytes 32) UInt32 compare) :=
  match decodeIssue e.1 with
  | .error _ => .error "invalid persisted issue policy"
  | .ok issue => do
      rejectIf (e.2 = 0) "invalid persisted issue policy"
      return policies.insert issue e.2

def loadRevoked (revoked : ExtTreeSet String compare) (user : String) :
    Except String (ExtTreeSet String compare) := do
  rejectIf (isBlank user = true) "invalid persisted revoked user"
  return revoked.insert user

/-- One turn of the loop over the digests; letter case is not checked here. -/
def loadSeen (seen : ExtTreeSet (FixedBytes 32) compare) (encoded : String) :
    Except String (ExtTreeSet (FixedBytes 32) compare) := do
  rejectIf (encoded.utf8ByteSize ≠ 64) "invalid persisted replay digest"
  match (hexDecode encoded).bind (FixedBytes.ofList? 32) with
  | none => .error "invalid persisted replay digest"
  | some digest => return seen.insert digest

/-- `loadState`, given the file. -/
def loadState (file : Option (List Char)) : Except String Ledger :=
  match file with
  | none => return Ledger.empty
  | some text =>
      match unmarshal durableServiceStateType text with
      | none => .error ("decode service state: " ++ jsonError)
      | some v => do
          let state := durableServiceStateOf v
          rejectIf (state.version ≠ 1) "unsupported service state version"
          let policies ← state.policies.foldlM loadPolicy ∅
          let revoked ← state.revoked.foldlM loadRevoked ∅
          let seen ← state.seen.foldlM loadSeen ∅
          return { policies, revoked, seen }

/-! ## Reading back what was written -/

/-- What the reader demands of the entries. -/
structure Ledger.Valid (l : Ledger) : Prop where
  quota_ne_zero : ∀ (issue : FixedBytes 32) (k : UInt32), l.policies[issue]? = some k → k ≠ 0
  revoked_nonblank : ∀ user ∈ l.revoked, isBlank user = false

theorem Ledger.valid_empty : Ledger.empty.Valid where
  quota_ne_zero := by
    intro issue k h
    simp [Ledger.empty] at h
  revoked_nonblank := by
    intro user h
    simp [Ledger.empty] at h

theorem durableServiceStateOf_value (d : DurableServiceState) :
    durableServiceStateOf d.value = d := by
  simp [durableServiceStateOf, DurableServiceState.value, quotasOf, textsOf, Function.comp_def]

theorem elemsHaveType_map_string (texts : List String) :
    ElemsHaveType .string (texts.map .string) := by
  induction texts with
  | nil => trivial
  | cons s texts ih => exact ⟨rfl, ih⟩

theorem hasType_durable (l : Ledger) : HasType durableServiceStateType l.durable.value := by
  have hversion : HasType (.int 64) (.int 1) := by simp [HasType]
  have hkeys := (nodup_keys_toList l.policies).map (fun _ _ => hexDigest_inj)
  have hpolicies := entriesHaveType_map hasType_uint32 l.durable.policies
  refine ⟨hversion, ⟨?_, hpolicies⟩, elemsHaveType_map_string _, elemsHaveType_map_string _, rfl⟩
  rw [List.map_map] at hkeys
  simpa only [Ledger.durable, List.map_map, Function.comp_def] using hkeys

theorem loadPolicies_durable {l : Ledger} (h : l.Valid) :
    l.durable.policies.foldlM loadPolicy ∅ = .ok l.policies := by
  have hturn : ∀ e ∈ l.policies.toList, ∀ policies,
      loadPolicy policies (hexDigest e.1, e.2) = .ok (policies.insert e.1 e.2) := by
    intro e he policies
    have hk := h.quota_ne_zero e.1 e.2 (ExtTreeMap.mem_toList_iff_getElem?_eq_some.1 he)
    simp [loadPolicy, rejectIf_of_not hk]
  rw [Ledger.durable, List.foldlM_map, foldlM_ok hturn, foldl_insert_toList]

theorem loadRevoked_durable {l : Ledger} (h : l.Valid) :
    l.durable.revoked.foldlM loadRevoked ∅ = .ok l.revoked := by
  have hturn : ∀ user ∈ l.revoked.toList, ∀ revoked,
      loadRevoked revoked user = .ok (revoked.insert user) := by
    intro user hu revoked
    have hblank := h.revoked_nonblank user (ExtTreeSet.mem_toList.1 hu)
    simp [loadRevoked, rejectIf, hblank]
  rw [Ledger.durable, foldlM_ok hturn, foldl_set_insert_toList]

theorem loadSeen_durable (l : Ledger) : l.durable.seen.foldlM loadSeen ∅ = .ok l.seen := by
  have hturn : ∀ digest ∈ l.seen.toList, ∀ seen,
      loadSeen seen (hexDigest digest) = .ok (seen.insert digest) := by
    intro digest _ seen
    have hlen : (hexDigest digest).utf8ByteSize = 64 := by
      rw [hexDigest, utf8ByteSize_hexEncode, digest.length_toList]
    rw [loadSeen, rejectIf_of_not (by simp [hlen]), ok_bind, hexDigest, hexDecode_hexEncode]
    simp
  rw [Ledger.durable, List.foldlM_map, foldlM_ok hturn, foldl_set_insert_toList]

/-- A valid ledger is read back as it was. -/
theorem loadState_text {l : Ledger} (h : l.Valid) : loadState (some l.text) = .ok l := by
  have hread : unmarshal durableServiceStateType l.text = some l.durable.value :=
    unmarshal_marshal (by decide) (hasType_durable l)
  simp only [loadState, hread, durableServiceStateOf_value]
  rw [rejectIf_of_not (by simp [Ledger.durable]), ok_bind, loadPolicies_durable h, ok_bind,
    loadRevoked_durable h, ok_bind, loadSeen_durable l]
  rfl

/-- Whatever file was accepted, the ledger meets the rules. -/
theorem loadState_valid {file : Option (List Char)} {l : Ledger} (h : loadState file = .ok l) :
    l.Valid := by
  cases file with
  | none =>
      cases h
      exact Ledger.valid_empty
  | some text =>
      unfold loadState at h
      cases hread : unmarshal durableServiceStateType text with
      | none => simp [hread] at h
      | some v =>
          simp only [hread, bind_eq_ok, pure_eq_ok] at h
          obtain ⟨_, _, policies, hpolicies, revoked, hrevoked, seen, _, rfl⟩ := h
          refine ⟨?_, ?_⟩
          · -- every stored quota was compared with zero
            refine foldlM_invariant (P := fun m : ExtTreeMap (FixedBytes 32) UInt32 compare =>
              ∀ (issue : FixedBytes 32) (k : UInt32), m[issue]? = some k → k ≠ 0) ?_ hpolicies
              (by simp)
            intro m e m' hturn hm issue k hk
            unfold loadPolicy at hturn
            cases hissue : decodeIssue e.1 with
            | error _ => simp [hissue] at hturn
            | ok stored =>
                simp only [hissue, bind_eq_ok, rejectIf_eq_ok, pure_eq_ok] at hturn
                obtain ⟨_, hne, rfl⟩ := hturn
                rw [ExtTreeMap.getElem?_insert] at hk
                split_ifs at hk with heq
                · exact Option.some.inj hk ▸ hne
                · exact hm issue k hk
          · refine foldlM_invariant (P := fun users : ExtTreeSet String compare =>
              ∀ user ∈ users, isBlank user = false) ?_ hrevoked (by simp)
            intro users user users' hturn husers other hother
            simp only [loadRevoked, bind_eq_ok, rejectIf_eq_ok, pure_eq_ok] at hturn
            obtain ⟨_, hne, rfl⟩ := hturn
            rcases mem_set_insert.1 hother with rfl | hold
            · simpa using hne
            · exact husers other hold

end Lktrs.NativeProof
