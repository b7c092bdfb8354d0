import Lktrs.NativeProof.StrictJson
import Lktrs.NativeProof.CanonicalText
import Lktrs.Foundation.Maps

/-!
# The encrypted wallet

What `SignerVault` computes between its system calls: the file a state is sealed
into (`sealState`, the first half of `write`), the state a file is read as
(`readState`), and the reservation of one counter (`reserve`, the checks and the
update of `reserveAndProve`). The authenticated cipher is a parameter of which
only its size and that it opens what it sealed are known. A state that `read`
would accept is read back from every file written for it
(`readState_sealState`), and a reservation keeps a state acceptable
(`Valid.reserve`).
-/

set_option autoImplicit false

namespace Lktrs.NativeProof

open Lktrs.Foundation
open Std (ExtTreeMap)

def vaultMagic : String := "LKTRSV02"
def maxVaultBytes : ℕ := 2 ^ 20

structure VaultCounter where
  next : UInt32
  k : UInt32
  deriving DecidableEq, Inhabited

structure VaultState where
  x : String
  counters : ExtTreeMap String VaultCounter compare

/-- XChaCha20-Poly1305: sealing and opening under a key, a nonce and associated data. -/
structure Aead where
  sealBytes : (key nonce plain aad : List UInt8) → List UInt8
  openBytes : (key nonce sealed aad : List UInt8) → Option (List UInt8)
  /-- What was sealed is opened. -/
  open_seal : ∀ key nonce plain aad,
    openBytes key nonce (sealBytes key nonce plain aad) aad = some plain
  /-- Sealing adds a tag of sixteen bytes. -/
  length_seal : ∀ key nonce plain aad,
    (sealBytes key nonce plain aad).length = plain.length + 16

def aeadNonceSize : ℕ := 24
def aeadOverhead : ℕ := 16

/-- A handle: the file, the wallet's identity and the wrapping key. -/
structure SignerVault where
  path : String
  id : FixedBytes 32
  key : List UInt8

def newSignerVault (path : String) (key : List UInt8) (id : FixedBytes 32) :
    Except String SignerVault := do
  rejectIf (key.length ≠ 32 ∨ key = List.replicate 32 0 ∨ id = FixedBytes.zero 32 ∨ path = "")
    "vault needs path, nonzero id and external 32-byte wrapping key"
  return { path, id, key }

/-- The associated data, which is also the head of the file. -/
def SignerVault.aad (v : SignerVault) : List UInt8 := textBytes vaultMagic ++ v.id.toList

/-! ## The plaintext -/

def vaultCounterValue (c : VaultCounter) : GoValue :=
  .struct [.int c.next.toNat, .int c.k.toNat]

/-- The value the JSON encoder is given; it lists a map by ascending keys. -/
def vaultStateValue (st : VaultState) : GoValue :=
  .struct [.string st.x,
    .map (st.counters.toList.map fun e => (e.1, vaultCounterValue e.2))]

def vaultCounterOf : GoValue → VaultCounter
  | .struct [.int next, .int k] => ⟨UInt32.ofNat next.toNat, UInt32.ofNat k.toNat⟩
  | _ => default

/-- The secret and the counters of a decoded value; a missing or null map is nil. -/
def vaultStateOf : GoValue → String × Option (ExtTreeMap String VaultCounter compare)
  | .struct [.string x, .map entries] =>
      (x, some (ExtTreeMap.ofList (entries.map fun e => (e.1, vaultCounterOf e.2)) compare))
  | .struct [.string x, _] => (x, none)
  | _ => ("", none)

/-- `json.Marshal` of a state. -/
def vaultPlain (st : VaultState) : List UInt8 :=
  textBytes (String.ofList (marshal vaultStateType (vaultStateValue st)))

/-! ## Reading and sealing -/

/-- The test of one persisted entry. -/
def badEntry (e : String × VaultCounter) : Bool :=
  !(decodeIssue e.1).isOk || e.2.k = 0 || e.2.next > e.2.k

/-- The checks of `read` after decryption. -/
def checkPlain (plain : List UInt8) : Except String VaultState := do
  let value ← strictJSON vaultStateType plain
  let _ ← trustScalar (vaultStateOf value).1 true
  match (vaultStateOf value).2 with
  | none => .error "invalid vault counters"
  | some counters => do
      rejectIf (counters.size > 10000) "invalid vault counters"
      rejectIf (counters.toList.any badEntry = true) "invalid persisted counter or quota"
      return { x := (vaultStateOf value).1, counters }

section Cipher

variable (aead : Aead) (v : SignerVault)

/-- `read`, given the contents of the file. -/
def SignerVault.readState (raw : List UInt8) : Except String VaultState := do
  rejectIf (raw.length > maxVaultBytes) "invalid or oversized artifact"
  rejectIf (raw.length < v.aad.length + aeadNonceSize + aeadOverhead ∨
    raw.take v.aad.length ≠ v.aad) "invalid vault identity or encoding"
  let nonce := (raw.drop v.aad.length).take aeadNonceSize
  match aead.openBytes v.key nonce (raw.drop (v.aad.length + aeadNonceSize)) v.aad with
  | none => .error "vault authentication failed"
  | some plain => checkPlain plain

/-- The first half of `write`: the bytes of the new file, under a fresh nonce. -/
def SignerVault.sealState (st : VaultState) (nonce : FixedBytes 24) :
    Except String (List UInt8) := do
  let plain := vaultPlain st
  rejectIf (plain.length > maxVaultBytes - 128) "vault state exceeds size budget"
  return v.aad ++ nonce.toList ++ aead.sealBytes v.key nonce.toList plain v.aad

end Cipher

/-! ## Reserving a counter -/

/-- The checks and the update of `reserveAndProve`: the state to write, the secret and the counter
to prove with. -/
def VaultState.reserve (st : VaultState) (issue : FixedBytes 32) (k : UInt32) :
    Except String (VaultState × ℤ × UInt32) := do
  let label := hexDigest issue
  let counter := st.counters[label]?
  let next := (counter.map VaultCounter.next).getD 0
  rejectIf (k = 0 ∨ counter.any (fun c => c.k ≠ k) = true ∨ next ≥ k)
    "wallet quota exhausted or policy changed"
  rejectIf (counter = none ∧ st.counters.size ≥ 10000) "wallet issue limit reached"
  let x ← trustScalar st.x true
  return ({ st with counters := st.counters.insert label ⟨next + 1, k⟩ }, x, next)

/-! ## Acceptable states -/

/-- What `read` demands of a decrypted state. -/
structure VaultState.Valid (st : VaultState) : Prop where
  secret : ∃ n, trustScalar st.x true = .ok n
  size_le : st.counters.size ≤ 10000
  entries : ∀ label c, st.counters[label]? = some c →
    (∃ issue, decodeIssue label = .ok issue) ∧ c.k ≠ 0 ∧ c.next ≤ c.k

theorem badEntry_eq_false {e : String × VaultCounter} :
    badEntry e = false ↔ (∃ issue, decodeIssue e.1 = .ok issue) ∧ e.2.k ≠ 0 ∧ e.2.next ≤ e.2.k := by
  have hok : (decodeIssue e.1).isOk = true ↔ ∃ issue, decodeIssue e.1 = .ok issue := by
    cases decodeIssue e.1 <;> simp [Except.isOk, Except.toBool]
  simp [badEntry, ← hok, and_assoc, UInt32.not_lt]

theorem valid_iff {st : VaultState} :
    st.Valid ↔ (∃ n, trustScalar st.x true = .ok n) ∧ st.counters.size ≤ 10000 ∧
      st.counters.toList.any badEntry = false := by
  have hentries : st.counters.toList.any badEntry = false ↔ ∀ label c,
      st.counters[label]? = some c →
        (∃ issue, decodeIssue label = .ok issue) ∧ c.k ≠ 0 ∧ c.next ≤ c.k := by
    simp only [List.any_eq_false, Bool.not_eq_true, badEntry_eq_false, Prod.forall,
      ExtTreeMap.mem_toList_iff_getElem?_eq_some]
  rw [hentries]
  exact ⟨fun h => ⟨h.secret, h.size_le, h.entries⟩, fun h => ⟨h.1, h.2.1, h.2.2⟩⟩

/-! ## Reading back what was written -/

theorem vaultCounterOf_value (c : VaultCounter) : vaultCounterOf (vaultCounterValue c) = c := by
  simp [vaultCounterOf, vaultCounterValue]

theorem vaultStateOf_value (st : VaultState) :
    vaultStateOf (vaultStateValue st) = (st.x, some st.counters) := by
  simp only [vaultStateOf, vaultStateValue, List.map_map, Prod.mk.injEq, Option.some.injEq,
    true_and]
  have hmap : (fun e : String × GoValue => (e.1, vaultCounterOf e.2)) ∘
      (fun e : String × VaultCounter => (e.1, vaultCounterValue e.2)) = id := by
    funext e
    simp [vaultCounterOf_value]
  rw [hmap, List.map_id, ofList_toList]

theorem hasType_vaultState (st : VaultState) : HasType vaultStateType (vaultStateValue st) := by
  have hcounter (c : VaultCounter) : HasType vaultCounterType (vaultCounterValue c) :=
    ⟨hasType_uint32 c.next, hasType_uint32 c.k, rfl⟩
  refine ⟨rfl, ⟨?_, entriesHaveType_map hcounter _⟩, rfl⟩
  rw [List.map_map]
  exact nodup_keys_toList st.counters

theorem vaultStateType_foldDistinct : vaultStateType.foldDistinct = true :=
  strictTypes_foldDistinct _ (by simp [strictTypes])

theorem checkPlain_vaultPlain {st : VaultState} (h : st.Valid) :
    checkPlain (vaultPlain st) = .ok st := by
  obtain ⟨⟨n, hn⟩, hsize, hentries⟩ := valid_iff.1 h
  have hjson : strictJSON vaultStateType (vaultPlain st) = .ok (vaultStateValue st) :=
    decodeDocument_marshal vaultStateType_foldDistinct (hasType_vaultState st)
  simp only [checkPlain, hjson, ok_bind, vaultStateOf_value, hn]
  rw [rejectIf_of_not (Nat.not_lt.2 hsize), ok_bind, rejectIf_of_not (by simp [hentries])]
  rfl

theorem checkPlain_valid {plain : List UInt8} {st : VaultState} (h : checkPlain plain = .ok st) :
    st.Valid := by
  unfold checkPlain at h
  obtain ⟨value, -, h⟩ := bind_eq_ok.1 h
  obtain ⟨n, hn, h⟩ := bind_eq_ok.1 h
  cases hcounters : (vaultStateOf value).2 with
  | none => simp [hcounters] at h
  | some counters =>
      simp only [hcounters, bind_eq_ok, rejectIf_eq_ok, pure_eq_ok] at h
      obtain ⟨_, hsize, _, hentries, rfl⟩ := h
      exact valid_iff.2 ⟨⟨n, hn⟩, Nat.not_lt.1 hsize, by simpa using hentries⟩

section Cipher

variable {aead : Aead} {v : SignerVault}

/-- Whatever `read` returns has passed its checks. -/
theorem readState_valid {raw : List UInt8} {st : VaultState}
    (h : v.readState aead raw = .ok st) : st.Valid := by
  unfold SignerVault.readState at h
  obtain ⟨_, -, h⟩ := bind_eq_ok.1 h
  obtain ⟨_, -, h⟩ := bind_eq_ok.1 h
  cases hopen : aead.openBytes v.key ((raw.drop v.aad.length).take aeadNonceSize)
      (raw.drop (v.aad.length + aeadNonceSize)) v.aad with
  | none => simp [hopen] at h
  | some plain =>
      simp only [hopen] at h
      exact checkPlain_valid h

theorem length_aad (v : SignerVault) : v.aad.length = 40 := by
  have hmagic : (textBytes vaultMagic).length = 8 := by decide
  rw [SignerVault.aad, List.length_append, hmagic, v.id.length_toList]

/-- A file made of the identity, a nonce and a sealed text is opened under that nonce. -/
theorem readState_parts {nonce sealed : List UInt8} (hnonce : nonce.length = aeadNonceSize)
    (hmin : aeadOverhead ≤ sealed.length) (hmax : 64 + sealed.length ≤ maxVaultBytes) :
    v.readState aead (v.aad ++ nonce ++ sealed) =
      match aead.openBytes v.key nonce sealed v.aad with
      | none => .error "vault authentication failed"
      | some plain => checkPlain plain := by
  have haad := length_aad v
  have hlen : (v.aad ++ nonce ++ sealed).length = 64 + sealed.length := by
    simp only [List.length_append, haad, hnonce, aeadNonceSize]
  have hhead : (v.aad ++ nonce ++ sealed).take v.aad.length = v.aad := by
    rw [List.append_assoc, List.take_left]
  have hmid : ((v.aad ++ nonce ++ sealed).drop v.aad.length).take aeadNonceSize = nonce := by
    rw [List.append_assoc, List.drop_left, List.take_left' hnonce]
  have htail : (v.aad ++ nonce ++ sealed).drop (v.aad.length + aeadNonceSize) = sealed :=
    List.drop_left' (by rw [List.length_append, hnonce])
  have hshort : ¬ ((v.aad ++ nonce ++ sealed).length < v.aad.length + aeadNonceSize + aeadOverhead ∨
      (v.aad ++ nonce ++ sealed).take v.aad.length ≠ v.aad) := by
    rw [hlen, hhead, haad]
    simp only [aeadNonceSize, ne_eq, not_true, or_false]
    omega
  unfold SignerVault.readState
  rw [rejectIf_of_not (by rw [hlen]; omega), ok_bind, rejectIf_of_not hshort, ok_bind]
  simp only [hmid, htail]

/-- The file written for an acceptable state is read as that state. -/
theorem readState_sealState {st : VaultState} {nonce : FixedBytes 24} {raw : List UInt8}
    (hvalid : st.Valid) (h : v.sealState aead st nonce = .ok raw) :
    v.readState aead raw = .ok st := by
  simp only [SignerVault.sealState, bind_eq_ok, rejectIf_eq_ok, pure_eq_ok] at h
  obtain ⟨_, hsize, rfl⟩ := h
  have hseal := aead.length_seal v.key nonce.toList (vaultPlain st) v.aad
  have hbudget : (vaultPlain st).length ≤ maxVaultBytes - 128 := Nat.not_lt.1 hsize
  rw [readState_parts nonce.length_toList (by rw [hseal, aeadOverhead]; omega)
    (by rw [hseal]; simp only [maxVaultBytes] at hbudget ⊢; omega), aead.open_seal]
  exact checkPlain_vaultPlain hvalid

end Cipher

/-! ## A reservation -/

/-- What a successful reservation has checked and done. -/
structure Reserved (st st' : VaultState) (issue : FixedBytes 32) (k count : UInt32) : Prop where
  updated : st' = { st with counters := st.counters.insert (hexDigest issue) ⟨count + 1, k⟩ }
  below : count < k
  /-- An entry that was there has this quota and this counter. -/
  old : ∀ c, st.counters[hexDigest issue]? = some c → c.k = k ∧ c.next = count
  room : st.counters[hexDigest issue]? = none → st.counters.size < 10000

theorem reserve_eq_ok {st st' : VaultState} {issue : FixedBytes 32} {k count : UInt32} {x : ℤ}
    (h : st.reserve issue k = .ok (st', x, count)) : Reserved st st' issue k count := by
  simp only [VaultState.reserve, bind_eq_ok, rejectIf_eq_ok, pure_eq_ok, not_or, not_and,
    Bool.not_eq_true, Prod.mk.injEq] at h
  obtain ⟨_, ⟨hk, hpolicy, hnext⟩, _, hroom, x', hx, rfl, rfl, rfl⟩ := h
  refine ⟨rfl, UInt32.not_le.1 hnext, ?_, fun hnone => Nat.not_le.1 (hroom hnone)⟩
  intro c hc
  rw [hc] at hpolicy ⊢
  exact ⟨by simpa using hpolicy, rfl⟩

/-- Reserving keeps a state acceptable. -/
theorem VaultState.Valid.reserve {st st' : VaultState} {issue : FixedBytes 32} {k count : UInt32}
    (hvalid : st.Valid) (h : Reserved st st' issue k count) : st'.Valid := by
  have hsucc := toNat_succ_of_lt h.below
  rw [h.updated]
  constructor
  · exact hvalid.secret
  · show (st.counters.insert (hexDigest issue) ⟨count + 1, k⟩).size ≤ 10000
    rw [ExtTreeMap.size_insert]
    -- a new label was only counted when there was room for it
    split_ifs with hmem
    · exact hvalid.size_le
    · have hroom := h.room (ExtTreeMap.getElem?_eq_none hmem)
      omega
  · intro label c hc
    rw [ExtTreeMap.getElem?_insert] at hc
    -- the label that was written; all others are as before
    split_ifs at hc with heq
    · obtain rfl := Option.some.inj hc
      rw [← Std.LawfulEqCmp.eq_of_compare heq]
      have hlt := UInt32.lt_iff_toNat_lt.1 h.below
      refine ⟨⟨issue, decodeIssue_hexDigest issue⟩, ?_, ?_⟩
      · intro hzero
        simp only at hzero
        rw [hzero] at hlt
        exact absurd hlt (Nat.not_lt_zero _)
      · rw [UInt32.le_iff_toNat_le]
        simp only [hsucc]
        omega
    · exact hvalid.entries label c hc

end Lktrs.NativeProof
