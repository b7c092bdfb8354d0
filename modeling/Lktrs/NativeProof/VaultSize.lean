import Lktrs.NativeProof.VaultRun
import Lktrs.Foundation.JsonSize

/-!
# A wallet stays readable

Five limits have to fit together for a wallet to stay usable: ten thousand
issues, entries with two ten-digit numbers, the budget `write` checks, the
header and the tag around the ciphertext, and the bound `read` puts on the file.
An entry takes at most 102 bytes with its separator (`byteLength_entry_le`), so a
state that `read` accepts is always within the budget (`Valid.within_budget`).
Hence a wallet made by `CreateSignerVault` is never refused for its size, and
each of its files is read as the state it was written for, along every
interleaving of the calls with crashes and power losses.
-/

set_option autoImplicit false

namespace Lktrs.NativeProof

open Lktrs.Foundation
open Std (ExtTreeMap)

/-! ## The size of the plaintext -/

theorem byteLength_uint32_le (n : UInt32) : byteLength (integerText (n.toNat : ℤ)) ≤ 10 :=
  byteLength_integerText_le (by decide) (n.toNat_lt.trans (by decide))

theorem byteLength_counter_le (c : VaultCounter) :
    byteLength (encodeValue vaultCounterType (vaultCounterValue c)).render ≤ 34 := by
  have hnext := byteLength_uint32_le c.next
  have hk := byteLength_uint32_le c.k
  have hname : byteLength (renderString "next") = 6 ∧ byteLength (renderString "k") = 3 := by decide
  simp only [vaultCounterType, vaultCounterValue, encodeValue, encodeFields, Json.render,
    renderMembers, byteLength_cons, byteLength_append, byteLength_nil, hname, utf8Size_delimiters]
  omega

/-- An entry is widest when both numbers have ten digits. -/
theorem byteLength_entry_le (issue : FixedBytes 32) (c : VaultCounter) :
    byteLength (renderString (hexDigest issue)) + 1 +
      byteLength (encodeValue vaultCounterType (vaultCounterValue c)).render ≤ 101 := by
  have hcounter := byteLength_counter_le c
  rw [hexDigest, byteLength_renderString_hexEncode, issue.length_toList]
  omega

/-- The secret and the names around the entries take 86 bytes. -/
theorem length_vaultPlain {st : VaultState} {n : ℤ} (hx : st.x = scalarHex n) :
    (vaultPlain st).length = 86 + byteLength (renderMembers (st.counters.toList.map fun e =>
      (e.1, encodeValue vaultCounterType (vaultCounterValue e.2)))) := by
  have hname : byteLength (renderString "x") = 3 ∧ byteLength (renderString "counters") = 10 := by
    decide
  have hsecret : byteLength (renderString st.x) = 66 := by
    rw [hx, scalarHex, byteLength_renderString_hexEncode, length_bigEndian]
  show byteLength (marshal vaultStateType (vaultStateValue st)) = _
  simp only [marshal, vaultStateType, vaultStateValue, encodeValue, encodeFields, Json.render,
    renderMembers, byteLength_cons, byteLength_append, byteLength_nil, hname, utf8Size_delimiters, hsecret,
    encodeEntries_eq_map, List.map_map]
  simp only [Function.comp_def]
  omega

/-- A state that `read` accepts is within the budget of `write`. -/
theorem VaultState.Valid.within_budget {st : VaultState} (h : st.Valid) :
    (vaultPlain st).length ≤ maxVaultBytes - 128 := by
  obtain ⟨n, hn⟩ := h.secret
  rw [length_vaultPlain (trustScalar_eq_ok.1 hn).1]
  have hentries : byteLength (renderMembers (st.counters.toList.map fun e =>
      (e.1, encodeValue vaultCounterType (vaultCounterValue e.2)))) ≤
        (st.counters.toList.map fun e =>
          (e.1, encodeValue vaultCounterType (vaultCounterValue e.2))).length * (101 + 1) := by
    apply byteLength_renderMembers_le
    intro m hm
    obtain ⟨⟨label, c⟩, he, rfl⟩ := List.mem_map.1 hm
    obtain ⟨⟨issue, hissue⟩, -⟩ :=
      h.entries label c (ExtTreeMap.mem_toList_iff_getElem?_eq_some.1 he)
    rw [decodeIssue_eq_ok.1 hissue]
    exact byteLength_entry_le issue c
  have hsize := h.size_le
  rw [List.length_map, ExtTreeMap.length_toList] at hentries
  simp only [maxVaultBytes]
  omega

section Cipher

variable {aead : Aead} {v : SignerVault}

/-- An acceptable state is sealed, into a file that `read` will not find too large. -/
theorem VaultState.Valid.sealed {st : VaultState} (h : st.Valid) (nonce : FixedBytes 24) :
    ∃ raw, v.sealState aead st nonce = .ok raw ∧ raw.length ≤ maxVaultBytes := by
  have hbudget := h.within_budget
  refine ⟨_, by
    simp only [SignerVault.sealState, bind_eq_ok, rejectIf_eq_ok, pure_eq_ok]
    exact ⟨(), Nat.not_lt.2 hbudget, rfl⟩, ?_⟩
  have hnonce := nonce.length_toList
  simp only [List.length_append, length_aad, hnonce, aead.length_seal]
  simp only [maxVaultBytes] at hbudget ⊢
  omega

/-- A file is read through the key and the identity of the handle only. -/
theorem readState_handle {v' : SignerVault} (hkey : v'.key = v.key) (hid : v'.id = v.id)
    (raw : List UInt8) : v'.readState aead raw = v.readState aead raw := by
  have haad : v'.aad = v.aad := by rw [SignerVault.aad, SignerVault.aad, hid]
  rw [SignerVault.readState, SignerVault.readState, haad, hkey]

end Cipher

/-! ## The states of a wallet -/

/-- The states of a wallet with the secret `x`: the one it is created with, and those after a
reservation. -/
inductive WalletState (x : ℤ) : VaultState → Prop
  | created : WalletState x ⟨scalarHex x, ∅⟩
  | reserved {st st' : VaultState} {issue : FixedBytes 32} {k count : UInt32} {x' : ℤ}
      (hst : WalletState x st) (h : st.reserve issue k = .ok (st', x', count)) :
      WalletState x st'

theorem trustScalar_scalarHex {x : ℤ} (hx : canonicalNonzero (some x) secp256k1Fr = true) :
    trustScalar (scalarHex x) true = .ok x := by
  have hrange : 0 < x ∧ x < secp256k1Fr := by simpa [canonicalNonzero] using hx
  exact trustScalar_eq_ok.2 ⟨rfl, hrange.1.le, hrange.2, fun _ => hrange.1.ne'⟩

/-- Every state of a wallet passes the checks of `read` and holds the secret of its creation. -/
theorem WalletState.valid {x : ℤ} (hx : canonicalNonzero (some x) secp256k1Fr = true)
    {st : VaultState} (h : WalletState x st) : st.x = scalarHex x ∧ st.Valid := by
  induction h with
  | created =>
      refine ⟨rfl, ⟨x, trustScalar_scalarHex hx⟩, by simp, ?_⟩
      intro label c hc
      simp at hc
  | reserved hst h ih =>
      obtain ⟨hsecret, hvalid⟩ := ih
      have hreserved := reserve_eq_ok h
      refine ⟨?_, hvalid.reserve hreserved⟩
      rw [hreserved.updated]
      exact hsecret

/-- What the checks of quota and issue count let through is reserved: nothing else refuses. -/
theorem reserve_of_checks {x : ℤ} {st : VaultState} (hx : trustScalar st.x true = .ok x)
    {issue : FixedBytes 32} {k next : UInt32}
    (hnext : next = ((st.counters[hexDigest issue]?).map VaultCounter.next).getD 0)
    (hquota : next < k)
    (hpolicy : ∀ c, st.counters[hexDigest issue]? = some c → c.k = k)
    (hroom : st.counters[hexDigest issue]? = none → st.counters.size < 10000) :
    st.reserve issue k =
      .ok ({ st with counters := st.counters.insert (hexDigest issue) ⟨next + 1, k⟩ }, x, next) := by
  have hchecks : ¬ (k = 0 ∨ (st.counters[hexDigest issue]?).any (fun c => c.k ≠ k) = true ∨
      next ≥ k) := by
    rintro (hzero | hother | hdone)
    · rw [hzero] at hquota
      exact absurd hquota UInt32.not_lt_zero
    · cases hc : st.counters[hexDigest issue]? with
      | none => simp [hc] at hother
      | some c => simp [hc, hpolicy c hc] at hother
    · exact absurd hquota (UInt32.not_lt.2 hdone)
  unfold VaultState.reserve
  dsimp only
  rw [← hnext, rejectIf_of_not hchecks, ok_bind,
    rejectIf_of_not (fun h => absurd (hroom h.1) (Nat.not_lt.2 h.2)), ok_bind, hx]
  rfl

/-- What a state of a wallet can rely on. -/
structure Usable (aead : Aead) (v : SignerVault) (x : ℤ) (st : VaultState) : Prop where
  secret : trustScalar st.x true = .ok x
  budget : (vaultPlain st).length ≤ maxVaultBytes - 128
  /-- Every file written for it is bounded, and every handle with this key and identity reads it. -/
  readable : ∀ nonce, ∃ raw, v.sealState aead st nonce = .ok raw ∧ raw.length ≤ maxVaultBytes ∧
    ∀ v' : SignerVault, v'.key = v.key → v'.id = v.id → v'.readState aead raw = .ok st
  /-- A reservation that passes the checks of quota and issue count is made and written. -/
  reserves : ∀ (issue : FixedBytes 32) (k next : UInt32),
    next = ((st.counters[hexDigest issue]?).map VaultCounter.next).getD 0 → next < k →
    (∀ c, st.counters[hexDigest issue]? = some c → c.k = k) →
    (st.counters[hexDigest issue]? = none → st.counters.size < 10000) →
      ∃ st', st.reserve issue k = .ok (st', x, next) ∧ st'.x = st.x ∧
        st'.counters = st.counters.insert (hexDigest issue) ⟨next + 1, k⟩ ∧
        ∀ nonce, ∃ raw, v.sealState aead st' nonce = .ok raw

theorem WalletState.usable (aead : Aead) (v : SignerVault) {x : ℤ}
    (hx : canonicalNonzero (some x) secp256k1Fr = true) {st : VaultState} (h : WalletState x st) :
    Usable aead v x st := by
  obtain ⟨hsecret, hvalid⟩ := h.valid hx
  have hscalar : trustScalar st.x true = .ok x := hsecret ▸ trustScalar_scalarHex hx
  refine ⟨hscalar, hvalid.within_budget, ?_, ?_⟩
  · intro nonce
    obtain ⟨raw, hraw, hlen⟩ := hvalid.sealed nonce
    refine ⟨raw, hraw, hlen, ?_⟩
    intro v' hkey hid
    rw [readState_handle hkey hid]
    exact readState_sealState hvalid hraw
  · intro issue k next hnext hquota hpolicy hroom
    have hreserve := reserve_of_checks hscalar hnext hquota hpolicy hroom
    refine ⟨_, hreserve, rfl, rfl, ?_⟩
    -- the new state is a state of the wallet too
    intro nonce
    obtain ⟨raw, hraw, -⟩ := ((h.reserved hreserve).valid hx).2.sealed nonce
    exact ⟨raw, hraw⟩

/-! ## The files along a run -/

section Cipher

variable (aead : Aead) (v : SignerVault)

/-- A state of some wallet that `CreateSignerVault` can have made. -/
def OwnState (st : VaultState) : Prop :=
  ∃ x, canonicalNonzero (some x) secp256k1Fr = true ∧ WalletState x st

/-- A file that `write` produced for such a state. -/
def OwnFile (raw : List UInt8) : Prop :=
  ∃ st nonce, OwnState st ∧ v.sealState aead st nonce = .ok raw

/-- What a call carries towards the file. -/
def CallOwn (call : Call) : Prop :=
  VaultWorld.admissible call.task = true ∧
    match call.phase with
    | .writing st _ => OwnState st
    | .staged raw _ => OwnFile aead v raw
    | _ => True

/-- No foreign contents are in the file or on their way into it. -/
structure OwnFiles (w : VaultWorld) : Prop where
  file : w.file.Both fun contents => ∀ raw, contents = some raw → OwnFile aead v raw
  calls : ∀ id call, w.calls id = some call → CallOwn aead v call

variable {aead v}

namespace OwnFiles

variable {w : VaultWorld} {id : ℕ} {call : Call}

theorem initial : OwnFiles aead v (VaultWorld.initial ⟨none, none⟩) := ⟨⟨nofun, nofun⟩, nofun⟩

theorem update (h : OwnFiles aead v w) (hcall : CallOwn aead v call) {id' : ℕ} {call' : Call}
    (hcall' : Function.update w.calls id (some call) id' = some call') : CallOwn aead v call' := by
  rcases update_calls hcall' with ⟨-, rfl⟩ | ⟨-, hold⟩
  · exact hcall
  · exact h.calls id' call' hold

theorem setPhase (h : OwnFiles aead v w) (id : ℕ) (phase : Phase)
    (hcall : CallOwn aead v { call with phase }) : OwnFiles aead v (w.setPhase id call phase) :=
  ⟨h.file, fun _ _ hcall' => h.update hcall hcall'⟩

theorem finish (h : OwnFiles aead v w) (id : ℕ) : OwnFiles aead v (w.finish id) :=
  ⟨h.file, fun id' call' hcall' => h.calls id' call' (VaultWorld.finish_calls hcall').2⟩

/-- An own file is read as the state it was written for. -/
theorem read_own {raw : List UInt8} (h : OwnFile aead v raw) :
    ∃ st, OwnState st ∧ v.readState aead raw = .ok st := by
  obtain ⟨st, nonce, ⟨x, hx, hst⟩, hseal⟩ := h
  exact ⟨st, ⟨x, hx, hst⟩, readState_sealState (hst.valid hx).2 hseal⟩

theorem loaded (h : OwnFiles aead v w) {st : VaultState} (hload : w.load aead v = .ok st) :
    OwnState st := by
  obtain ⟨raw, hfile, hread⟩ := stored_eq_some.1 (stored_of_load hload)
  obtain ⟨st', hown, hread'⟩ := read_own (h.file.1 raw hfile)
  obtain rfl : st' = st := Except.ok.inj (hread'.symm.trans hread)
  exact hown

/-- The rename is the only move that can put other bytes under the name, even when it fails. -/
theorem replaced (h : OwnFiles aead v w) (hcall : w.calls id = some call) {raw : List UInt8}
    {grant : Option (ℤ × UInt32)} (hphase : call.phase = .staged raw grant) :
    (w.file.replace raw).Both fun contents => ∀ raw, contents = some raw → OwnFile aead v raw := by
  have hown := (h.calls id call hcall).2
  rw [hphase] at hown
  exact h.file.replace fun _ heq => Option.some.inj heq ▸ hown

theorem move (h : OwnFiles aead v w) {w' : VaultWorld} (hmove : VaultMove aead v w w') :
    OwnFiles aead v w' := by
  cases hmove with
  | stay => exact h
  | start id process task hid htask =>
      exact ⟨h.file, fun _ _ hcall' => h.update ⟨htask, trivial⟩ hcall'⟩
  | finish id => exact h.finish id
  | acquire id call hcall hfree =>
      exact ⟨h.file, (h.setPhase id .locked ⟨(h.calls id call hcall).1, trivial⟩).calls⟩
  | create id call hcall hphase x htask =>
      have hx := (h.calls id call hcall).1
      rw [htask] at hx
      exact h.setPhase id _ ⟨by rw [htask]; exact hx, x, hx, .created⟩
  | reserve id call hcall hphase issue k htask st st' x' count hload hreserve =>
      obtain ⟨x, hx, hst⟩ := h.loaded hload
      exact h.setPhase id _ ⟨(h.calls id call hcall).1, x, hx, hst.reserved hreserve⟩
  | stage id call hcall st grant hphase nonce raw hseal =>
      have hown := (h.calls id call hcall).2
      rw [hphase] at hown
      exact h.setPhase id _ ⟨(h.calls id call hcall).1, st, nonce, hown, hseal⟩
  | install id call hcall raw grant hphase hname =>
      exact ⟨h.replaced hcall hphase,
        (h.setPhase id (.installed grant) ⟨(h.calls id call hcall).1, trivial⟩).calls⟩
  | installUnseen id call hcall raw grant hphase hname =>
      exact ⟨h.replaced hcall hphase, (h.finish id).calls⟩
  | sync id call hcall grant hphase =>
      exact ⟨h.file.sync, (h.setPhase id (.written grant) ⟨(h.calls id call hcall).1, trivial⟩).calls⟩
  | prove id call hcall issue k htask x counter hphase =>
      exact ⟨h.file, (h.setPhase id .proving ⟨(h.calls id call hcall).1, trivial⟩).calls⟩
  | writeBack => exact ⟨h.file.sync, h.calls⟩
  | crash process =>
      exact ⟨h.file, fun id' call' hcall' => h.calls id' call' (VaultWorld.crash_calls hcall').1⟩
  | powerLoss => exact ⟨h.file.powerLoss, nofun⟩

/-- A wallet that began without a file has only own files. -/
theorem after (aead : Aead) (v : SignerVault) (events : List VaultEvent) :
    OwnFiles aead v (run (VaultWorld.step aead v) (VaultWorld.initial ⟨none, none⟩) events) :=
  run_of_moves (fun _ _ h hmove => h.move hmove) .initial events

end OwnFiles

/-- **A wallet never locks itself out.** Every state reached from `CreateSignerVault` by
reservations has a plaintext within the budget of `write`; so creation and every reservation that
passes the checks of quota and issue count are written, each file is at most `maxVaultBytes` long,
and reading it with the same key and identity gives back exactly the state that was written. Along
every run of calls, failures, crashes and power losses that starts without a file, the states being
written are such states, and the file, now and after a power loss, was written for one. -/
theorem wallet_never_locked_out (aead : Aead) (v : SignerVault) :
    (∀ x, canonicalNonzero (some x) secp256k1Fr = true → ∀ st, WalletState x st →
      Usable aead v x st) ∧
    ∀ events, let w := run (VaultWorld.step aead v) (VaultWorld.initial ⟨none, none⟩) events
      (∀ id call st grant, w.calls id = some call → call.phase = .writing st grant →
        OwnState st) ∧
      w.file.Both fun contents => ∀ raw, contents = some raw → OwnFile aead v raw := by
  refine ⟨fun x hx st hst => hst.usable aead v hx, ?_⟩
  intro events w
  have hinv : OwnFiles aead v w := .after aead v events
  refine ⟨?_, hinv.file⟩
  intro id call st grant hcall hphase
  have hown := (hinv.calls id call hcall).2
  rw [hphase] at hown
  exact hown

/-- A wallet that was created can be opened again with its key and its identity, after every run that
has left a file, and also if the power is lost then. -/
theorem created_wallet_reopens {path : String} {key : List UInt8} {id : FixedBytes 32}
    (hv : newSignerVault path key id = .ok v) (events : List VaultEvent) {w : VaultWorld}
    (hw : w = run (VaultWorld.step aead v) (.initial ⟨none, none⟩) events ∨
      w = (run (VaultWorld.step aead v) (.initial ⟨none, none⟩) events).powerLoss)
    (hfile : w.file.volatile ≠ none) : w.openSignerVault aead path key id = .ok v := by
  have hfiles : OwnFiles aead v w := by
    rcases hw with rfl | rfl
    · exact .after aead v events
    · exact (OwnFiles.after aead v events).move .powerLoss
  obtain ⟨raw, hraw⟩ := Option.ne_none_iff_exists'.1 hfile
  obtain ⟨st, -, hread⟩ := OwnFiles.read_own (hfiles.file.1 raw hraw)
  have hload : w.load aead v = .ok st := by
    rw [VaultWorld.load, hraw]
    exact hread
  rw [VaultWorld.openSignerVault, hv, ok_bind, hload]
  rfl

end Cipher

example : Usable plainAead sampleVault 3 ⟨scalarHex 3, ∅⟩ :=
  WalletState.created.usable plainAead sampleVault (by decide)

end Lktrs.NativeProof
