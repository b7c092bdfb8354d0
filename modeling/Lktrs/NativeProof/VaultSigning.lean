import Lktrs.NativeProof.ServiceAgreement
import Lktrs.NativeProof.Tracing
import Lktrs.NativeProof.VaultSize

/-!
# Signing with the wallet

`SignerVault.Sign` hands `reserveAndProve` a closure that makes the statement for
the reserved counter and proves it. Every run of wallet handles passes one secret
to its closures and the counters of an issue in ascending order
(`wallet_counters_ascend`). So whatever is interleaved, fails or crashes, two
signatures that two calls of `Sign` return for one issue are linked and never
traced (`wallet_signatures_legal`). A call that nothing disturbs gets the counter that
`NextCounter` announced (`idle_wallet_serves`).
-/

set_option autoImplicit false

namespace Lktrs.NativeProof

open Lktrs.Foundation

variable {aead : Aead} {v : SignerVault} {w : VaultWorld}

/-! ## One secret, ascending counters -/

/-- The secret in a state is the granted one, and everything proved so far used it. -/
def GrantSecret (proved : List ProveCall) (st : VaultState) (grant : ℤ × UInt32) : Prop :=
  trustScalar st.x true = .ok grant.1 ∧ ∀ r ∈ proved, r.x = grant.1

/-- Contents that hold the secret of everything proved. -/
def HoldsSecret (aead : Aead) (v : SignerVault) (proved : List ProveCall)
    (contents : Option (List UInt8)) : Prop :=
  ∀ r ∈ proved, ∃ st, stored aead v contents = some st ∧ trustScalar st.x true = .ok r.x

/-- The secret a call carries in each of its phases. -/
def PhaseSecret (aead : Aead) (v : SignerVault) (file : FileEntry (List UInt8))
    (proved : List ProveCall) (call : Call) : Prop :=
  match call.phase with
  | .writing st (some grant) => GrantSecret proved st grant
  | .staged raw (some grant) =>
      ∃ st, stored aead v (some raw) = some st ∧ GrantSecret proved st grant
  | .installed (some grant) =>
      ∃ st, stored aead v file.volatile = some st ∧ GrantSecret proved st grant
  | .written (some grant) =>
      ∃ st, stored aead v file.volatile = some st ∧ stored aead v file.durable = some st ∧
        GrantSecret proved st grant
  | _ => True

/-- Latest first: everything was proved with one secret, and the counters of an issue ascend. -/
structure Sequential (aead : Aead) (v : SignerVault) (w : VaultWorld) : Prop where
  order : w.proved.Pairwise fun r r' => r.x = r'.x ∧ (r.issue = r'.issue → r'.counter < r.counter)
  contents : w.file.Both (HoldsSecret aead v w.proved)
  phases : ∀ id call, w.calls id = some call → PhaseSecret aead v w.file w.proved call

theorem GrantSecret.holds {proved : List ProveCall} {st : VaultState} {grant : ℤ × UInt32}
    (h : GrantSecret proved st grant) {contents : Option (List UInt8)}
    (hst : stored aead v contents = some st) : HoldsSecret aead v proved contents := by
  intro r hr
  exact ⟨st, hst, by rw [h.1, h.2 r hr]⟩

theorem phaseSecret_of_waiting {file : FileEntry (List UInt8)} {proved : List ProveCall}
    {call : Call} (h : call.phase = .waiting) : PhaseSecret aead v file proved call := by
  simp [PhaseSecret, h]

namespace Sequential

theorem initial (file : FileEntry (List UInt8)) : Sequential aead v (.initial file) :=
  ⟨.nil, ⟨nofun, nofun⟩, nofun⟩

/-- One call changes, and what it carries is known. -/
theorem update (h : Sequential aead v w) {id id' : ℕ} {call call' : Call}
    (hcall : PhaseSecret aead v w.file w.proved call)
    (hcall' : Function.update w.calls id (some call) id' = some call') :
    PhaseSecret aead v w.file w.proved call' := by
  rcases update_calls hcall' with ⟨-, rfl⟩ | ⟨-, hold⟩
  · exact hcall
  · exact h.phases id' call' hold

/-- The holder of the lock changes the file or the log; every other call waits. -/
theorem holder (hcons : Consistent aead v w) {id : ℕ} (hlock : w.lock = some id)
    {file : FileEntry (List UInt8)} {proved : List ProveCall} {call : Call}
    (hcall : PhaseSecret aead v file proved call) {id' : ℕ} {call' : Call}
    (hcall' : Function.update w.calls id (some call) id' = some call') :
    PhaseSecret aead v file proved call' := by
  rcases update_calls hcall' with ⟨-, rfl⟩ | ⟨hid, hold⟩
  · exact hcall
  · exact phaseSecret_of_waiting (hcons.others_wait hlock hold hid)

/-- A reservation reads the secret that everything before it was proved with. -/
theorem reserved (h : Sequential aead v w) {st st' : VaultState} {issue : FixedBytes 32}
    {k count : UInt32} {x : ℤ} (hload : w.load aead v = .ok st)
    (hreserve : st.reserve issue k = .ok (st', x, count)) : GrantSecret w.proved st' (x, count) := by
  have hst := stored_of_load hload
  simp only [VaultState.reserve, bind_eq_ok, rejectIf_eq_ok, pure_eq_ok, Prod.mk.injEq] at hreserve
  obtain ⟨_, _, _, _, x', hx, rfl, rfl, rfl⟩ := hreserve
  refine ⟨hx, ?_⟩
  intro r hr
  obtain ⟨st'', hst'', hr⟩ := h.contents.1 r hr
  obtain rfl := Option.some.inj (hst.symm.trans hst'')
  exact Except.ok.inj (hr.symm.trans hx)

/-- What is renamed onto the file holds the secret: a new wallet only gets its name where there is no
file, and then nothing was proved. -/
theorem replaced (h : Sequential aead v w) (hcons : Consistent aead v w) {id : ℕ} {call : Call}
    (hcall : w.calls id = some call) {raw : List UInt8} {grant : Option (ℤ × UInt32)}
    (hphase : call.phase = .staged raw grant) (hname : ¬ (grant = none ∧ w.file.volatile ≠ none)) :
    (w.file.replace raw).Both (HoldsSecret aead v w.proved) := by
  apply h.contents.replace
  cases grant with
  | none =>
      have hfile : w.file.volatile = none := by
        by_contra hne
        exact hname ⟨rfl, hne⟩
      have hnil : w.proved = [] := proved_nil_of_no_file (hfile ▸ hcons.covered.1)
      rw [hnil]
      exact nofun
  | some g =>
      have hok := h.phases id call hcall
      simp only [PhaseSecret, hphase] at hok
      obtain ⟨st, hst, hgrant⟩ := hok
      exact hgrant.holds hst

/-- The closure is called with the secret of the wallet, at a counter above those before it. -/
theorem proves (h : Sequential aead v w) (hcons : Consistent aead v w) {id : ℕ} {call : Call}
    (hcall : w.calls id = some call) {issue : FixedBytes 32} {k : UInt32}
    (htask : call.task = .reserveAndProve issue k) {x : ℤ} {counter : UInt32}
    (hphase : call.phase = .written (some (x, counter))) :
    Sequential aead v
      { w.setPhase id call .proving with proved := ⟨issue, k, x, counter⟩ :: w.proved } := by
  have hok := h.phases id call hcall
  have hgranted := hcons.phases id call hcall
  simp only [PhaseSecret, PhaseOk, hphase] at hok hgranted
  obtain ⟨st, hvolatile, hdurable, hx, hproved⟩ := hok
  obtain ⟨st', hvolatile', _, issue', k', htask', hfresh⟩ := hgranted
  obtain ⟨rfl, rfl⟩ : issue = issue' ∧ k = k' := by simpa [htask] using htask'
  have hholds : ∀ r ∈ (⟨issue, k, x, counter⟩ : ProveCall) :: w.proved,
      trustScalar st.x true = .ok r.x := by
    refine List.forall_mem_cons.2 ⟨hx, ?_⟩
    intro r hr
    rw [hx, hproved r hr]
  refine ⟨List.pairwise_cons.2 ⟨?_, h.order⟩, ⟨?_, ?_⟩, ?_⟩
  · intro r hr
    exact ⟨(hproved r hr).symm, fun hissue => (hfresh.fresh r hr hissue.symm).1⟩
  · exact fun r hr => ⟨st, hvolatile, hholds r hr⟩
  · exact fun r hr => ⟨st, hdurable, hholds r hr⟩
  · intro id' call' hcall'
    have hdone (file : FileEntry (List UInt8)) (proved : List ProveCall) :
        PhaseSecret aead v file proved { call with phase := .proving } := by
      simp [PhaseSecret]
    exact holder hcons (hcons.held hcall (by simp [hphase])) (hdone _ _) hcall'

/-- The staged bytes hold the secret of the state that was sealed. -/
theorem stage (h : Sequential aead v w) (hcons : Consistent aead v w) {id : ℕ} {call : Call}
    (hcall : w.calls id = some call) {st : VaultState} {grant : Option (ℤ × UInt32)}
    (hphase : call.phase = .writing st grant) {nonce : FixedBytes 24} {raw : List UInt8}
    (hseal : v.sealState aead st nonce = .ok raw) :
    PhaseSecret aead v w.file w.proved { call with phase := .staged raw grant } := by
  cases grant with
  | none => simp [PhaseSecret]
  | some g =>
      have hok := h.phases id call hcall
      have hvalid := hcons.phases id call hcall
      simp only [PhaseSecret, PhaseOk, hphase] at hok hvalid
      exact ⟨st, stored_eq_some.2 ⟨raw, rfl, readState_sealState hvalid.1 hseal⟩, hok⟩

theorem move (h : Sequential aead v w) (hcons : Consistent aead v w) {w' : VaultWorld}
    (hmove : VaultMove aead v w w') : Sequential aead v w' := by
  cases hmove with
  | stay => exact h
  | start id process task hid htask =>
      exact ⟨h.order, h.contents, fun _ _ => h.update (phaseSecret_of_waiting rfl)⟩
  | finish id =>
      exact ⟨h.order, h.contents, fun id' call' hcall' =>
        h.phases id' call' (VaultWorld.finish_calls hcall').2⟩
  | acquire id call hcall hfree =>
      exact ⟨h.order, h.contents, fun _ _ => h.update (by simp [PhaseSecret])⟩
  | create id call hcall hphase x htask =>
      exact ⟨h.order, h.contents, fun _ _ => h.update (by simp [PhaseSecret])⟩
  | reserve id call hcall hphase issue k htask st st' x count hload hreserve =>
      exact ⟨h.order, h.contents, fun _ _ => h.update (h.reserved hload hreserve)⟩
  | stage id call hcall st grant hphase nonce raw hseal =>
      exact ⟨h.order, h.contents, fun _ _ => h.update (h.stage hcons hcall hphase hseal)⟩
  | install id call hcall raw grant hphase hname =>
      have hlock := hcons.held hcall (by simp [hphase])
      refine ⟨h.order, h.replaced hcons hcall hphase hname, fun _ _ => holder hcons hlock ?_⟩
      cases grant with
      | none => simp [PhaseSecret]
      | some g =>
          have hok := h.phases id call hcall
          simp only [PhaseSecret, hphase] at hok ⊢
          exact hok
  | installUnseen id call hcall raw grant hphase hname =>
      have hlock := hcons.held hcall (by simp [hphase])
      refine ⟨h.order, h.replaced hcons hcall hphase hname, ?_⟩
      intro id' call' hcall'
      obtain ⟨hid, hold⟩ := VaultWorld.finish_calls hcall'
      exact phaseSecret_of_waiting (hcons.others_wait hlock hold hid)
  | sync id call hcall grant hphase =>
      have hlock := hcons.held hcall (by simp [hphase])
      refine ⟨h.order, h.contents.sync, fun _ _ => holder hcons hlock ?_⟩
      cases grant with
      | none => simp [PhaseSecret]
      | some g =>
          have hok := h.phases id call hcall
          simp only [PhaseSecret, hphase] at hok ⊢
          obtain ⟨st, hst, hgrant⟩ := hok
          exact ⟨st, hst, hst, hgrant⟩
  | prove id call hcall issue k htask x counter hphase => exact h.proves hcons hcall htask hphase
  | writeBack =>
      refine ⟨h.order, h.contents.sync, ?_⟩
      intro id call hcall
      have hok := h.phases id call hcall
      unfold PhaseSecret at hok ⊢
      split at hok
      · exact hok
      · exact hok
      · exact hok
      · obtain ⟨st, hst, -, hgrant⟩ := hok
        exact ⟨st, hst, hst, hgrant⟩
      · trivial
  | crash process =>
      exact ⟨h.order, h.contents, fun id' call' hcall' =>
        h.phases id' call' (VaultWorld.crash_calls hcall').1⟩
  | powerLoss => exact ⟨h.order, h.contents.powerLoss, nofun⟩

theorem after (aead : Aead) (v : SignerVault) (file : FileEntry (List UInt8))
    (events : List VaultEvent) :
    Consistent aead v (run (VaultWorld.step aead v) (.initial file) events) ∧
      Sequential aead v (run (VaultWorld.step aead v) (.initial file) events) := by
  apply run_of_moves (P := fun w => Consistent aead v w ∧ Sequential aead v w)
  · rintro w w' ⟨hcons, hseq⟩ hmove
    exact ⟨hcons.move hmove, hseq.move hcons hmove⟩
  · exact ⟨.initial file, .initial file⟩

end Sequential

/-! ## `NextCounter` -/

/-- The counter `NextCounter` returns; a missing entry reads as zero. -/
def VaultState.nextCounter (st : VaultState) (issue : FixedBytes 32) : UInt32 :=
  (st.counters[hexDigest issue]?.map VaultCounter.next).getD 0

def VaultWorld.nextCounter (aead : Aead) (v : SignerVault) (w : VaultWorld)
    (issue : FixedBytes 32) : Except String UInt32 := do
  let st ← w.load aead v
  return st.nextCounter issue

/-- **Closures run in order.** In every run of wallet handles the closures, latest first, got one
secret and for each issue descending counters, and a `NextCounter` that answers at the end of the
run answers above all of them and within the quota they were reserved under. -/
theorem wallet_counters_ascend (aead : Aead) (v : SignerVault) (file : FileEntry (List UInt8))
    (events : List VaultEvent) :
    let w := run (VaultWorld.step aead v) (VaultWorld.initial file) events
    (w.proved.Pairwise fun r r' => r.x = r'.x ∧ (r.issue = r'.issue → r'.counter < r.counter)) ∧
      ∀ issue n, w.nextCounter aead v issue = .ok n →
        ∀ r ∈ w.proved, r.issue = issue → r.counter < n ∧ n ≤ r.k := by
  intro w
  obtain ⟨hcons, hseq⟩ := Sequential.after aead v file events
  refine ⟨hseq.order, ?_⟩
  intro issue n hnext r hr hissue
  simp only [VaultWorld.nextCounter, bind_eq_ok, pure_eq_ok] at hnext
  obtain ⟨st, hload, rfl⟩ := hnext
  obtain ⟨-, hcovers⟩ := Consistent.loaded hcons hload
  obtain ⟨e, he, hk, hlt, hle⟩ := hcovers r hr
  rw [← hissue, VaultState.nextCounter, he]
  exact ⟨hlt, hk ▸ hle⟩

section Undisturbed

variable {aead : Aead} {v : SignerVault} {w : VaultWorld}

/-- A call of `reserveAndProve` with all its system calls, and nothing between them. -/
def reservation (id process : ℕ) (issue : FixedBytes 32) (k : UInt32) (nonce : FixedBytes 24) :
    List VaultEvent :=
  .start id process (.reserveAndProve issue k) :: List.replicate 7 (.step id .success nonce)

theorem run_reservation {id : ℕ} (hid : w.calls id = none) (hlock : w.lock = none) (process : ℕ)
    {st st' : VaultState} {issue : FixedBytes 32} {k : UInt32} {x : ℤ} {count : UInt32}
    {nonce : FixedBytes 24} {raw : List UInt8} (hload : w.load aead v = .ok st)
    (hreserve : st.reserve issue k = .ok (st', x, count))
    (hseal : v.sealState aead st' nonce = .ok raw) :
    run (VaultWorld.step aead v) w (reservation id process issue k nonce) =
      { w with file := ⟨some raw, some raw⟩, proved := ⟨issue, k, x, count⟩ :: w.proved } := by
  have hgrant : (w.load aead v >>= fun st => st.reserve issue k) = .ok (st', x, count) := by
    rw [hload, ok_bind, hreserve]
  have hload' (calls : ℕ → Option Call) (lock : Option ℕ) :
      VaultWorld.load aead v { w with calls, lock } = w.load aead v := rfl
  have hcalls : Function.update w.calls id none = w.calls := by
    rw [← hid, Function.update_eq_self]
  simp only [reservation, List.replicate, run_cons, run_nil, VaultWorld.step, hid,
    VaultWorld.admissible, and_self, if_true, Function.update_self, VaultWorld.advance, hlock,
    VaultWorld.setPhase, Function.update_idem, hload', hgrant, hseal, reduceCtorEq, false_and,
    if_false, VaultWorld.finish, hcalls]
  rfl

theorem load_eq_ok {st : VaultState} :
    w.load aead v = .ok st ↔ stored aead v w.file.volatile = some st := by
  rw [stored_eq_some, VaultWorld.load]
  cases w.file.volatile <;> simp

/-- The state after a reservation of the next counter. -/
def VaultState.advanced (st : VaultState) (issue : FixedBytes 32) (k : UInt32) : VaultState :=
  { st with counters := st.counters.insert (hexDigest issue) ⟨st.nextCounter issue + 1, k⟩ }

theorem VaultState.nextCounter_advanced (st : VaultState) (issue : FixedBytes 32) (k : UInt32) :
    (st.advanced issue k).nextCounter issue = st.nextCounter issue + 1 := by
  simp [VaultState.advanced, VaultState.nextCounter]

/-- Below the quota, under the policy of the issue and undisturbed, a call makes the advanced state
durable and then runs its closure. -/
theorem reservation_completes (hlock : w.lock = none) {id : ℕ} (hid : w.calls id = none)
    {st : VaultState} (hload : w.load aead v = .ok st) (issue : FixedBytes 32) {k : UInt32}
    (hquota : st.nextCounter issue < k)
    (hpolicy : ∀ c, st.counters[hexDigest issue]? = some c → c.k = k)
    (hroom : st.counters[hexDigest issue]? = none → st.counters.size < 10000)
    (process : ℕ) (nonce : FixedBytes 24) :
    ∃ x raw, trustScalar st.x true = .ok x ∧ v.readState aead raw = .ok (st.advanced issue k) ∧
      run (VaultWorld.step aead v) w (reservation id process issue k nonce) =
        { w with file := ⟨some raw, some raw⟩
                 proved := ⟨issue, k, x, st.nextCounter issue⟩ :: w.proved } := by
  obtain ⟨_, -, hread⟩ := stored_eq_some.1 (load_eq_ok.1 hload)
  have hvalid := readState_valid hread
  obtain ⟨x, hx⟩ := hvalid.secret
  have hreserve := reserve_of_checks hx rfl hquota hpolicy hroom
  have hvalid' : (st.advanced issue k).Valid := hvalid.reserve (reserve_eq_ok hreserve)
  obtain ⟨raw, hseal, -⟩ :
      ∃ raw, v.sealState aead (st.advanced issue k) nonce = .ok raw ∧ raw.length ≤ maxVaultBytes :=
    hvalid'.sealed nonce
  exact ⟨x, raw, hx, readState_sealState hvalid' hseal,
    run_reservation hid hlock process hload hreserve hseal⟩

/-- **An idle wallet serves.** After every run that leaves the lock free, a call below the quota and
under the policy of its issue that is not disturbed runs its closure with the counter `NextCounter`
announced; the next announcement is one more, also after a power loss. -/
theorem idle_wallet_serves (file : FileEntry (List UInt8)) (events : List VaultEvent)
    (hw : run (VaultWorld.step aead v) (.initial file) events = w) (hlock : w.lock = none)
    {id : ℕ} (hid : w.calls id = none) {st : VaultState} (hload : w.load aead v = .ok st)
    (issue : FixedBytes 32) {k : UInt32} (hquota : st.nextCounter issue < k)
    (hpolicy : ∀ c, st.counters[hexDigest issue]? = some c → c.k = k)
    (hroom : st.counters[hexDigest issue]? = none → st.counters.size < 10000)
    (process : ℕ) (nonce : FixedBytes 24) :
    ∃ x w', trustScalar st.x true = .ok x ∧
      run (VaultWorld.step aead v) (.initial file)
        (events ++ reservation id process issue k nonce) = w' ∧
      w'.proved = ⟨issue, k, x, st.nextCounter issue⟩ :: w.proved ∧
      w'.lock = none ∧ w'.calls = w.calls ∧
      w'.nextCounter aead v issue = .ok (st.nextCounter issue + 1) ∧
      w'.powerLoss.nextCounter aead v issue = .ok (st.nextCounter issue + 1) := by
  obtain ⟨x, raw, hx, hread, hrun⟩ :=
    reservation_completes hlock hid hload issue hquota hpolicy hroom process nonce
  -- both copies of the file are read as the advanced state
  have hnext (w' : VaultWorld) (hfile : w'.file.volatile = some raw) :
      w'.nextCounter aead v issue = .ok (st.nextCounter issue + 1) := by
    have hstored := stored_eq_some.2 ⟨raw, hfile, hread⟩
    rw [VaultWorld.nextCounter, load_eq_ok.2 hstored, ok_bind, pure_eq_ok,
      VaultState.nextCounter_advanced]
  refine ⟨x, _, hx, rfl, ?_⟩
  rw [run_append, hw, hrun]
  exact ⟨rfl, hlock, rfl, hnext _ rfl, hnext _ rfl⟩

end Undisturbed

/-- What the sample user's wallet reserves for the sample issue. -/
def sampleProveCall (counter : UInt32) : ProveCall := ⟨FixedBytes.zero 32, 2, 3, counter⟩

def sampleReservation : List VaultEvent :=
  reservation 0 0 (FixedBytes.zero 32) 2 (FixedBytes.ofNat 24 9)

/-- A file that holds the new wallet of the sample user. -/
theorem sample_wallet_file : ∃ raw, sampleVault.readState plainAead raw = .ok ⟨scalarHex 3, ∅⟩ := by
  have hvalid := (WalletState.valid (x := 3) (by decide) .created).2
  obtain ⟨raw, hseal, -⟩ : ∃ raw, sampleVault.sealState plainAead ⟨scalarHex 3, ∅⟩
      (FixedBytes.ofNat 24 9) = .ok raw ∧ raw.length ≤ maxVaultBytes :=
    hvalid.sealed _
  exact ⟨raw, readState_sealState hvalid hseal⟩

/-- The new wallet serves its first counter. -/
theorem idle_wallet_serves_sample : ∃ raw, (run (VaultWorld.step plainAead sampleVault)
    (.initial ⟨some raw, some raw⟩) ([] ++ sampleReservation)).proved = [sampleProveCall 0] := by
  obtain ⟨raw, hread⟩ := sample_wallet_file
  have hload : VaultWorld.load plainAead sampleVault (.initial ⟨some raw, some raw⟩) =
      .ok ⟨scalarHex 3, ∅⟩ := hread
  obtain ⟨x, w', hx, hrun, hproved, -⟩ := idle_wallet_serves _ [] rfl rfl (rfl : _ = none)
    hload (FixedBytes.zero 32) (k := 2) (by decide) (by simp) (by simp) 0 (FixedBytes.ofNat 24 9)
  obtain rfl := Except.ok.inj (hx.symm.trans (trustScalar_scalarHex (by decide)))
  refine ⟨raw, ?_⟩
  rw [sampleReservation, hrun]
  exact hproved

/-! ## `Sign` -/

section Signing

variable (lib : GnarkCrypto) {zk : Groth16}

/-- The arguments of `Sign` that its closure captures, with the randomness the prover draws. -/
structure SignRequest (zk : Groth16) where
  prover : Option (Prover zk)
  ring : Snapshot
  account : ℤ
  message : List UInt8
  ts : UInt64
  randomness : ℕ

/-- `Sign` up to `reserveAndProve`: the closure it passes, as a function of what was reserved. -/
def SignRequest.closure (q : SignRequest zk) :
    Except String (ProveCall → Except String Signed) := do
  rejectIf (q.account < 0 ∨ q.account ≥ q.ring.accounts.length) "invalid wallet signing context"
  match q.prover, (q.ring.accounts[q.account.toNat]?).bind Account.d with
  | some p, some d =>
      return fun c => do
        let (st, w) ← makeStatement lib q.ring.params q.ring.accounts q.account c.x d c.issue
          (sha256 q.message) q.ts c.k c.counter
        p.prove lib q.ring.params st w q.randomness
  | _, _ => .error "invalid wallet signing context"

/-- What the call of `Sign` that reserved `c` returns. -/
def SignRequest.sign (q : SignRequest zk) (c : ProveCall) : Except String Signed := do
  let prove ← q.closure lib
  prove c

variable {lib}

theorem SignRequest.sign_made {q : SignRequest zk} {c : ProveCall} {signed : Signed}
    (h : q.sign lib c = .ok signed) : ∃ p accounts i d md ts w,
      makeStatement lib p accounts i c.x d c.issue md ts c.k c.counter = .ok (signed.statement, w) := by
  simp only [SignRequest.sign, SignRequest.closure, bind_eq_ok, rejectIf_eq_ok] at h
  obtain ⟨prove, ⟨_, _, hclosure⟩, hprove⟩ := h
  split at hclosure
  · simp only [pure_eq_ok] at hclosure
    subst hclosure
    obtain ⟨⟨st, w⟩, hmake, hprove⟩ := bind_eq_ok.1 hprove
    obtain ⟨_, _, _, _, _, _, rfl⟩ := Prover.prove_eq_ok.1 hprove
    exact ⟨_, _, _, _, _, _, w, hmake⟩
  · cases hclosure

/-- Two entries of the log have different counters unless they are one entry. -/
theorem Sequential.counter_ne {aead : Aead} {v : SignerVault} {w : VaultWorld}
    (h : Sequential aead v w) {i j : ℕ} (hij : i ≠ j) {c c' : ProveCall}
    (hi : w.proved[i]? = some c) (hj : w.proved[j]? = some c') :
    c.x = c'.x ∧ (c.issue = c'.issue → c.counter ≠ c'.counter) := by
  obtain ⟨hi', rfl⟩ := List.getElem?_eq_some_iff.1 hi
  obtain ⟨hj', rfl⟩ := List.getElem?_eq_some_iff.1 hj
  rcases Nat.lt_or_gt_of_ne hij with hlt | hlt
  · obtain ⟨hx, hless⟩ := List.pairwise_iff_getElem.1 h.order i j hi' hj' hlt
    exact ⟨hx, fun hissue => (UInt32.ne_of_lt (hless hissue)).symm⟩
  · obtain ⟨hx, hless⟩ := List.pairwise_iff_getElem.1 h.order j i hj' hi' hlt
    exact ⟨hx.symm, fun hissue => UInt32.ne_of_lt (hless hissue.symm)⟩

/-- **The wallet never gives its user away.** Two calls of `Sign` for one issue, of whatever handles
in a run with any interleaving, failures, crashes and power losses: wherever both signatures verify,
they are linked, and `Trace` finds them legal with every registry. -/
theorem wallet_signatures_legal {aead : Aead} {vault : SignerVault} {file : FileEntry (List UInt8)}
    {events : List VaultEvent} {i j : ℕ} (hij : i ≠ j) {c c' : ProveCall}
    (hi : (run (VaultWorld.step aead vault) (.initial file) events).proved[i]? = some c)
    (hj : (run (VaultWorld.step aead vault) (.initial file) events).proved[j]? = some c')
    (hissue : c.issue = c'.issue) {q q' : SignRequest zk} {sa sb : Signed}
    (hsa : q.sign lib c = .ok sa) (hsb : q'.sign lib c' = .ok sb) {v : Verifier zk}
    {a b : VerificationContext} {ma mb : List UInt8} (hva : v.verify lib a ma sa = .ok ())
    (hvb : v.verify lib b mb sb = .ok ()) :
    v.link lib a ma sa b mb sb = .ok true ∧
      ∀ registry, v.trace lib a ma sa b mb sb registry = ({ status := .legal }, none) := by
  obtain ⟨hcons, hseq⟩ := Sequential.after aead vault file events
  obtain ⟨hx, hcounter⟩ := hseq.counter_ne hij hi hj
  have hk := hcons.once.quota c (List.mem_of_getElem? hi) c' (List.mem_of_getElem? hj) hissue
  have hfirst : UserSignature lib v c.x c.issue c.k a ma sa c.counter := ⟨q.sign_made hsa, hva⟩
  have hsecond : UserSignature lib v c.x c.issue c.k b mb sb c'.counter := by
    rw [hx, hissue, hk]
    exact ⟨q'.sign_made hsb, hvb⟩
  exact ⟨hfirst.link_eq hsecond, hfirst.trace_legal hsecond (hcounter hissue)⟩

end Signing

/-- The sample user signs the empty message with the second account of the sample ring. -/
def sampleSignRequest : SignRequest sampleGroth16 where
  prover := some ⟨(), (), sha256 [], sha256 []⟩
  ring := ⟨sampleParams, sampleRing, Affine.infinity⟩
  account := 1
  message := []
  ts := 9
  randomness := 0

theorem sample_sign_eq (counter : UInt32) :
    sampleSignRequest.sign exponentLib (sampleProveCall counter) =
      makeStatement exponentLib sampleParams sampleRing 1 3 7 (FixedBytes.zero 32)
        (sha256 []) 9 2 counter >>= fun out =>
      Prover.prove exponentLib (⟨(), (), sha256 [], sha256 []⟩ : Prover sampleGroth16) sampleParams
        out.1 out.2 0 := rfl

/-- The sample prover proves every statement that was made. -/
theorem sample_sign_ok {counter : UInt32} {st : Statement} {w : SecretWitness}
    (h : makeStatement exponentLib sampleParams sampleRing 1 3 7 (FixedBytes.zero 32)
      (sha256 []) 9 2 counter = .ok (st, w)) :
    ∃ signed, sampleSignRequest.sign exponentLib (sampleProveCall counter) = .ok signed := by
  obtain ⟨a, ha, hdefine⟩ := define_of_made exponentLib ((makeStatement_eq_ok exponentLib).1 h)
  rw [sample_sign_eq, h]
  exact ⟨_, Prover.prove_eq_ok.2 ⟨a, (), sampleProofBytes, ha, hdefine, rfl, rfl⟩⟩

/-- What the sample request returns is accepted in the sample context. -/
theorem sample_sign_accepted {counter : UInt32} {signed : Signed} {ctx : VerificationContext}
    (hctx : sampleContext = .ok ctx)
    (h : sampleSignRequest.sign exponentLib (sampleProveCall counter) = .ok signed) :
    sampleVerifier.verify exponentLib ctx [] signed = .ok () := by
  rw [sample_sign_eq] at h
  obtain ⟨⟨st, w⟩, hmake, hprove⟩ := bind_eq_ok.1 h
  obtain ⟨_, _, data, _, _, hdata, rfl⟩ := Prover.prove_eq_ok.1 hprove
  obtain rfl : sampleProofBytes = data := Except.ok.inj hdata
  exact sampleVerifier_accepts hctx hmake

/-- The sample wallet reserves twice. -/
theorem sample_wallet_log : ∃ file, (run (VaultWorld.step plainAead sampleVault) (.initial file)
    (sampleReservation ++ sampleReservation)).proved = [sampleProveCall 1, sampleProveCall 0] := by
  obtain ⟨raw, hread⟩ := sample_wallet_file
  have hsecret : trustScalar (scalarHex 3) true = .ok 3 := trustScalar_scalarHex (by decide)
  have hload : VaultWorld.load plainAead sampleVault (.initial ⟨some raw, some raw⟩) =
      .ok ⟨scalarHex 3, ∅⟩ := hread
  obtain ⟨x, raw', hx, hread', hrun⟩ := reservation_completes rfl (rfl : _ = none) hload
    (FixedBytes.zero 32) (k := 2) (by decide) (by simp) (by simp) 0 (FixedBytes.ofNat 24 9)
  obtain rfl := Except.ok.inj (hx.symm.trans hsecret)
  -- the second call reads what the first one made durable
  let w : VaultWorld :=
    { VaultWorld.initial ⟨some raw, some raw⟩ with
      file := ⟨some raw', some raw'⟩, proved := [sampleProveCall 0] }
  have hload' : VaultWorld.load plainAead sampleVault w =
      .ok (VaultState.advanced ⟨scalarHex 3, ∅⟩ (FixedBytes.zero 32) 2) := hread'
  obtain ⟨x, raw'', hx, -, hrun'⟩ := reservation_completes rfl (rfl : _ = none) hload'
    (FixedBytes.zero 32) (k := 2) (by decide) (by simp [VaultState.advanced])
    (by simp [VaultState.advanced]) 0 (FixedBytes.ofNat 24 9)
  obtain rfl := Except.ok.inj (hx.symm.trans hsecret)
  refine ⟨⟨some raw, some raw⟩, ?_⟩
  rw [run_append, sampleReservation, hrun]
  exact congrArg VaultWorld.proved hrun'

/-- Two signatures of the sample wallet are linked and legal. -/
theorem wallet_signatures_legal_sample :
    ∃ ctx sa sb, sampleContext = .ok ctx ∧
      sampleSignRequest.sign exponentLib (sampleProveCall 1) = .ok sa ∧
      sampleSignRequest.sign exponentLib (sampleProveCall 0) = .ok sb ∧
      sampleVerifier.link exponentLib ctx [] sa ctx [] sb = .ok true ∧
      ∀ registry, sampleVerifier.trace exponentLib ctx [] sa ctx [] sb registry =
        ({ status := .legal }, none) := by
  obtain ⟨ctx, hctx⟩ := sampleContext_ok
  obtain ⟨st, w, hmake, -⟩ := sampleStatement_ok 0
  obtain ⟨⟨st', w'⟩, hmake'⟩ := exists_ok_of_isOk (x := makeStatement exponentLib sampleParams
    sampleRing 1 3 7 (FixedBytes.zero 32) (sha256 []) 9 2 0) (by decide +kernel)
  obtain ⟨sa, hsa⟩ := sample_sign_ok hmake
  obtain ⟨sb, hsb⟩ := sample_sign_ok hmake'
  obtain ⟨file, hproved⟩ := sample_wallet_log
  have hlog (i : ℕ) : (run (VaultWorld.step plainAead sampleVault) (.initial file)
      (sampleReservation ++ sampleReservation)).proved[i]? =
        [sampleProveCall 1, sampleProveCall 0][i]? := by
    rw [hproved]
  exact ⟨ctx, sa, sb, hctx, hsa, hsb, wallet_signatures_legal Nat.zero_ne_one (hlog 0) (hlog 1) rfl
    hsa hsb (sample_sign_accepted hctx hsa) (sample_sign_accepted hctx hsb)⟩

end Lktrs.NativeProof
