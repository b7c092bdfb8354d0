import Lktrs.NativeProof.Vault
import Lktrs.Foundation.Runs

/-!
# Runs of wallet handles

Any number of handles in any number of processes call into one wallet file. A
call advances one system call at a time; between two of its steps every other
call may step, the system may write the directory entry back, a process may
crash and the machine may lose power. `lock` is the mutual exclusion of the
lock file: a call that finds it taken waits.

`VaultMove` says once what an event can do (`step_move`), and every invariant of
the wallet is read off it. A counter is passed to `prove` only after a state that
reserves it has been made durable: `Consistent` says what every reachable world
satisfies, and `vault_counters_used_once` reads the guarantee of the wallet off
it.
-/

set_option autoImplicit false

namespace Lktrs.NativeProof

open Lktrs.Foundation
open Std (ExtTreeMap)

/-! ## Calls and worlds -/

inductive Task where
  | create (x : ℤ)
  | reopen
  | nextCounter (issue : FixedBytes 32)
  | reserveAndProve (issue : FixedBytes 32) (k : UInt32)

/-- How far a call has come. A grant is the secret and the counter that will be proved with; the
creation of a wallet has none. -/
inductive Phase where
  /-- In `lock`. -/
  | waiting
  | locked
  /-- In `write`, before the new file exists. -/
  | writing (state : VaultState) (grant : Option (ℤ × UInt32))
  /-- The temporary file is written, synchronised and closed. -/
  | staged (raw : List UInt8) (grant : Option (ℤ × UInt32))
  /-- The temporary file has the wallet's name. -/
  | installed (grant : Option (ℤ × UInt32))
  /-- `write` has returned without error. -/
  | written (grant : Option (ℤ × UInt32))
  /-- `prove` is running. -/
  | proving

structure Call where
  process : ℕ
  task : Task
  phase : Phase

/-- What one call of `prove` was given. -/
structure ProveCall where
  issue : FixedBytes 32
  k : UInt32
  x : ℤ
  counter : UInt32

structure VaultWorld where
  file : FileEntry (List UInt8)
  /-- The call that holds the lock. -/
  lock : Option ℕ
  calls : ℕ → Option Call
  proved : List ProveCall

/-- How a system call ends; a rename that reports an error may still have taken effect. -/
inductive SystemResult where
  | success
  | failure (effect : Bool)

inductive VaultEvent where
  | start (id process : ℕ) (task : Task)
  | step (id : ℕ) (result : SystemResult) (nonce : FixedBytes 24)
  | writeBack
  | crash (process : ℕ)
  | powerLoss

namespace VaultWorld

/-- No call is running yet; the file may be anything. -/
def initial (file : FileEntry (List UInt8)) : VaultWorld :=
  { file, lock := none, calls := fun _ => none, proved := [] }

def setPhase (w : VaultWorld) (id : ℕ) (call : Call) (phase : Phase) : VaultWorld :=
  { w with calls := Function.update w.calls id (some { call with phase }) }

/-- A call returns; the deferred unlock runs. -/
def finish (w : VaultWorld) (id : ℕ) : VaultWorld :=
  { w with calls := Function.update w.calls id none
           lock := if w.lock = some id then none else w.lock }

/-- A process dies: its calls are gone and a lock it held is released. -/
def crash (w : VaultWorld) (process : ℕ) : VaultWorld :=
  { w with calls := fun id => (w.calls id).filter fun c => c.process ≠ process
           lock := w.lock.filter fun id => (w.calls id).all fun c => c.process ≠ process }

/-- The machine stops: no call survives and an unsynchronised entry is lost. -/
def powerLoss (w : VaultWorld) : VaultWorld :=
  { w with file := w.file.powerLoss, lock := none, calls := fun _ => none }

section Cipher

variable (aead : Aead) (v : SignerVault)

/-- `read` of the file as it is now. -/
def load (w : VaultWorld) : Except String VaultState :=
  match w.file.volatile with
  | none => .error "no such file or directory"
  | some raw => v.readState aead raw

/-- `OpenSignerVault` while it holds the lock. -/
def openSignerVault (w : VaultWorld) (path : String) (key : List UInt8) (id : FixedBytes 32) :
    Except String SignerVault := do
  let v ← newSignerVault path key id
  let _ ← w.load aead v
  return v

/-- The next system call of a call, with what lies before the one after. -/
def advance (w : VaultWorld) (id : ℕ) (call : Call) (result : SystemResult)
    (nonce : FixedBytes 24) : VaultWorld :=
  match call.phase with
  | .waiting =>
      match result with
      | .failure _ => w.finish id
      | .success =>
          if w.lock = none then { w.setPhase id call .locked with lock := some id } else w
  | .locked =>
      match result with
      | .failure _ => w.finish id
      | .success =>
          match call.task with
          | .create x => w.setPhase id call (.writing ⟨scalarHex x, ∅⟩ none)
          | .reopen => w.finish id
          | .nextCounter _ => w.finish id
          | .reserveAndProve issue k =>
              match w.load aead v >>= fun st => st.reserve issue k with
              | .error _ => w.finish id
              | .ok (st, x, count) => w.setPhase id call (.writing st (some (x, count)))
  | .writing st grant =>
      match result with
      | .failure _ => w.finish id
      | .success =>
          match v.sealState aead st nonce with
          | .error _ => w.finish id
          | .ok raw => w.setPhase id call (.staged raw grant)
  | .staged raw grant =>
      -- `Link` refuses a name that exists; `Rename` replaces it
      if grant = none ∧ w.file.volatile ≠ none then w.finish id
      else
        match result with
        | .success => { w.setPhase id call (.installed grant) with file := w.file.replace raw }
        | .failure true => { w.finish id with file := w.file.replace raw }
        | .failure false => w.finish id
  | .installed grant =>
      match result with
      | .failure _ => w.finish id
      | .success => { w.setPhase id call (.written grant) with file := w.file.sync }
  | .written grant =>
      match grant, call.task with
      | some (x, counter), .reserveAndProve issue k =>
          { w.setPhase id call .proving with proved := ⟨issue, k, x, counter⟩ :: w.proved }
      | _, _ => w.finish id
  | .proving => w.finish id

/-- `CreateSignerVault` checks the secret before it opens anything. -/
def admissible : Task → Bool
  | .create x => canonicalNonzero (some x) secp256k1Fr
  | _ => true

def step (w : VaultWorld) : VaultEvent → VaultWorld
  | .start id process task =>
      if w.calls id = none ∧ admissible task = true then
        { w with calls := Function.update w.calls id (some ⟨process, task, .waiting⟩) }
      else w
  | .step id result nonce =>
      match w.calls id with
      | none => w
      | some call => w.advance aead v id call result nonce
  | .writeBack => { w with file := w.file.sync }
  | .crash process => w.crash process
  | .powerLoss => w.powerLoss

end Cipher

end VaultWorld

/-! ## What an event can do -/

/-- What an event does to a world of wallet calls. -/
inductive VaultMove (aead : Aead) (v : SignerVault) (w : VaultWorld) : VaultWorld → Prop
  | stay : VaultMove aead v w w
  | start (id process : ℕ) (task : Task) (hid : w.calls id = none)
      (htask : VaultWorld.admissible task = true) :
      VaultMove aead v w
        { w with calls := Function.update w.calls id (some ⟨process, task, .waiting⟩) }
  /-- A call returns and has left the file as it is. -/
  | finish (id : ℕ) : VaultMove aead v w (w.finish id)
  | acquire (id : ℕ) (call : Call) (hcall : w.calls id = some call) (hfree : w.lock = none) :
      VaultMove aead v w { w.setPhase id call .locked with lock := some id }
  | create (id : ℕ) (call : Call) (hcall : w.calls id = some call) (hphase : call.phase = .locked)
      (x : ℤ) (htask : call.task = .create x) :
      VaultMove aead v w (w.setPhase id call (.writing ⟨scalarHex x, ∅⟩ none))
  | reserve (id : ℕ) (call : Call) (hcall : w.calls id = some call) (hphase : call.phase = .locked)
      (issue : FixedBytes 32) (k : UInt32) (htask : call.task = .reserveAndProve issue k)
      (st st' : VaultState) (x : ℤ) (count : UInt32) (hload : w.load aead v = .ok st)
      (hreserve : st.reserve issue k = .ok (st', x, count)) :
      VaultMove aead v w (w.setPhase id call (.writing st' (some (x, count))))
  | stage (id : ℕ) (call : Call) (hcall : w.calls id = some call) (st : VaultState)
      (grant : Option (ℤ × UInt32)) (hphase : call.phase = .writing st grant)
      (nonce : FixedBytes 24) (raw : List UInt8) (hseal : v.sealState aead st nonce = .ok raw) :
      VaultMove aead v w (w.setPhase id call (.staged raw grant))
  | install (id : ℕ) (call : Call) (hcall : w.calls id = some call) (raw : List UInt8)
      (grant : Option (ℤ × UInt32)) (hphase : call.phase = .staged raw grant)
      (hname : ¬ (grant = none ∧ w.file.volatile ≠ none)) :
      VaultMove aead v w { w.setPhase id call (.installed grant) with file := w.file.replace raw }
  /-- The rename reports an error and has taken effect. -/
  | installUnseen (id : ℕ) (call : Call) (hcall : w.calls id = some call) (raw : List UInt8)
      (grant : Option (ℤ × UInt32)) (hphase : call.phase = .staged raw grant)
      (hname : ¬ (grant = none ∧ w.file.volatile ≠ none)) :
      VaultMove aead v w { w.finish id with file := w.file.replace raw }
  | sync (id : ℕ) (call : Call) (hcall : w.calls id = some call) (grant : Option (ℤ × UInt32))
      (hphase : call.phase = .installed grant) :
      VaultMove aead v w { w.setPhase id call (.written grant) with file := w.file.sync }
  | prove (id : ℕ) (call : Call) (hcall : w.calls id = some call) (issue : FixedBytes 32)
      (k : UInt32) (htask : call.task = .reserveAndProve issue k) (x : ℤ) (counter : UInt32)
      (hphase : call.phase = .written (some (x, counter))) :
      VaultMove aead v w
        { w.setPhase id call .proving with proved := ⟨issue, k, x, counter⟩ :: w.proved }
  | writeBack : VaultMove aead v w { w with file := w.file.sync }
  | crash (process : ℕ) : VaultMove aead v w (w.crash process)
  | powerLoss : VaultMove aead v w w.powerLoss

section Moves

variable {aead : Aead} {v : SignerVault} {w : VaultWorld} {id : ℕ} {call : Call}

/-- After the lock: the task is looked at and, for a reservation, the file is read. -/
theorem advance_move_locked (hcall : w.calls id = some call) (hphase : call.phase = .locked)
    (result : SystemResult) (nonce : FixedBytes 24) :
    VaultMove aead v w (w.advance aead v id call result nonce) := by
  simp only [VaultWorld.advance, hphase]
  cases result with
  | failure effect => exact .finish id
  | success =>
      cases htask : call.task with
      | create x => exact .create id call hcall hphase x htask
      | reopen => exact .finish id
      | nextCounter issue => exact .finish id
      | reserveAndProve issue k =>
          simp only
          cases hreserve : w.load aead v >>= fun st => st.reserve issue k with
          | error e => exact .finish id
          | ok out =>
              obtain ⟨st, hload, hst⟩ := bind_eq_ok.1 hreserve
              exact .reserve id call hcall hphase issue k htask st out.1 out.2.1 out.2.2 hload hst

/-- Every system call of a call is one of the moves. -/
theorem advance_move (hcall : w.calls id = some call) (result : SystemResult)
    (nonce : FixedBytes 24) : VaultMove aead v w (w.advance aead v id call result nonce) := by
  cases hphase : call.phase with
  | waiting =>
      simp only [VaultWorld.advance, hphase]
      cases result with
      | failure effect => exact .finish id
      | success =>
          simp only
          split_ifs with hfree
          · exact .acquire id call hcall hfree
          · exact .stay
  | locked => exact advance_move_locked hcall hphase result nonce
  | writing st grant =>
      simp only [VaultWorld.advance, hphase]
      cases result with
      | failure effect => exact .finish id
      | success =>
          simp only
          cases hseal : v.sealState aead st nonce with
          | error e => exact .finish id
          | ok raw => exact .stage id call hcall st grant hphase nonce raw hseal
  | staged raw grant =>
      simp only [VaultWorld.advance, hphase]
      split_ifs with hname
      · exact .finish id
      · cases result with
        | success => exact .install id call hcall raw grant hphase hname
        | failure effect =>
            cases effect with
            | true => exact .installUnseen id call hcall raw grant hphase hname
            | false => exact .finish id
  | installed grant =>
      simp only [VaultWorld.advance, hphase]
      cases result with
      | failure effect => exact .finish id
      | success => exact .sync id call hcall grant hphase
  | written grant =>
      simp only [VaultWorld.advance, hphase]
      split
      · rename_i x counter issue k htask
        exact .prove id call hcall issue k htask x counter hphase
      · exact .finish id
  | proving =>
      simp only [VaultWorld.advance, hphase]
      exact .finish id

theorem step_move (w : VaultWorld) (event : VaultEvent) :
    VaultMove aead v w (w.step aead v event) := by
  cases event with
  | start id process task =>
      simp only [VaultWorld.step]
      split_ifs with hstart
      · exact .start id process task hstart.1 hstart.2
      · exact .stay
  | step id result nonce =>
      simp only [VaultWorld.step]
      cases hcall : w.calls id with
      | none => exact .stay
      | some call => exact advance_move hcall result nonce
  | writeBack => exact .writeBack
  | crash process => exact .crash process
  | powerLoss => exact .powerLoss

/-- What every move keeps is kept along a run. -/
theorem run_of_moves {P : VaultWorld → Prop} (hmove : ∀ w w', P w → VaultMove aead v w w' → P w')
    {w : VaultWorld} (h : P w) (events : List VaultEvent) :
    P (run (VaultWorld.step aead v) w events) :=
  run_invariant P (fun w event h => hmove w _ h (step_move w event)) h events

/-- Returning takes away one call. -/
theorem VaultWorld.finish_calls {id' : ℕ} {call' : Call}
    (h : (w.finish id).calls id' = some call') : id' ≠ id ∧ w.calls id' = some call' := by
  simp only [VaultWorld.finish] at h
  by_cases hid : id' = id
  · subst hid
    simp at h
  · rw [Function.update_of_ne hid] at h
    exact ⟨hid, h⟩

/-- A crash takes away the calls of a process. -/
theorem VaultWorld.crash_calls {process id' : ℕ} {call' : Call}
    (h : (w.crash process).calls id' = some call') :
    w.calls id' = some call' ∧ call'.process ≠ process := by
  simpa [VaultWorld.crash, Option.filter_eq_some_iff] using h

/-- One call is put in place; the others are as before. -/
theorem update_calls {calls : ℕ → Option Call} {id' : ℕ} {call' : Call}
    (h : Function.update calls id (some call) id' = some call') :
    id' = id ∧ call = call' ∨ id' ≠ id ∧ calls id' = some call' := by
  by_cases hid : id' = id
  · subst hid
    rw [Function.update_self, Option.some.injEq] at h
    exact .inl ⟨rfl, h⟩
  · rw [Function.update_of_ne hid] at h
    exact .inr ⟨hid, h⟩

end Moves

/-! ## The invariant -/

/-- An entry of a state is past a proved counter, under the quota it was proved with. -/
def Covered (st : VaultState) (r : ProveCall) : Prop :=
  ∃ e, st.counters[hexDigest r.issue]? = some e ∧ e.k = r.k ∧ r.counter < e.next ∧ e.next ≤ e.k

/-- The state reserves this counter on top of all that has been proved. -/
structure Granted (st : VaultState) (proved : List ProveCall) (issue : FixedBytes 32)
    (k counter : UInt32) : Prop where
  covers : ∀ r ∈ proved, Covered st r
  entry : st.counters[hexDigest issue]? = some ⟨counter + 1, k⟩
  below : counter < k
  fresh : ∀ r ∈ proved, r.issue = issue → r.counter < counter ∧ r.k = k

/-- What the log of `prove` calls guarantees. -/
structure UsedOnce (proved : List ProveCall) : Prop where
  distinct : (proved.map fun r => (r.issue, r.counter)).Nodup
  below : ∀ r ∈ proved, r.counter < r.k
  quota : ∀ r ∈ proved, ∀ r' ∈ proved, r.issue = r'.issue → r.k = r'.k

/-- A grant belongs to the task that asked for it. -/
def GrantOk (st : VaultState) (proved : List ProveCall) (grant : ℤ × UInt32) (task : Task) : Prop :=
  ∃ issue k, task = .reserveAndProve issue k ∧ Granted st proved issue k grant.2

/-- The entry of a reserved issue is the advanced one, the others are untouched. -/
theorem Reserved.lookup {st st' : VaultState} {issue : FixedBytes 32} {k count : UInt32}
    (h : Reserved st st' issue k count) (issue' : FixedBytes 32) :
    st'.counters[hexDigest issue']? =
      if issue = issue' then some ⟨count + 1, k⟩ else st.counters[hexDigest issue']? := by
  rw [h.updated]
  show (st.counters.insert (hexDigest issue) ⟨count + 1, k⟩)[hexDigest issue']? = _
  rw [ExtTreeMap.getElem?_insert]
  by_cases heq : issue = issue'
  · subst heq
    simp
  · rw [if_neg heq, if_neg]
    intro hcmp
    exact heq (hexDigest_inj (Std.LawfulEqCmp.eq_of_compare hcmp))

/-- A reservation in a state that covers the log is a grant. -/
theorem Reserved.granted {st st' : VaultState} {issue : FixedBytes 32} {k count : UInt32}
    {proved : List ProveCall} (h : Reserved st st' issue k count)
    (hcovers : ∀ r ∈ proved, Covered st r) : Granted st' proved issue k count := by
  have hsucc := toNat_succ_of_lt h.below
  have hlt := UInt32.lt_iff_toNat_lt.1 h.below
  -- a logged counter of this issue is below the one reserved now
  have hfresh : ∀ r ∈ proved, r.issue = issue → r.counter < count ∧ r.k = k := by
    intro r hr hissue
    obtain ⟨e, he, hk, hcounter, -⟩ := hcovers r hr
    rw [hissue] at he
    obtain ⟨hek, hnext⟩ := h.old e he
    exact ⟨hnext ▸ hcounter, hk.symm.trans hek⟩
  refine ⟨?_, by rw [h.lookup, if_pos rfl], h.below, hfresh⟩
  intro r hr
  unfold Covered
  rw [h.lookup]
  by_cases hissue : issue = r.issue
  · obtain ⟨hcounter, hk⟩ := hfresh r hr hissue.symm
    rw [if_pos hissue]
    refine ⟨_, rfl, hk.symm, ?_, ?_⟩
    · rw [UInt32.lt_iff_toNat_lt, hsucc]
      exact Nat.lt_succ_of_lt (UInt32.lt_iff_toNat_lt.1 hcounter)
    · rw [UInt32.le_iff_toNat_le]
      simp only [hsucc]
      omega
  · rw [if_neg hissue]
    exact hcovers r hr

/-- Once it is proved, the granted counter is covered as well. -/
theorem Granted.covers_cons {st : VaultState} {proved : List ProveCall} {issue : FixedBytes 32}
    {k counter : UInt32} (h : Granted st proved issue k counter) (x : ℤ) :
    ∀ r ∈ (⟨issue, k, x, counter⟩ : ProveCall) :: proved, Covered st r := by
  have hsucc := toNat_succ_of_lt h.below
  have hlt := UInt32.lt_iff_toNat_lt.1 h.below
  intro r hr
  rcases List.mem_cons.1 hr with heq | hr
  · subst heq
    refine ⟨_, h.entry, rfl, ?_, ?_⟩
    · rw [UInt32.lt_iff_toNat_lt, hsucc]
      exact Nat.lt_succ_self _
    · rw [UInt32.le_iff_toNat_le]
      simp only [hsucc]
      omega
  · exact h.covers r hr

theorem UsedOnce.nil : UsedOnce [] := ⟨by simp, by simp, by simp⟩

/-- Proving with a granted counter repeats none. -/
theorem UsedOnce.cons {st : VaultState} {proved : List ProveCall} {issue : FixedBytes 32}
    {k counter : UInt32} (honce : UsedOnce proved) (h : Granted st proved issue k counter) (x : ℤ) :
    UsedOnce (⟨issue, k, x, counter⟩ :: proved) := by
  constructor
  · rw [List.map_cons, List.nodup_cons]
    refine ⟨?_, honce.distinct⟩
    intro hmem
    obtain ⟨r, hr, heq⟩ := List.mem_map.1 hmem
    obtain ⟨hissue, hcounter⟩ := Prod.mk.inj heq
    -- what is granted lies above every counter already used for the issue
    have hless := (h.fresh r hr hissue).1
    rw [hcounter] at hless
    exact absurd hless (UInt32.lt_irrefl counter)
  · intro r hr
    rcases List.mem_cons.1 hr with heq | hr
    · subst heq
      exact h.below
    · exact honce.below r hr
  · intro r hr r' hr' hissue
    rcases List.mem_cons.1 hr with heq | hr
    · subst heq
      rcases List.mem_cons.1 hr' with heq' | hr'
      · subst heq'
        rfl
      · exact (h.fresh r' hr' hissue.symm).2.symm
    · rcases List.mem_cons.1 hr' with heq' | hr'
      · subst heq'
        exact (h.fresh r hr hissue).2
      · exact honce.quota r hr r' hr' hissue

section Cipher

variable (aead : Aead) (v : SignerVault)

/-- The state in the contents of the file. -/
def stored (contents : Option (List UInt8)) : Option VaultState :=
  contents.bind fun raw => (v.readState aead raw).toOption

/-- The contents are past every proved counter. -/
def CoversAll (proved : List ProveCall) (contents : Option (List UInt8)) : Prop :=
  ∀ r ∈ proved, ∃ st, stored aead v contents = some st ∧ Covered st r

/-- What a call that reserves a counter knows in each of its phases. -/
def PhaseOk (file : FileEntry (List UInt8)) (proved : List ProveCall) (call : Call) : Prop :=
  match call.phase with
  | .writing st (some grant) => st.Valid ∧ GrantOk st proved grant call.task
  | .staged raw (some grant) =>
      ∃ st, stored aead v (some raw) = some st ∧ GrantOk st proved grant call.task
  | .installed (some grant) =>
      ∃ st, stored aead v file.volatile = some st ∧ GrantOk st proved grant call.task
  | .written (some grant) =>
      ∃ st, stored aead v file.volatile = some st ∧ stored aead v file.durable = some st ∧
        GrantOk st proved grant call.task
  | _ => True

/-- What holds in every reachable world. -/
structure Consistent (w : VaultWorld) : Prop where
  once : UsedOnce w.proved
  covered : w.file.Both (CoversAll aead v w.proved)
  holder : ∀ id call, w.calls id = some call → call.phase = .waiting ∨ w.lock = some id
  phases : ∀ id call, w.calls id = some call → PhaseOk aead v w.file w.proved call

variable {aead v}

theorem stored_eq_some {contents : Option (List UInt8)} {st : VaultState} :
    stored aead v contents = some st ↔
      ∃ raw, contents = some raw ∧ v.readState aead raw = .ok st := by
  unfold stored
  cases contents with
  | none => simp
  | some raw => cases h : v.readState aead raw <;> simp [Except.toOption, h]

theorem stored_of_load {w : VaultWorld} {st : VaultState} (hload : w.load aead v = .ok st) :
    stored aead v w.file.volatile = some st := by
  unfold VaultWorld.load at hload
  cases hfile : w.file.volatile with
  | none => simp [hfile] at hload
  | some raw =>
      simp only [hfile] at hload
      exact stored_eq_some.2 ⟨raw, rfl, hload⟩

theorem coversAll_of_stored {proved : List ProveCall} {contents : Option (List UInt8)}
    {st : VaultState} (hst : stored aead v contents = some st) :
    CoversAll aead v proved contents ↔ ∀ r ∈ proved, Covered st r := by
  constructor
  · intro h r hr
    obtain ⟨st', hst', hcov⟩ := h r hr
    rw [Option.some.inj (hst.symm.trans hst')]
    exact hcov
  · intro h r hr
    exact ⟨st, hst, h r hr⟩

/-- Without a file nothing has been proved. -/
theorem proved_nil_of_no_file {proved : List ProveCall} (h : CoversAll aead v proved none) :
    proved = [] := by
  cases proved with
  | nil => rfl
  | cons r rs =>
      obtain ⟨st, hst, -⟩ := h r List.mem_cons_self
      cases hst

theorem phaseOk_of_waiting {file : FileEntry (List UInt8)} {proved : List ProveCall} {call : Call}
    (h : call.phase = .waiting) : PhaseOk aead v file proved call := by
  simp [PhaseOk, h]

namespace Consistent

variable {w : VaultWorld} {id : ℕ} {call : Call}

theorem initial (file : FileEntry (List UInt8)) :
    Consistent aead v (VaultWorld.initial file) :=
  ⟨.nil, ⟨nofun, nofun⟩, nofun, nofun⟩

/-- While one call holds the lock every other call waits. -/
theorem others_wait (h : Consistent aead v w) (hlock : w.lock = some id) {id' : ℕ} {call' : Call}
    (hcall' : w.calls id' = some call') (hne : id' ≠ id) : call'.phase = .waiting := by
  rcases h.holder id' call' hcall' with hwait | hlock'
  · exact hwait
  · exact absurd (Option.some.inj (hlock'.symm.trans hlock)) hne

/-- A call that has left `lock` holds it. -/
theorem held (h : Consistent aead v w) (hcall : w.calls id = some call)
    (hphase : call.phase ≠ .waiting) : w.lock = some id :=
  (h.holder id call hcall).resolve_left hphase

/-- A step of the call that holds the lock. -/
theorem holder_step (h : Consistent aead v w) (hlock : w.lock = some id) {call' : Call}
    {file : FileEntry (List UInt8)} {proved : List ProveCall} (honce : UsedOnce proved)
    (hcovered : file.Both (CoversAll aead v proved)) (hphase : PhaseOk aead v file proved call') :
    Consistent aead v
      { w with file, proved, calls := Function.update w.calls id (some call') } := by
  refine ⟨honce, hcovered, ?_, ?_⟩
  · intro id' call'' hcall
    rcases update_calls hcall with ⟨hid, -⟩ | ⟨-, hold⟩
    · exact .inr (hid ▸ hlock)
    · exact h.holder id' call'' hold
  · intro id' call'' hcall
    rcases update_calls hcall with ⟨-, rfl⟩ | ⟨hid, hold⟩
    · exact hphase
    · exact phaseOk_of_waiting (h.others_wait hlock hold hid)

/-- A call returns, having left the file as it was or holding the lock. -/
theorem finish (h : Consistent aead v w) {file : FileEntry (List UInt8)}
    (hcovered : file.Both (CoversAll aead v w.proved)) (hfile : file = w.file ∨ w.lock = some id) :
    Consistent aead v { w.finish id with file } := by
  refine ⟨h.once, hcovered, ?_, ?_⟩
  · intro id' call' hcall
    obtain ⟨hid, hold⟩ := VaultWorld.finish_calls hcall
    rcases h.holder id' call' hold with hwait | hlock'
    · exact .inl hwait
    · right
      simp only [VaultWorld.finish, hlock', Option.some.injEq]
      rw [if_neg hid]
  · intro id' call' hcall
    obtain ⟨hid, hold⟩ := VaultWorld.finish_calls hcall
    rcases hfile with hsame | hlock
    · exact hsame ▸ h.phases id' call' hold
    · exact phaseOk_of_waiting (h.others_wait hlock hold hid)

/-- The holder moves on without touching the file or the log. -/
theorem setPhase (h : Consistent aead v w) (hlock : w.lock = some id) {phase : Phase}
    (hphase : PhaseOk aead v w.file w.proved { call with phase }) :
    Consistent aead v (w.setPhase id call phase) :=
  h.holder_step hlock h.once h.covered hphase

/-- A state loaded from the file covers the log. -/
theorem loaded (h : Consistent aead v w) {st : VaultState} (hload : w.load aead v = .ok st) :
    st.Valid ∧ ∀ r ∈ w.proved, Covered st r := by
  have hst := stored_of_load hload
  obtain ⟨raw, -, hread⟩ := stored_eq_some.1 hst
  exact ⟨readState_valid hread, (coversAll_of_stored hst).1 h.covered.1⟩

/-- Taking the lock. -/
theorem acquire (h : Consistent aead v w) (hfree : w.lock = none) :
    Consistent aead v { w.setPhase id call .locked with lock := some id } := by
  refine ⟨h.once, h.covered, ?_, ?_⟩
  · intro id' call' hcall'
    rcases update_calls hcall' with ⟨hid, -⟩ | ⟨-, hold⟩
    · exact .inr (congrArg some hid.symm)
    · rcases h.holder id' call' hold with hwait | hlock
      · exact .inl hwait
      · rw [hfree] at hlock
        cases hlock
  · intro id' call' hcall'
    rcases update_calls hcall' with ⟨-, rfl⟩ | ⟨-, hold⟩
    · simp [PhaseOk]
    · exact h.phases id' call' hold

/-- The staged bytes read back as the state that was sealed. -/
theorem stage (h : Consistent aead v w) (hcall : w.calls id = some call) {st : VaultState}
    {grant : Option (ℤ × UInt32)} (hphase : call.phase = .writing st grant) {nonce : FixedBytes 24}
    {raw : List UInt8} (hseal : v.sealState aead st nonce = .ok raw) :
    Consistent aead v (w.setPhase id call (.staged raw grant)) := by
  refine h.setPhase (h.held hcall (by simp [hphase])) ?_
  cases grant with
  | none => simp [PhaseOk]
  | some g =>
      have hok := h.phases id call hcall
      simp only [PhaseOk, hphase] at hok
      exact ⟨st, stored_eq_some.2 ⟨raw, rfl, readState_sealState hok.1 hseal⟩, hok.2⟩

/-- Contents that may take the file's place cover the log. -/
theorem replaced (h : Consistent aead v w) (hcall : w.calls id = some call) {raw : List UInt8}
    {grant : Option (ℤ × UInt32)} (hphase : call.phase = .staged raw grant)
    (hname : ¬ (grant = none ∧ w.file.volatile ≠ none)) :
    (w.file.replace raw).Both (CoversAll aead v w.proved) := by
  apply h.covered.replace
  cases grant with
  | none =>
      -- a new wallet gets its name only where there is no file, and then nothing was proved
      have hfile : w.file.volatile = none := by
        by_contra hne
        exact hname ⟨rfl, hne⟩
      have hnil : w.proved = [] := proved_nil_of_no_file (hfile ▸ h.covered.1)
      rw [hnil]
      exact nofun
  | some g =>
      have hok := h.phases id call hcall
      simp only [PhaseOk, hphase] at hok
      obtain ⟨st, hst, _, _, _, hgranted⟩ := hok
      exact (coversAll_of_stored hst).2 hgranted.covers

/-- The rename. -/
theorem install (h : Consistent aead v w) (hcall : w.calls id = some call) {raw : List UInt8}
    {grant : Option (ℤ × UInt32)} (hphase : call.phase = .staged raw grant)
    (hname : ¬ (grant = none ∧ w.file.volatile ≠ none)) :
    Consistent aead v { w.setPhase id call (.installed grant) with file := w.file.replace raw } := by
  refine h.holder_step (h.held hcall (by simp [hphase])) h.once (h.replaced hcall hphase hname) ?_
  cases grant with
  | none => simp [PhaseOk]
  | some g =>
      have hok := h.phases id call hcall
      simp only [PhaseOk, hphase] at hok ⊢
      exact hok

theorem sync (h : Consistent aead v w) (hcall : w.calls id = some call)
    {grant : Option (ℤ × UInt32)} (hphase : call.phase = .installed grant) :
    Consistent aead v { w.setPhase id call (.written grant) with file := w.file.sync } := by
  refine h.holder_step (h.held hcall (by simp [hphase])) h.once h.covered.sync ?_
  cases grant with
  | none => simp [PhaseOk]
  | some g =>
      have hok := h.phases id call hcall
      simp only [PhaseOk, hphase] at hok ⊢
      obtain ⟨st, hst, hgrant⟩ := hok
      exact ⟨st, hst, hst, hgrant⟩

/-- The file covers the granted counter before `prove` is called with it. -/
theorem proves (h : Consistent aead v w) (hcall : w.calls id = some call) {issue : FixedBytes 32}
    {k : UInt32} (htask : call.task = .reserveAndProve issue k) {x : ℤ} {counter : UInt32}
    (hphase : call.phase = .written (some (x, counter))) :
    Consistent aead v
      { w.setPhase id call .proving with proved := ⟨issue, k, x, counter⟩ :: w.proved } := by
  have hok := h.phases id call hcall
  simp only [PhaseOk, hphase] at hok
  obtain ⟨st, hvolatile, hdurable, issue', k', htask', hgranted⟩ := hok
  obtain ⟨rfl, rfl⟩ : issue = issue' ∧ k = k' := by simpa [htask] using htask'
  refine h.holder_step (h.held hcall (by simp [hphase])) (h.once.cons hgranted x) ⟨?_, ?_⟩
    (by simp [PhaseOk])
  · exact (coversAll_of_stored hvolatile).2 (hgranted.covers_cons x)
  · exact (coversAll_of_stored hdurable).2 (hgranted.covers_cons x)

theorem start (h : Consistent aead v w) (process : ℕ) (task : Task) :
    Consistent aead v
      { w with calls := Function.update w.calls id (some ⟨process, task, .waiting⟩) } := by
  refine ⟨h.once, h.covered, ?_, ?_⟩
  · intro id' call' hcall
    rcases update_calls hcall with ⟨-, rfl⟩ | ⟨-, hold⟩
    · exact .inl rfl
    · exact h.holder id' call' hold
  · intro id' call' hcall
    rcases update_calls hcall with ⟨-, rfl⟩ | ⟨-, hold⟩
    · exact phaseOk_of_waiting rfl
    · exact h.phases id' call' hold

/-- The system makes the entry durable on its own. -/
theorem writeBack (h : Consistent aead v w) : Consistent aead v { w with file := w.file.sync } := by
  refine ⟨h.once, h.covered.sync, h.holder, ?_⟩
  intro id' call' hcall
  have hok := h.phases id' call' hcall
  unfold PhaseOk at hok ⊢
  split at hok
  · exact hok
  · exact hok
  · exact hok
  · obtain ⟨st, hst, -, hgrant⟩ := hok
    exact ⟨st, hst, hst, hgrant⟩
  · trivial

/-- A process crash leaves the file as it is. -/
theorem crash (h : Consistent aead v w) (process : ℕ) : Consistent aead v (w.crash process) := by
  refine ⟨h.once, h.covered, ?_, ?_⟩
  · intro id' call' hcall
    obtain ⟨hold, hprocess⟩ := VaultWorld.crash_calls hcall
    rcases h.holder id' call' hold with hwait | hlock
    · exact .inl hwait
    · right
      simp [VaultWorld.crash, hlock, hold, hprocess, Option.filter_eq_some_iff]
  · intro id' call' hcall
    exact h.phases id' call' (VaultWorld.crash_calls hcall).1

/-- Every move keeps a world consistent. -/
theorem move (h : Consistent aead v w) {w' : VaultWorld} (hmove : VaultMove aead v w w') :
    Consistent aead v w' := by
  cases hmove with
  | stay => exact h
  | start id process task => exact h.start process task
  | finish id => exact h.finish h.covered (.inl rfl)
  | acquire id call hcall hfree => exact h.acquire hfree
  | create id call hcall hphase x htask =>
      exact h.setPhase (h.held hcall (by simp [hphase])) (by simp [PhaseOk])
  | reserve id call hcall hphase issue k htask st st' x count hload hreserve =>
      obtain ⟨hvalid, hcovers⟩ := h.loaded hload
      have hreserved := reserve_eq_ok hreserve
      refine h.setPhase (h.held hcall (by simp [hphase])) ?_
      exact ⟨hvalid.reserve hreserved, issue, k, htask, hreserved.granted hcovers⟩
  | stage id call hcall st grant hphase nonce raw hseal => exact h.stage hcall hphase hseal
  | install id call hcall raw grant hphase hname => exact h.install hcall hphase hname
  | installUnseen id call hcall raw grant hphase hname =>
      exact h.finish (h.replaced hcall hphase hname) (.inr (h.held hcall (by simp [hphase])))
  | sync id call hcall grant hphase => exact h.sync hcall hphase
  | prove id call hcall issue k htask x counter hphase => exact h.proves hcall htask hphase
  | writeBack => exact h.writeBack
  | crash process => exact h.crash process
  | powerLoss => exact ⟨h.once, h.covered.powerLoss, nofun, nofun⟩

theorem after (file : FileEntry (List UInt8)) (events : List VaultEvent) :
    Consistent aead v (run (VaultWorld.step aead v) (VaultWorld.initial file) events) :=
  run_of_moves (fun _ _ h hmove => h.move hmove) (.initial file) events

end Consistent

/-- **No counter is handed out twice.** Whatever the calls, their interleaving, the failures, the
crashes and the power losses: per issue the counters passed to `prove` are pairwise distinct, each
is below the quota of its call, all calls of an issue use one quota, and in the contents of the
file, now and after a power loss, every entry satisfies `Next ≤ K` and the entry of an issue is
past every counter that was passed to `prove`. -/
theorem vault_counters_used_once (aead : Aead) (v : SignerVault) (file : FileEntry (List UInt8))
    (events : List VaultEvent) :
    let w := run (VaultWorld.step aead v) (VaultWorld.initial file) events
    (w.proved.map fun r => (r.issue, r.counter)).Nodup ∧
      (∀ r ∈ w.proved, r.counter < r.k) ∧
      (∀ r ∈ w.proved, ∀ r' ∈ w.proved, r.issue = r'.issue → r.k = r'.k) ∧
      w.file.Both (fun contents => ∀ st, stored aead v contents = some st →
        ∀ (label : String) (e : VaultCounter), st.counters[label]? = some e → e.next ≤ e.k) ∧
      w.file.Both (fun contents => ∀ r ∈ w.proved, ∃ st, stored aead v contents = some st ∧
        ∃ e, st.counters[hexDigest r.issue]? = some e ∧ e.k = r.k ∧ r.counter < e.next) := by
  intro w
  have hinv : Consistent aead v w := .after file events
  have hvalid (contents : Option (List UInt8)) (st : VaultState)
      (hst : stored aead v contents = some st) (label : String) (e : VaultCounter)
      (he : st.counters[label]? = some e) : e.next ≤ e.k := by
    obtain ⟨raw, -, hread⟩ := stored_eq_some.1 hst
    exact ((readState_valid hread).entries label e he).2.2
  refine ⟨hinv.once.distinct, hinv.once.below, hinv.once.quota, ⟨hvalid _, hvalid _⟩, ?_⟩
  apply hinv.covered.imp
  intro contents hcovers r hr
  obtain ⟨st, hst, e, he, hk, hcounter, -⟩ := hcovers r hr
  exact ⟨st, hst, e, he, hk, hcounter⟩

end Cipher

/-- The cipher that hides nothing: the laws of `Aead` can be met. -/
def plainAead : Aead where
  sealBytes _ _ plain _ := plain ++ List.replicate 16 0
  openBytes _ _ sealed _ := some (sealed.take (sealed.length - 16))
  open_seal _ _ plain _ := by simp
  length_seal _ _ plain _ := by simp

def sampleVault : SignerVault := ⟨"wallet", FixedBytes.ofNat 32 5, List.replicate 32 1⟩

/-- A wallet is created and a counter is reserved in it. -/
def sampleVaultEvents : List VaultEvent :=
  let next (id : ℕ) : VaultEvent := .step id .success (FixedBytes.ofNat 24 9)
  [.start 0 0 (.create 3), next 0, next 0, next 0, next 0, next 0, next 0,
    .start 1 1 (.reserveAndProve (FixedBytes.ofNat 32 7) 2), next 1, next 1, next 1, next 1, next 1,
    next 1]

set_option maxRecDepth 10000 in
example : ((run (VaultWorld.step plainAead sampleVault) (.initial ⟨none, none⟩)
    sampleVaultEvents).proved.map ProveCall.counter) = [0] := by
  decide +kernel

end Lktrs.NativeProof
