import Lktrs.NativeProof.ExponentModel
import Lktrs.NativeProof.ServiceChecks
import Lktrs.NativeProof.ServiceSteps
import Lktrs.Foundation.Runs

/-!
# Runs of the service, and its ledger

A run is a list of requests, loaded setups and restarts. It is recorded which
decoded requests were answered and how, and which signatures were released.

Ledgers are ordered by extension: a quota stays as it was pinned, and nothing
revoked or consumed is forgotten. Every change of the service extends its
ledger, and a request answered without an error is recorded in the ledger that
was persisted for it. Hence the file always holds a ledger that the next start
accepts and that records every acknowledged request
(`ledger_survives_restarts`), and no envelope is accepted twice
(`envelope_accepted_once`).
-/

set_option autoImplicit false

namespace Lktrs.NativeProof

open Lktrs.Foundation
open Std (ExtTreeMap ExtTreeSet)

/-! ## The order of ledgers -/

instance : LE Ledger where
  le l l' :=
    (∀ (issue : FixedBytes 32) (k : UInt32), l.policies[issue]? = some k →
      l'.policies[issue]? = some k) ∧
    (∀ user ∈ l.revoked, user ∈ l'.revoked) ∧ ∀ digest ∈ l.seen, digest ∈ l'.seen

instance : Preorder Ledger where
  le_refl _ := ⟨fun _ _ h => h, fun _ h => h, fun _ h => h⟩
  le_trans _ _ _ h h' :=
    ⟨fun issue k hk => h'.1 issue k (h.1 issue k hk), fun user hu => h'.2.1 user (h.2.1 user hu),
      fun digest hd => h'.2.2 digest (h.2.2 digest hd)⟩

/-- What an acknowledged request has left in the ledger. -/
def Ledger.Records (l : Ledger) (q : Request) : Prop :=
  match operationOf q.op with
  | .sign => ∃ issue, decodeIssue q.issue = .ok issue ∧ l.policies[issue]? = some q.k
  | .revokeUser => q.user ∈ l.revoked
  | .verify => ∃ enc, decodeB64 q.signature = .ok enc ∧ sha256 enc ∈ l.seen
  | _ => True

theorem Ledger.Records.mono {l l' : Ledger} {q : Request} (hle : l ≤ l') (h : l.Records q) :
    l'.Records q := by
  unfold Ledger.Records at h ⊢
  split at h
  · obtain ⟨issue, hissue, hk⟩ := h
    exact ⟨issue, hissue, hle.1 issue _ hk⟩
  · exact hle.2.1 _ h
  · obtain ⟨enc, henc, hseen⟩ := h
    exact ⟨enc, henc, hle.2.2 _ hseen⟩
  · trivial

theorem Ledger.records_of_readOnly {l : Ledger} {q : Request}
    (h : (operationOf q.op).readOnly = true) : l.Records q := by
  unfold Ledger.Records
  cases hop : operationOf q.op with
  | sign => simp [hop, Operation.readOnly] at h
  | revokeUser => simp [hop, Operation.readOnly] at h
  | verify => simp [hop, Operation.readOnly] at h
  | _ => trivial

/-! ## What a change does to the ledger -/

section Changes

variable {lib : GnarkCrypto} {zk : Groth16} {s s' : Service zk} {q : Request} {c : Choices}

@[simp] theorem Service.addUser_toLedger (user : String) (signer : Option Signer) :
    (s.addUser user signer).toLedger = s.toLedger := by
  cases signer <;> rfl

theorem Service.sign_issue {e : SignEffect} (h : s.sign lib q c = .ok e) :
    decodeIssue q.issue = .ok e.issue ∧ s.policy e.issue q.k true = .ok () := by
  obtain ⟨r, _, _, _, hr, _, _, _, _, _, hissue, _⟩ := Service.sign_eq_ok.1 h
  obtain ⟨hdecode, _, hpolicy, _⟩ := Service.signedRequest_eq_ok.1 hr
  exact ⟨hissue ▸ hdecode, hissue ▸ hpolicy⟩

/-- Pinning a quota that passed `policy` changes no pin. -/
theorem Service.le_pin {issue : FixedBytes 32} {k : UInt32}
    (h : s.policy issue k true = .ok ()) : s.toLedger ≤ (s.pin issue k).toLedger := by
  refine ⟨?_, fun _ h => h, fun _ h => h⟩
  intro other old hold
  by_cases heq : issue = other
  · subst heq
    have hk : s.policies[issue]? = some k := by
      rcases (Service.policy_eq_ok.1 h).2 with hk | ⟨hnone, _⟩
      · exact hk
      · rw [hold] at hnone
        cases hnone
    obtain rfl : old = k := Option.some.inj (hold.symm.trans hk)
    simp [Service.pin]
  · rw [← hold]
    exact getElem?_insert_of_ne heq

theorem Commit.ledger_le (h : Commit lib s q c s') : s.toLedger ≤ s'.toLedger := by
  cases h with
  | setup hop hprover hsetup hbackend => exact le_refl _
  | keygen hop hkey => exact (Service.addUser_toLedger _ _).ge
  | join hop hprover hcheck => exact le_refl _
  | exit hop hcheck => exact le_refl _
  | revokeUser hop huser =>
      exact ⟨fun _ _ h => h, fun _ h => mem_set_insert.2 (.inr h), fun _ h => h⟩
  | sign hop hsign hmarshal => exact Service.le_pin (Service.sign_issue hsign).2
  | verify hop hverify =>
      exact ⟨fun _ _ h => h, fun _ h => h, fun _ h => mem_set_insert.2 (.inr h)⟩

theorem Change.ledger_le (h : Change lib s q c s') : s.toLedger ≤ s'.toLedger := by
  cases h with
  | commit h => exact h.ledger_le
  | user hkey => exact (Service.addUser_toLedger _ _).ge
  | signer hsign => exact le_refl _

/-- A change that is persisted records its request. -/
theorem Commit.records (h : Commit lib s q c s') : s'.toLedger.Records q := by
  unfold Ledger.Records
  cases h with
  | setup hop hprover hsetup hbackend => simp [hop]
  | keygen hop hkey => simp [hop]
  | join hop hprover hcheck => simp [hop]
  | exit hop hcheck => simp [hop]
  | revokeUser hop huser => simp [hop, Service.revokeUser]
  | sign hop hsign hmarshal =>
      simp only [hop]
      exact ⟨_, (Service.sign_issue hsign).1, by simp [Service.pin]⟩
  | verify hop hverify =>
      simp only [hop]
      obtain ⟨_, enc, _, _, _, henc, _, _, _, _, rfl⟩ := Service.verify_eq_ok.1 hverify
      exact ⟨enc, henc, by simp [Service.consume]⟩

/-- The ledger can be read back, and no known user has a blank name. -/
structure Service.LedgerOk (s : Service zk) : Prop where
  valid : s.toLedger.Valid
  user_nonblank : ∀ (user : String) (signer : Signer), s.users[user]? = some signer →
    isBlank user = false

theorem Service.LedgerOk.addUser {a : Account} {signer : Option Signer} (h : s.LedgerOk)
    (hkey : s.keygen lib q c = .ok (a, signer)) : (s.addUser q.user signer).LedgerOk := by
  refine ⟨(Service.addUser_toLedger _ _).symm ▸ h.valid, ?_⟩
  intro user found hfound
  cases signer with
  | none => exact h.user_nonblank user found hfound
  | some new =>
      by_cases heq : q.user = user
      · exact heq ▸ (Service.keygen_eq_ok.1 hkey).1.1
      · exact h.user_nonblank user found ((getElem?_insert_of_ne heq).symm.trans hfound)

/-- The owner of an account that signed was known before. -/
theorem Service.LedgerOk.advanceSigner {e : SignEffect} (h : s.LedgerOk)
    (hsign : s.sign lib q c = .ok e) : (s.advanceSigner e).LedgerOk := by
  refine ⟨h.valid, ?_⟩
  intro user found hfound
  by_cases heq : e.owner = user
  · obtain ⟨_, _, _, signer, _, _, _, _, hsigner, _, _, howner⟩ := Service.sign_eq_ok.1 hsign
    exact h.user_nonblank user signer (heq ▸ howner ▸ hsigner)
  · exact h.user_nonblank user found ((getElem?_insert_of_ne heq).symm.trans hfound)

theorem Service.LedgerOk.pin {issue : FixedBytes 32} {k : UInt32} (h : s.LedgerOk) (hk : k ≠ 0) :
    (s.pin issue k).LedgerOk := by
  refine ⟨⟨?_, h.valid.revoked_nonblank⟩, h.user_nonblank⟩
  intro other quota hquota
  by_cases heq : issue = other
  · subst heq
    have : k = quota := by simpa [Service.pin] using hquota
    exact this ▸ hk
  · exact h.valid.quota_ne_zero other quota ((getElem?_insert_of_ne heq).symm.trans hquota)

theorem Service.LedgerOk.revokeUser {user : String} (h : s.LedgerOk)
    (huser : s.users[user]?.isSome = true) : (s.revokeUser user).LedgerOk := by
  refine ⟨⟨h.valid.quota_ne_zero, ?_⟩, h.user_nonblank⟩
  intro other hother
  rcases mem_set_insert.1 hother with rfl | hold
  · obtain ⟨signer, hsigner⟩ := Option.isSome_iff_exists.1 huser
    exact h.user_nonblank other signer hsigner
  · exact h.valid.revoked_nonblank other hold

theorem Service.LedgerOk.change (h : s.LedgerOk) (hchange : Change lib s q c s') :
    s'.LedgerOk := by
  cases hchange with
  | user hkey => exact h.addUser hkey
  | signer hsign => exact h.advanceSigner hsign
  | commit hcommit =>
      cases hcommit with
      | setup hop hprover hsetup hbackend => exact ⟨h.valid, h.user_nonblank⟩
      | keygen hop hkey => exact ⟨(h.addUser hkey).valid, (h.addUser hkey).user_nonblank⟩
      | join hop hprover hcheck => exact ⟨h.valid, h.user_nonblank⟩
      | exit hop hcheck => exact ⟨h.valid, h.user_nonblank⟩
      | revokeUser hop huser => exact h.revokeUser huser
      | sign hop hsign hmarshal =>
          apply (h.advanceSigner hsign).pin
          exact (Service.policy_eq_ok.1 (Service.sign_issue hsign).2).1
      | verify hop hverify => exact ⟨⟨h.valid.quota_ne_zero, h.valid.revoked_nonblank⟩,
          h.user_nonblank⟩

end Changes

/-! ## Runs -/

/-- The path of a service that was started: none, or one `NewPersistentService` accepts, with the
file that is there at the first start. -/
structure StatePath where
  text : String
  startable : text = "" ∨ isBlank text = false
  file : Option (List Char)
  readable : ∃ l, loadState file = .ok l

/-- A released signature: the process and the user it was made by, the secret and the counter of
the user's signer at that moment, the issue and quota, and the envelope in the response. -/
structure Release where
  process : ℕ
  owner : String
  secret : ℤ
  issue : FixedBytes 32
  k : UInt32
  counter : UInt32
  signed : Signed
  envelope : String

/-- A machine with what happened so far, latest first. -/
structure World (zk : Groth16) where
  machine : Machine zk
  /-- The error of a start that was refused; then nothing is served. -/
  refused : Option String
  /-- The number of the running process. -/
  process : ℕ
  /-- The decoded requests with their responses. -/
  answers : List (Request × Response)
  releases : List Release

variable (lib : GnarkCrypto) {zk : Groth16}

inductive ServiceEvent (zk : Groth16) where
  | request (raw : List UInt8) (c : Choices)
  | loadSetup (loaded : Except String (LoadedSetup lib zk))
  | restart

/-- The signature a request released, if its response says so. -/
def World.release (w : World zk) (q : Request) (c : Choices) (r : Response) : List Release :=
  if operationOf q.op = .sign ∧ r.ok = true then
    match w.machine.service.sign lib q c with
    | .error _ => []
    | .ok e =>
        (w.machine.service.users[e.owner]?.map fun signer =>
          { process := w.process, owner := e.owner, secret := signer.x, issue := e.issue, k := q.k
            counter := signer.nextCounter e.issue, signed := e.signed
            envelope := r.signature }).toList
  else []

/-- Stop the process and start another one on the same file; a service without a state path is
not restarted. -/
def World.restart (w : World zk) : World zk :=
  if w.machine.service.statePath = "" then w
  else
    match newPersistentService zk w.machine.service.statePath w.machine.file with
    | .error e => { w with refused := some e }
    | .ok s =>
        { w with
          machine := { w.machine with service := s }, refused := none, process := w.process + 1 }

def World.serve (w : World zk) (raw : List UInt8) (c : Choices) : World zk :=
  let (response, machine) := w.machine.handle lib raw c
  match decodeRequest raw with
  | .error _ => { w with machine }
  | .ok q =>
      { w with
        machine
        answers := (q, response) :: w.answers
        releases := w.release lib q c response ++ w.releases }

def World.step (w : World zk) : ServiceEvent lib zk → World zk
  | .restart => w.restart
  | .request raw c => if w.refused.isSome then w else w.serve lib raw c
  | .loadSetup loaded =>
      if w.refused.isSome then w
      else
        match w.machine.service.loadSetup lib loaded with
        | .error _ => w
        | .ok s => { w with machine := { w.machine with service := s } }

/-- A world before anything was started. -/
def World.idle (zk : Groth16) (path : StatePath) : World zk where
  machine := ⟨newService zk path.text, path.file, []⟩
  refused := none
  process := 0
  answers := []
  releases := []

/-- The first start, on the file that is there. -/
def World.start (zk : Groth16) (path : StatePath) : World zk :=
  (World.idle zk path).restart

/-- The acknowledged requests of a run. -/
def World.acked (w : World zk) : List Request := (w.answers.filter (·.2.ok)).map (·.1)

theorem World.mem_acked {w : World zk} {q : Request} :
    q ∈ w.acked ↔ ∃ r, (q, r) ∈ w.answers ∧ r.ok = true := by
  simp [World.acked]

variable {lib}

theorem Service.loadSetup_eq_ok {s s' : Service zk} {loaded : Except String (LoadedSetup lib zk)} :
    s.loadSetup lib loaded = .ok s' ↔ s.prover = none ∧ ∃ l, loaded = .ok l ∧
      s' = { s with
        params := l.parameters, prover := some l.prover, verifier := some l.verifier } := by
  simp only [Service.loadSetup, bind_eq_ok, rejectIf_eq_ok, pure_eq_ok, Bool.not_eq_true,
    Option.isSome_eq_false_iff, Option.isNone_iff_eq_none]
  constructor
  · rintro ⟨_, hnone, l, hl, rfl⟩
    exact ⟨hnone, l, hl, rfl⟩
  · rintro ⟨hnone, l, hl, rfl⟩
    exact ⟨(), hnone, l, hl, rfl⟩

theorem newPersistentService_eq_ok {path : String} {file : Option (List Char)} {s : Service zk} :
    newPersistentService zk path file = .ok s ↔
      isBlank path = false ∧ ∃ l, loadState file = .ok l ∧
        s = { newService zk path with toLedger := l } := by
  simp only [newPersistentService, bind_eq_ok, rejectIf_eq_ok, pure_eq_ok, Bool.not_eq_true]
  constructor
  · rintro ⟨_, hblank, l, hl, rfl⟩
    exact ⟨hblank, l, hl, rfl⟩
  · rintro ⟨hblank, l, hl, rfl⟩
    exact ⟨(), hblank, l, hl, rfl⟩

@[simp] theorem Outcome.response_ok (o : Outcome zk) : o.response.ok = true ↔ o.err = none := by
  unfold Outcome.response
  cases o.err <;> simp

@[simp] theorem Outcome.response_verified (o : Outcome zk) :
    o.response.verified = o.out.verified := by
  unfold Outcome.response
  cases o.err <;> rfl

@[simp] theorem Outcome.response_signature (o : Outcome zk) :
    o.response.signature = o.out.signature := by
  unfold Outcome.response
  cases o.err <;> rfl

/-- What one event does: nothing, a start that is refused or accepted, a request that is run and
answered, or a setup that is loaded. -/
inductive WorldStep (lib : GnarkCrypto) (w : World zk) : World zk → Prop where
  | same : WorldStep lib w w
  | refuse {e : String} (hpath : w.machine.service.statePath ≠ "")
      (hstart : newPersistentService zk w.machine.service.statePath w.machine.file = .error e) :
      WorldStep lib w { w with refused := some e }
  | restart {l : Ledger} (hpath : w.machine.service.statePath ≠ "")
      (hload : loadState w.machine.file = .ok l) :
      WorldStep lib w
        { w with
          machine :=
            { w.machine with
              service := { newService zk w.machine.service.statePath with toLedger := l } }
          refused := none, process := w.process + 1 }
  | answer (q : Request) (c : Choices) :
      WorldStep lib w
        { w with
          machine := (w.machine.run lib q c).machine
          answers := (q, (w.machine.run lib q c).response) :: w.answers
          releases := w.release lib q c (w.machine.run lib q c).response ++ w.releases }
  | loadSetup {loaded : Except String (LoadedSetup lib zk)} {s : Service zk}
      (hload : w.machine.service.loadSetup lib loaded = .ok s) :
      WorldStep lib w { w with machine := { w.machine with service := s } }

theorem World.restart_step (w : World zk) : WorldStep lib w w.restart := by
  unfold World.restart
  split
  · exact .same
  · rename_i hpath
    cases hstart : newPersistentService zk w.machine.service.statePath w.machine.file with
    | error e => exact .refuse hpath hstart
    | ok s =>
        obtain ⟨_, l, hload, rfl⟩ := newPersistentService_eq_ok.1 hstart
        exact .restart hpath hload

theorem World.serve_step (w : World zk) (raw : List UInt8) (c : Choices) :
    WorldStep lib w (w.serve lib raw c) := by
  unfold World.serve Machine.handle
  cases hq : decodeRequest raw with
  | error e => exact .same
  | ok q => exact .answer q c

theorem World.step_spec (w : World zk) (e : ServiceEvent lib zk) :
    WorldStep lib w (w.step lib e) := by
  cases e with
  | restart => exact w.restart_step
  | request raw c =>
      rw [World.step]
      split
      · exact .same
      · exact w.serve_step raw c
  | loadSetup loaded =>
      rw [World.step]
      split
      · exact .same
      · cases hload : w.machine.service.loadSetup lib loaded with
        | error e => exact .same
        | ok s => exact .loadSetup hload

/-- The world after a run from the first start. -/
def World.after (path : StatePath) (events : List (ServiceEvent lib zk)) : World zk :=
  run (World.step lib) (World.start zk path) events

theorem World.after_append (path : StatePath) (events more : List (ServiceEvent lib zk)) :
    World.after path (events ++ more) = run (World.step lib) (World.after path events) more :=
  run_append _ _ _

/-- What every event preserves holds along every run. -/
theorem World.after_invariant (Inv : World zk → Prop) {path : StatePath}
    (hidle : Inv (World.idle zk path)) (hstep : ∀ w w', WorldStep lib w w' → Inv w → Inv w')
    (events : List (ServiceEvent lib zk)) : Inv (World.after path events) := by
  apply run_invariant Inv (fun w e h => hstep w _ (w.step_spec e) h)
  exact hstep _ _ (World.restart_step _) hidle

/-! ## The file -/

/-- With a state path, the file is accepted by the next start and records the requests `acks`; after
a write that succeeded it holds what was written. -/
structure Machine.Holds (m : Machine zk) (acks : List Request) : Prop where
  file : m.service.statePath ≠ "" → ∃ l, loadState m.file = .ok l ∧ ∀ q ∈ acks, l.Records q
  write : ∀ l rest, m.writes = (l, .success) :: rest → loadState m.file = .ok l

/-- Only the path, the file and the writes matter. -/
theorem Machine.Holds.congr {m m' : Machine zk} {acks : List Request} (h : m.Holds acks)
    (hpath : m'.service.statePath = m.service.statePath) (hfile : m'.file = m.file)
    (hwrites : m'.writes = m.writes) : m'.Holds acks := by
  obtain ⟨service, file, writes⟩ := m
  obtain ⟨service', file', writes'⟩ := m'
  dsimp only at hpath hfile hwrites
  subst hfile hwrites
  exact ⟨fun h' => h.file (hpath ▸ h'), h.write⟩

/-- Persisting a ledger that records `acks'` keeps what the file holds, and adds the new requests
when no error is returned. -/
theorem Machine.Holds.commitTo {m : Machine zk} {acks acks' : List Request} (h : m.Holds acks)
    {s : Service zk} {r : PersistResult} (hpath : s.statePath = m.service.statePath)
    (hvalid : s.toLedger.Valid) (hrecords : ∀ q ∈ acks', s.toLedger.Records q)
    (hacks : acks' = acks ∨ (m.commitTo s r).1 = none) : (m.commitTo s r).2.Holds acks' := by
  by_cases hempty : s.statePath = ""
  · -- nothing is written
    rw [Machine.commitTo, Machine.persistState_of_no_path hempty]
    exact ⟨fun hne => absurd hempty hne, h.write⟩
  · have hwritten : loadState (some s.toLedger.text) = .ok s.toLedger := loadState_text hvalid
    rw [Machine.commitTo, Machine.persistState_of_path hempty] at hacks ⊢
    cases r with
    | success =>
        refine ⟨fun _ => ⟨s.toLedger, hwritten, hrecords⟩, ?_⟩
        intro l rest hrest
        simp only [List.cons.injEq, Prod.mk.injEq] at hrest
        obtain ⟨⟨rfl, _⟩, _⟩ := hrest
        exact hwritten
    | failure text replaced =>
        refine ⟨fun _ => ?_, fun l rest hrest => by simp at hrest⟩
        cases replaced with
        | true => exact ⟨s.toLedger, hwritten, hrecords⟩
        | false =>
            -- the old contents stay, and so does what they recorded
            have hsame : acks' = acks := by simpa [PersistResult.error] using hacks
            subst hsame
            exact h.file (hpath ▸ hempty)

/-! ## The ledger along runs -/

/-- Memory and file record every acknowledged request. -/
structure World.LedgerInv (path : StatePath) (w : World zk) : Prop where
  running : w.refused = none
  path_eq : w.machine.service.statePath = path.text
  ok : w.machine.service.LedgerOk
  memory : ∀ q ∈ w.acked, w.machine.service.toLedger.Records q
  holds : w.machine.Holds w.acked

@[simp] theorem Service.addUser_statePath (s : Service zk) (user : String)
    (signer : Option Signer) : (s.addUser user signer).statePath = s.statePath := by
  cases signer <;> rfl

theorem Commit.statePath_eq {s s' : Service zk} {q : Request} {c : Choices}
    (h : Commit lib s q c s') : s'.statePath = s.statePath := by
  cases h with
  | keygen hop hkey => exact Service.addUser_statePath _ _ _
  | _ => rfl

theorem World.acked_cons_ok (w : World zk) (m : Machine zk) (q : Request) (releases : List Release)
    {r : Response} (h : r.ok = true) :
    World.acked { w with machine := m, answers := (q, r) :: w.answers, releases := releases } =
      q :: w.acked := by
  simp [World.acked, h]

theorem World.acked_cons_error (w : World zk) (m : Machine zk) (q : Request) (releases : List Release)
    {r : Response} (h : ¬ r.ok = true) :
    World.acked { w with machine := m, answers := (q, r) :: w.answers, releases := releases } =
      w.acked := by
  simp [World.acked, h]

theorem Service.LedgerOk.commit {s s' : Service zk} {q : Request} {c : Choices} (h : s.LedgerOk)
    (hcommit : Commit lib s q c s') : s'.LedgerOk :=
  h.change (.commit hcommit)

/-- A request that fails is recorded nowhere: it is enough that the machine keeps the invariant. -/
theorem World.LedgerInv.failed {path : StatePath} {w : World zk} (h : w.LedgerInv path)
    {m : Machine zk} {q : Request} {r : Response} {releases : List Release} (hr : ¬ r.ok = true)
    (hok : m.service.LedgerOk) (hpath : m.service.statePath = w.machine.service.statePath)
    (hle : w.machine.service.toLedger ≤ m.service.toLedger) (hholds : m.Holds w.acked) :
    World.LedgerInv path
      { w with machine := m, answers := (q, r) :: w.answers, releases := releases } := by
  have hacked := World.acked_cons_error w m q releases hr
  refine ⟨h.running, hpath.trans h.path_eq, hok, ?_, ?_⟩
  · intro q' hq'
    rw [hacked] at hq'
    exact (h.memory q' hq').mono hle
  · rw [hacked]
    exact hholds

theorem World.LedgerInv.answer {path : StatePath} {w : World zk} (h : w.LedgerInv path)
    {q : Request} {c : Choices} {o : Outcome zk} (hstep : RunStep lib w.machine q c o)
    (releases : List Release) :
    World.LedgerInv path
      { w with
        machine := o.machine, answers := (q, o.response) :: w.answers, releases := releases } := by
  cases hstep with
  | still herr =>
      rename_i out err
      by_cases hr : (⟨out, err, w.machine⟩ : Outcome zk).response.ok = true
      · have hrecords (l : Ledger) : l.Records q :=
          Ledger.records_of_readOnly (herr ((Outcome.response_ok _).1 hr))
        have hacked := World.acked_cons_ok w w.machine q releases hr
        refine ⟨h.running, h.path_eq, h.ok, ?_, ⟨?_, h.holds.write⟩⟩
        · rw [hacked]
          exact List.forall_mem_cons.2 ⟨hrecords _, h.memory⟩
        · intro hpath
          obtain ⟨l, hl, hold⟩ := h.holds.file hpath
          rw [hacked]
          exact ⟨l, hl, List.forall_mem_cons.2 ⟨hrecords l, hold⟩⟩
      · exact h.failed hr h.ok rfl (le_refl _) h.holds
  | commit hcommit hundo herr hmachine =>
      rename_i s
      have hok : s.LedgerOk := h.ok.commit hcommit
      have hmem : ∀ q' ∈ w.acked, s.toLedger.Records q' :=
        fun q' hq' => (h.memory q' hq').mono hcommit.ledger_le
      have hservice : o.machine.service = s := by rw [hmachine, Machine.commitTo_service]
      by_cases hr : o.response.ok = true
      · -- the error of the write is the error of the request, so the file has the new ledger
        have hnone := herr.1 ((Outcome.response_ok o).1 hr)
        have hmem' : ∀ q' ∈ q :: w.acked, s.toLedger.Records q' :=
          List.forall_mem_cons.2 ⟨hcommit.records, hmem⟩
        have hacked := World.acked_cons_ok w o.machine q releases hr
        refine ⟨h.running, ?_, hservice ▸ hok, ?_, ?_⟩
        · exact hservice ▸ hcommit.statePath_eq.trans h.path_eq
        · rw [hacked]
          exact hservice ▸ hmem'
        · rw [hacked]
          exact hmachine ▸ h.holds.commitTo hcommit.statePath_eq hok.valid hmem' (.inr hnone)
      · apply h.failed hr (hservice ▸ hok)
        · rw [hservice, hcommit.statePath_eq]
        · rw [hservice]
          exact hcommit.ledger_le
        · rw [hmachine]
          exact h.holds.commitTo hcommit.statePath_eq hok.valid hmem (.inl rfl)
  | keygenUndone hop hkey herr =>
      have hcommit : Commit lib w.machine.service q c _ := .keygen hop hkey
      have hok := h.ok.addUser hkey
      have hholds := h.holds.commitTo (r := c.persist) hcommit.statePath_eq
        (h.ok.commit hcommit).valid (fun q' hq' => (h.memory q' hq').mono hcommit.ledger_le) (.inl rfl)
      have hpath := hcommit.statePath_eq
      refine h.failed (by simp) hok (Service.addUser_statePath _ _ _)
        (Service.addUser_toLedger _ _).ge (hholds.congr ?_ rfl rfl)
      rw [Machine.commitTo_service, hpath]
      exact Service.addUser_statePath _ _ _
  | unencoded hop hsign =>
      have hok := h.ok.advanceSigner hsign
      exact h.failed (by simp) hok rfl (le_refl _) (h.holds.congr rfl rfl rfl)

/-- A start with this ledger serves nothing yet but what the ledger records. -/
theorem Service.LedgerOk.of_ledger {path : String} {l : Ledger} (h : l.Valid) :
    Service.LedgerOk { newService zk path with toLedger := l } := by
  refine ⟨h, ?_⟩
  intro user signer huser
  simp [newService] at huser

/-- No start is refused: the path and the file are accepted. -/
theorem World.LedgerInv.start_accepted {path : StatePath} {w : World zk} (h : w.LedgerInv path)
    (hpath : w.machine.service.statePath ≠ "") {l : Ledger}
    (hload : loadState w.machine.file = .ok l) :
    newPersistentService zk w.machine.service.statePath w.machine.file =
      .ok { newService zk w.machine.service.statePath with toLedger := l } := by
  have hblank : isBlank w.machine.service.statePath = false := by
    rw [h.path_eq]
    exact path.startable.resolve_left (h.path_eq ▸ hpath)
  exact newPersistentService_eq_ok.2 ⟨hblank, l, hload, rfl⟩

theorem World.LedgerInv.step {path : StatePath} {w w' : World zk} (hstep : WorldStep lib w w')
    (h : w.LedgerInv path) : w'.LedgerInv path := by
  cases hstep with
  | same => exact h
  | refuse hpath hstart =>
      obtain ⟨l, hl, _⟩ := h.holds.file hpath
      rw [h.start_accepted hpath hl] at hstart
      cases hstart
  | restart hpath hload =>
      obtain ⟨l, hl, hrecords⟩ := h.holds.file hpath
      obtain rfl := Except.ok.inj (hl.symm.trans hload)
      refine ⟨rfl, h.path_eq, .of_ledger (loadState_valid hl), hrecords, ?_⟩
      exact h.holds.congr rfl rfl rfl
  | answer q c => exact h.answer (run_step w.machine q c) _
  | loadSetup hload =>
      obtain ⟨_, l, _, rfl⟩ := Service.loadSetup_eq_ok.1 hload
      exact ⟨h.running, h.path_eq, ⟨h.ok.valid, h.ok.user_nonblank⟩, h.memory,
        h.holds.congr rfl rfl rfl⟩

theorem World.LedgerInv.idle (path : StatePath) : (World.idle zk path).LedgerInv path := by
  refine ⟨rfl, rfl, .of_ledger Ledger.valid_empty, ?_, ⟨?_, ?_⟩⟩
  · intro q hq
    simp [World.acked, World.idle] at hq
  · intro _
    obtain ⟨l, hl⟩ := path.readable
    exact ⟨l, hl, fun q hq => by simp [World.acked, World.idle] at hq⟩
  · intro l rest hrest
    simp [World.idle] at hrest

theorem World.LedgerInv.after (path : StatePath) (events : List (ServiceEvent lib zk)) :
    (World.after path events).LedgerInv path :=
  World.after_invariant _ (.idle path) (fun _ _ hstep h => h.step hstep) events

/-- An answer is never taken back. -/
theorem World.answers_run (w : World zk) (events : List (ServiceEvent lib zk)) :
    w.answers ⊆ (run (World.step lib) w events).answers := by
  refine run_invariant (fun w' : World zk => w.answers ⊆ w'.answers) ?_ (List.Subset.refl _) events
  intro w' e h a ha
  have hstep := w'.step_spec e
  generalize w'.step lib e = w'' at hstep
  cases hstep with
  | answer q c => exact List.mem_cons_of_mem _ (h ha)
  | _ => exact h ha

/-- With a state path: the service is never locked out of its file; memory and file record, from
then on, every pin, revocation and consumed envelope that was acknowledged; and after a write that
succeeded the next start has the ledger of that moment. -/
theorem ledger_survives_restarts (path : StatePath) (hpath : path.text ≠ "")
    (events more : List (ServiceEvent lib zk)) :
    (World.after path events).refused = none ∧
      (∃ l, loadState (World.after path (events ++ more)).machine.file = .ok l ∧
        ∀ q r, (q, r) ∈ (World.after path events).answers → r.ok = true →
          l.Records q ∧ (World.after path (events ++ more)).machine.service.toLedger.Records q) ∧
      ∀ l rest, (World.after path events).machine.writes = (l, .success) :: rest →
        loadState (World.after path events).machine.file = .ok l ∧
          (World.after path (events ++ [.restart])).machine.service.toLedger = l := by
  have hinv := World.LedgerInv.after path events
  have hinv' := World.LedgerInv.after path (events ++ more)
  obtain ⟨l, hl, hrecords⟩ := hinv'.holds.file (hinv'.path_eq ▸ hpath)
  refine ⟨hinv.running, ⟨l, hl, ?_⟩, ?_⟩
  · intro q r hanswer hr
    rw [World.after_append] at hrecords
    have hq := World.mem_acked.2 ⟨r, World.answers_run _ more hanswer, hr⟩
    refine ⟨hrecords q hq, hinv'.memory q ?_⟩
    rwa [World.after_append]
  · intro l' rest hwrites
    have hload := hinv.holds.write l' rest hwrites
    refine ⟨hload, ?_⟩
    have hne : (World.after path events).machine.service.statePath ≠ "" := by
      rwa [hinv.path_eq]
    rw [World.after_append]
    change (World.after path events).restart.machine.service.toLedger = l'
    rw [World.restart, if_neg hne, hinv.start_accepted hne hload]

/-! ## A sample run -/

/-- Draws that give the secret 3 and the exponent 7. -/
def sampleChoices (r : PersistResult) : Choices where
  setupDraw := .ok 4
  backendRandomness := 0
  drawX := .ok 2
  drawD := .ok 6
  proverRandomness := 0
  order := id
  order_perm _ := .refl _
  persist := r

def sampleLoaded : LoadedSetup exponentLib sampleGroth16 where
  parameters := sampleParams
  prover := ⟨(), (), sha256 [], sha256 []⟩
  verifier := sampleVerifier
  valid := sampleParams_valid
  circuitHash_eq := rfl
  keyID_eq := rfl

/-- The file that the first process finds, with a user revoked before. -/
def sampleFile : List Char :=
  "\x7b\"version\":1,\"policies\":\x7b\x7d,\"revoked\":[\"former\"],\"seen\":[]\x7d".toList

def samplePath : StatePath where
  text := "state"
  startable := .inr (by decide +kernel)
  file := some sampleFile
  readable := exists_ok_of_isOk (by decide +kernel)

/-- A request as it arrives, which is then written. -/
def sampleRequest (text : String) : ServiceEvent exponentLib sampleGroth16 :=
  .request (textBytes text) (sampleChoices .success)

/-- A setup is loaded and the user `u` gets the account `a`. -/
def sampleRegistered : List (ServiceEvent exponentLib sampleGroth16) :=
  [.loadSetup (.ok sampleLoaded),
    sampleRequest "\x7b\"op\":\"keygen\",\"user\":\"u\",\"account\":\"a\"\x7d"]

def sampleRevocation : Request := { (default : Request) with op := "revoke_user", user := "u" }

/-- The premises are met: after a revocation was acknowledged, the next process knows of it. -/
theorem ledger_survives_restarts_sample :
    ∃ l, loadState (World.after samplePath (sampleRegistered ++
        [sampleRequest "\x7b\"op\":\"revoke_user\",\"user\":\"u\"\x7d"] ++
        [.restart])).machine.file = .ok l ∧ "u" ∈ l.revoked := by
  have hacked : sampleRevocation ∈ (World.after samplePath (sampleRegistered ++
      [sampleRequest "\x7b\"op\":\"revoke_user\",\"user\":\"u\"\x7d"])).acked := by
    decide +kernel
  obtain ⟨r, hanswer, hok⟩ := World.mem_acked.1 hacked
  obtain ⟨_, ⟨l, hl, hrecords⟩, _⟩ := ledger_survives_restarts samplePath (by decide)
    (sampleRegistered ++ [sampleRequest "\x7b\"op\":\"revoke_user\",\"user\":\"u\"\x7d"]) [.restart]
  exact ⟨l, hl, (hrecords _ r hanswer hok).1⟩

/-! ## Envelopes -/

/-- The envelope a request was accepted with. -/
def acceptedEnvelope (answer : Request × Response) : Option (List UInt8) :=
  if operationOf answer.1.op = .verify ∧ answer.2.ok = true then
    (decodeB64 answer.1.signature).toOption
  else none

theorem acceptedEnvelope_eq_some {answer : Request × Response} {enc : List UInt8} :
    acceptedEnvelope answer = some enc ↔
      operationOf answer.1.op = .verify ∧ answer.2.ok = true ∧
        decodeB64 answer.1.signature = .ok enc := by
  unfold acceptedEnvelope
  split
  · rename_i h
    cases hdecode : decodeB64 answer.1.signature with
    | error e => simp [Except.toOption]
    | ok b => simp [h, Except.toOption]
  · rename_i h
    simp only [false_iff, reduceCtorEq]
    exact fun h' => h ⟨h'.1, h'.2.1⟩

/-- An accepted envelope is in the set of consumed ones. -/
theorem World.LedgerInv.mem_seen {path : StatePath} {w : World zk} (h : w.LedgerInv path)
    {enc : List UInt8} (henc : enc ∈ w.answers.filterMap acceptedEnvelope) :
    sha256 enc ∈ w.machine.service.seen := by
  obtain ⟨⟨q, r⟩, hanswer, haccepted⟩ := List.mem_filterMap.1 henc
  obtain ⟨hop, hr, hdecode⟩ := acceptedEnvelope_eq_some.1 haccepted
  have hrecords := h.memory q (World.mem_acked.2 ⟨r, hanswer, hr⟩)
  rw [Ledger.Records, hop] at hrecords
  obtain ⟨enc', hdecode', hseen⟩ := hrecords
  obtain rfl : enc = enc' := Except.ok.inj (hdecode.symm.trans hdecode')
  exact hseen

/-- An acknowledged `verify` passed every check, the one for a consumed digest included. -/
theorem RunStep.verify_ok {m : Machine zk} {q : Request} {c : Choices} {o : Outcome zk}
    (h : RunStep lib m q c o) (hop : operationOf q.op = .verify) (herr : o.err = none) :
    ∃ digest, m.service.verify lib q = .ok digest := by
  have hspec := (h.commit_of_ok (by rw [hop]; rfl) herr).spec
  simp only [hop] at hspec
  obtain ⟨digest, hverify, _⟩ := hspec
  exact ⟨digest, hverify⟩

theorem World.accepted_step {path : StatePath} {w w' : World zk} (hstep : WorldStep lib w w')
    (hinv : w.LedgerInv path) (h : (w.answers.filterMap acceptedEnvelope).Nodup) :
    (w'.answers.filterMap acceptedEnvelope).Nodup := by
  cases hstep with
  | answer q c =>
      cases haccepted : acceptedEnvelope (q, (w.machine.run lib q c).response) with
      | none => rwa [List.filterMap_cons_none haccepted]
      | some enc =>
          rw [List.filterMap_cons_some haccepted, List.nodup_cons]
          refine ⟨fun hmem => ?_, h⟩
          obtain ⟨hop, hr, hdecode⟩ := acceptedEnvelope_eq_some.1 haccepted
          have hstep := @run_step lib zk w.machine q c
          obtain ⟨_, hverify⟩ := hstep.verify_ok hop ((Outcome.response_ok _).1 hr)
          obtain ⟨_, enc', _, _, _, hdecode', _, hfresh, _, _, _⟩ := Service.verify_eq_ok.1 hverify
          -- the check looked up the digest of the very bytes that were accepted before
          obtain rfl : enc = enc' := Except.ok.inj (hdecode.symm.trans hdecode')
          exact hfresh (hinv.mem_seen hmem)
  | _ => exact h

/-- The operations that leave the consumed digests alone. -/
theorem RunStep.seen_eq {m : Machine zk} {q : Request} {c : Choices} {o : Outcome zk}
    (h : RunStep lib m q c o) (hop : operationOf q.op ≠ .verify) :
    o.machine.service.seen = m.service.seen := by
  rcases h.change with hsame | hchange
  · rw [hsame]
  · generalize o.machine.service = s' at hchange
    cases hchange with
    | user hkey =>
        exact congrArg Ledger.seen (Service.addUser_toLedger _ _)
    | signer hsign => rfl
    | commit hcommit =>
        cases hcommit with
        | verify hop' _ => exact absurd hop' hop
        | keygen _ hkey => exact congrArg Ledger.seen (Service.addUser_toLedger _ _)
        | _ => rfl

theorem run_verify_unverified {m : Machine zk} {q : Request} {c : Choices}
    (hop : operationOf q.op = .verify) (h : (m.run lib q c).response.verified = false) :
    (m.run lib q c).machine = m := by
  by_cases hprover : m.service.prover = none
  · rw [run_without_setup (by rw [hop]; rfl) hprover]
    rfl
  · rw [run_of_verify hop hprover] at h ⊢
    dsimp only [Machine.runVerify] at h ⊢
    cases hverify : m.service.verify lib q with
    | error e => rfl
    | ok digest =>
        rw [hverify, Outcome.response_verified] at h
        cases h

/-- No envelope is accepted twice in a run, whatever was persisted and restarted in between; and a
`verify` that does not verify, and every `link`, `trace` and `sign`, consume nothing. -/
theorem envelope_accepted_once (path : StatePath) (events : List (ServiceEvent lib zk)) :
    ((World.after path events).answers.filterMap acceptedEnvelope).Nodup ∧
      ∀ (q : Request) (c : Choices),
        (operationOf q.op = .verify ∧
              ((World.after path events).machine.run lib q c).response.verified = false ∨
            operationOf q.op = .link ∨ operationOf q.op = .trace ∨ operationOf q.op = .sign) →
          ((World.after path events).machine.run lib q c).machine.service.seen =
            (World.after path events).machine.service.seen := by
  refine ⟨?_, ?_⟩
  · have hboth := World.after_invariant
      (fun w : World zk => w.LedgerInv path ∧ (w.answers.filterMap acceptedEnvelope).Nodup)
      ⟨.idle path, List.nodup_nil⟩
      (fun w w' hstep h => ⟨h.1.step hstep, World.accepted_step hstep h.1 h.2⟩) events
    exact hboth.2
  · intro q c hcase
    rcases hcase with ⟨hop, hverified⟩ | hop | hop | hop
    · rw [run_verify_unverified hop hverified]
    · exact (run_step _ q c).seen_eq (by simp [hop])
    · exact (run_step _ q c).seen_eq (by simp [hop])
    · exact (run_step _ q c).seen_eq (by simp [hop])

end Lktrs.NativeProof
