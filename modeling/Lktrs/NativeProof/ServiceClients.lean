import Lktrs.NativeProof.Responses
import Lktrs.NativeProof.ServiceQuota
import Lktrs.Protocol.NativeRequests

/-!
# What the clients of the service see

An application talks to the service through a `NativeProcess`: threads call
`request`, the child's `serve` loop calls `Handle`, and when a request fails the
child is killed and the next `NativeProcess` starts a new one on the same state
file. A `Session` is one such process with its client threads, in any
interleaving and with failures at any byte; a `History` is any number of
sessions in a row.

Whatever happens, there is one sequential run of the service whose answers, in
their order, contain everything that clients received, and that has gone beyond
it by at most one request a session (`clients_see_one_run`). So the guarantees
of the service are guarantees for its clients: no envelope is accepted for two
of them, and what was acknowledged to one is on disk
(`clients_accept_once`); the signatures they hold stay within the quota
(`clients_within_quota`).
-/

set_option autoImplicit false

namespace Lktrs.NativeProof

open Lktrs.Foundation
open Protocol (Host Served)

variable (lib : GnarkCrypto) {zk : Groth16}

/-! ## Sessions -/

/-- `Handle` as the child's loop calls it; the choices of a process are numbered by its requests. -/
def serviceHandle (choices : ℕ → Choices) (s : World zk × ℕ) (raw : List UInt8) :
    List UInt8 × (World zk × ℕ) :=
  ((s.1.machine.handle lib raw (choices s.2)).1.bytes,
    (s.1.serve lib raw (choices s.2), s.2 + 1))

/-- One `NativeProcess`: the setup its child is started with, if there is one, what the child's
requests take from outside, and what threads and child do. -/
structure Session (zk : Groth16) where
  setup : Option (Except String (LoadedSetup lib zk))
  choices : ℕ → Choices
  events : List Protocol.Event

/-- The start of `serve`: a state file or a setup that is refused ends the child before its loop. -/
def Session.boot (s : Session lib zk) (w : World zk) : Host (World zk × ℕ) :=
  let failed := (Host.start (w, 0)).step (serviceHandle lib s.choices) (.serve .exit)
  if w.refused.isSome then failed
  else
    match s.setup with
    | none => Host.start (w, 0)
    | some loaded =>
        match w.machine.service.loadSetup lib loaded with
        | .error _ => failed
        | .ok _ => Host.start (w.step lib (.loadSetup loaded), 0)

/-- The process at the end of its session. -/
def Session.host (s : Session lib zk) (w : World zk) : Host (World zk × ℕ) :=
  run (Host.step (serviceHandle lib s.choices)) (s.boot lib w) s.events

/-- A state path that `NewPersistentService` accepts, with what is there before the first
process. -/
structure StateFile where
  text : String
  nonblank : isBlank text = false
  contents : Option (List Char)
  readable : ∃ l, loadState contents = .ok l

def StateFile.path (file : StateFile) : StatePath :=
  ⟨file.text, .inr file.nonblank, file.contents, file.readable⟩

/-- What a client got back: the session, the thread, its payload and the response. -/
structure Receipt where
  session : ℕ
  thread : ℕ
  payload : List UInt8
  response : List UInt8

/-- The world the last process left behind, and what clients have received, oldest first. -/
structure History (zk : Groth16) where
  world : World zk
  sessions : ℕ
  received : List Receipt

/-- Before the first process. -/
def History.start (file : StateFile) : History zk := ⟨World.idle zk file.path, 0, []⟩

/-- A session: a process is started on the file the last one left, and its clients get answers. -/
def History.step (h : History zk) (s : Session lib zk) : History zk :=
  let host := s.host lib h.world.restart
  { world := host.child.service.1
    sessions := h.sessions + 1
    received := h.received ++ host.returned.map fun e => ⟨h.sessions, e.1, e.2.1, e.2.2⟩ }

def History.after (file : StateFile) (sessions : List (Session lib zk)) : History zk :=
  run (History.step lib) (History.start file) sessions

/-- A payload and its response, read as the request and the answer to it. -/
def exchange (e : List UInt8 × List UInt8) : Option (Request × Response) :=
  match decodeRequest e.1, Response.read e.2 with
  | .ok q, some r => some (q, r)
  | _, _ => none

def Receipt.exchange (r : Receipt) : Option (Request × Response) :=
  NativeProof.exchange (r.payload, r.response)

/-- The answers clients have, oldest first. -/
def History.answers (h : History zk) : List (Request × Response) := h.received.filterMap Receipt.exchange

/-! ## The log of one process is a run of the service -/

variable {lib}

@[simp] theorem serviceHandle_response (choices : ℕ → Choices) (s : World zk × ℕ) (raw : List UInt8) :
    (serviceHandle lib choices s raw).1 = (s.1.machine.handle lib raw (choices s.2)).1.bytes := by
  rw [serviceHandle]

@[simp] theorem serviceHandle_world (choices : ℕ → Choices) (s : World zk × ℕ) (raw : List UInt8) :
    (serviceHandle lib choices s raw).2.1 = s.1.serve lib raw (choices s.2) := by
  rw [serviceHandle]

theorem World.serve_answers (w : World zk) (raw : List UInt8) (c : Choices) :
    (w.serve lib raw c).answers =
      (exchange (raw, (w.machine.handle lib raw c).1.bytes)).toList ++ w.answers := by
  simp only [World.serve, exchange, Response.read_bytes]
  cases decodeRequest raw with
  | error e => rfl
  | ok q => rfl

theorem World.serve_refused (w : World zk) (raw : List UInt8) (c : Choices) :
    (w.serve lib raw c).refused = w.refused := by
  simp only [World.serve]
  cases decodeRequest raw with
  | error e => rfl
  | ok q => rfl

/-- A response a client can read; to what is no request it is an error. -/
def Readable (e : List UInt8 × List UInt8) : Prop :=
  ∃ r, Response.read e.2 = some r ∧
    ∀ text, decodeRequest e.1 = .error text → r.ok = false ∧ r.error = text

theorem World.handle_readable (w : World zk) (raw : List UInt8) (c : Choices) :
    Readable (raw, (w.machine.handle lib raw c).1.bytes) := by
  refine ⟨(w.machine.handle lib raw c).1, Response.read_bytes _, ?_⟩
  intro text htext
  simp only [Machine.handle, htext, and_self]

/-- What a process has handled are the requests of a run, with their answers. -/
theorem served_run {choices : ℕ → Choices} {s s' : World zk × ℕ} (hrunning : s.1.refused = none)
    {log : List (List UInt8 × List UInt8)} (h : Served (serviceHandle lib choices) s log s') :
    s'.1.refused = none ∧ (∀ e ∈ log, Readable e) ∧
      s'.1.answers = (log.filterMap exchange).reverse ++ s.1.answers ∧
      ∃ events : List (ServiceEvent lib zk), s'.1 = run (World.step lib) s.1 events := by
  induction h with
  | nil => exact ⟨hrunning, by simp, rfl, [], rfl⟩
  | @snoc log state _ raw ih =>
      obtain ⟨hstate, hreadable, hanswers, events, hrun⟩ := ih
      simp only [serviceHandle_response, serviceHandle_world]
      refine ⟨(state.1.serve_refused raw _).trans hstate, ?_, ?_,
        events ++ [.request raw (choices state.2)], ?_⟩
      · simp only [List.forall_mem_append, List.forall_mem_singleton]
        exact ⟨hreadable, state.1.handle_readable raw _⟩
      · rw [List.filterMap_append, List.reverse_append, List.append_assoc, ← hanswers,
          World.serve_answers]
        cases hex : exchange (raw, (state.1.machine.handle lib raw (choices state.2)).1.bytes) with
        | none => simp [hex]
        | some e => simp [hex]
      · rw [run_append, ← hrun, run_cons, run_nil, World.step, hstate]
        rfl

/-! ## Sessions in a row -/

theorem World.restart_answers (w : World zk) : w.restart.answers = w.answers := by
  unfold World.restart
  split
  · rfl
  · split <;> rfl

theorem World.loadSetup_answers (w : World zk) (loaded : Except String (LoadedSetup lib zk)) :
    (w.step lib (.loadSetup loaded)).answers = w.answers ∧
      (w.step lib (.loadSetup loaded)).refused = w.refused := by
  simp only [World.step]
  split_ifs
  · exact ⟨rfl, rfl⟩
  · split
    · exact ⟨rfl, rfl⟩
    · exact ⟨rfl, rfl⟩

/-- A process begins its loop, or ends before it, in the world it found or with a setup loaded. -/
theorem Session.boot_coherent (s : Session lib zk) (w : World zk) :
    ∃ events : List (ServiceEvent lib zk),
      (run (World.step lib) w events).answers = w.answers ∧
      (run (World.step lib) w events).refused = w.refused ∧
      Host.Coherent (serviceHandle lib s.choices) (run (World.step lib) w events, 0)
        (s.boot lib w) := by
  have hstart (w' : World zk) :
      Host.Coherent (serviceHandle lib s.choices) (w', 0) (Host.start (w', 0)) :=
    Host.coherent_start _
  have hfailed : Host.Coherent (serviceHandle lib s.choices) (w, 0)
      ((Host.start (w, 0)).step (serviceHandle lib s.choices) (.serve .exit)) :=
    (hstart w).move (Host.step_move _ _)
  unfold Session.boot
  split_ifs
  · exact ⟨[], rfl, rfl, hfailed⟩
  · cases hsetup : s.setup with
    | none => exact ⟨[], rfl, rfl, hstart w⟩
    | some loaded =>
        cases hload : w.machine.service.loadSetup lib loaded with
        | error e => exact ⟨[], rfl, rfl, by simpa [hload] using hfailed⟩
        | ok service =>
            obtain ⟨hanswers, hrefused⟩ := w.loadSetup_answers loaded
            exact ⟨[.loadSetup loaded], hanswers, hrefused, by simpa [hload] using hstart _⟩

/-- One run of the service explains what clients have received. -/
structure History.OneRun (lib : GnarkCrypto) (file : StateFile) (h : History zk) : Prop where
  service : ∃ events : List (ServiceEvent lib zk),
    h.world = run (World.step lib) (World.idle zk file.path) events
  readable : ∀ r ∈ h.received, Readable (r.payload, r.response)
  received : h.answers.Sublist h.world.answers.reverse
  beyond : h.world.answers.length ≤ h.answers.length + h.sessions

/-- What every event preserves holds along every run from the idle world. -/
theorem World.run_idle (file : StateFile) (events : List (ServiceEvent lib zk)) :
    (run (World.step lib) (World.idle zk file.path) events).LedgerInv file.path ∧
      (run (World.step lib) (World.idle zk file.path) events).QuotaInv lib ∧
      ((run (World.step lib) (World.idle zk file.path) events).answers.filterMap
        acceptedEnvelope).Nodup := by
  refine run_invariant (fun w : World zk => w.LedgerInv file.path ∧ w.QuotaInv lib ∧
    (w.answers.filterMap acceptedEnvelope).Nodup) ?_ ⟨.idle _, .idle _, List.nodup_nil⟩ events
  rintro w e ⟨hledger, hquota, haccepted⟩
  have hstep := w.step_spec e
  exact ⟨hledger.step hstep, hquota.step hstep, World.accepted_step hstep hledger haccepted⟩

theorem History.OneRun.step {file : StateFile} {h : History zk} (hrun : h.OneRun lib file)
    (s : Session lib zk) : (h.step lib s).OneRun lib file := by
  obtain ⟨events, hworld⟩ := hrun.service
  obtain ⟨started, hanswers, hrefused, hboot⟩ := s.boot_coherent h.world.restart
  have hcoherent : Host.Coherent _ _ (s.host lib h.world.restart) :=
    run_invariant (Host.Coherent _ _) (fun host e hc => hc.move (host.step_move e)) hboot s.events
  have hrestart : (h.world.restart).refused = none := by
    have hafter := (World.run_idle file (events ++ [.restart])).1.running
    rwa [run_append, ← hworld] at hafter
  obtain ⟨-, hreadable, hlog, served, hserved⟩ :=
    served_run (hrefused.trans hrestart) hcoherent.served
  obtain ⟨extra, hextra, hhandled⟩ := hcoherent.separated.paired
  -- what clients got in this session, and what the process did beyond it
  have hnew : (h.step lib s).answers =
      h.answers ++ (s.host lib h.world.restart).answers.filterMap exchange := by
    simp only [History.answers, History.step, List.filterMap_append, List.filterMap_map,
      Host.answers]
    rfl
  have hbeyond : (extra.filterMap exchange).length ≤ 1 :=
    (List.length_filterMap_le _ _).trans hextra
  have hall : (h.step lib s).world.answers.reverse =
      h.world.answers.reverse ++ ((s.host lib h.world.restart).answers.filterMap exchange ++
        extra.filterMap exchange) := by
    show (s.host lib h.world.restart).child.service.1.answers.reverse = _
    rw [hlog, hhandled, hanswers, World.restart_answers, List.reverse_append, List.reverse_reverse,
      List.filterMap_append]
  refine ⟨⟨events ++ [.restart] ++ started ++ served, ?_⟩, ?_, ?_, ?_⟩
  · rw [run_append, run_append, run_append, ← hworld]
    exact hserved
  · simp only [History.step, List.forall_mem_append]
    refine ⟨hrun.readable, ?_⟩
    intro r hr
    obtain ⟨e, he, rfl⟩ := List.mem_map.1 hr
    apply hreadable
    rw [hhandled]
    exact List.mem_append_left _ (List.mem_map_of_mem he)
  · rw [hnew, hall]
    exact hrun.received.append (List.sublist_append_left _ _)
  · have hlength := congrArg List.length hall
    have hold := hrun.beyond
    rw [hnew]
    simp only [List.length_reverse, List.length_append] at hlength ⊢
    show _ ≤ _ + (h.sessions + 1)
    omega

theorem History.OneRun.after (file : StateFile) (sessions : List (Session lib zk)) :
    (History.after lib file sessions).OneRun lib file := by
  apply run_invariant (History.OneRun lib file) (fun h s hrun => hrun.step s)
  exact ⟨⟨[], rfl⟩, by simp [History.start], List.Sublist.refl _, le_refl _⟩

theorem History.sessions_run (h : History zk) (sessions : List (Session lib zk)) :
    (run (History.step lib) h sessions).sessions = h.sessions + sessions.length := by
  induction sessions generalizing h with
  | nil => rfl
  | cons s sessions ih =>
      rw [run_cons, ih, List.length_cons]
      show h.sessions + 1 + _ = _
      omega

/-- **Clients see one run.** Whatever the threads of any number of sessions do, with requests that
fail at any byte and children that are killed at any moment: there is one sequential run of the
service whose answers contain, in their order, all that clients received; it has gone beyond that by
at most one request a session. Every response can be read, and to a payload that is no request it is
the error of the decoder. -/
theorem clients_see_one_run (file : StateFile) (sessions : List (Session lib zk)) :
    let h := History.after lib file sessions
    (∃ events : List (ServiceEvent lib zk),
        h.world = run (World.step lib) (World.idle zk file.path) events) ∧
      h.answers.Sublist h.world.answers.reverse ∧
      h.world.answers.length ≤ h.answers.length + sessions.length ∧
      ∀ e ∈ h.received, Readable (e.payload, e.response) := by
  intro h
  have hrun : h.OneRun lib file := .after file sessions
  have hcount : h.sessions = sessions.length :=
    (History.sessions_run _ sessions).trans (Nat.zero_add _)
  exact ⟨hrun.service, hrun.received, hcount ▸ hrun.beyond, hrun.readable⟩

theorem StateFile.text_ne_empty (file : StateFile) : file.path.text ≠ "" := by
  intro hempty
  have hblank : isBlank "" = false := hempty ▸ file.nonblank
  exact absurd hblank (by decide)

/-- The next process starts with what the file holds. -/
theorem World.LedgerInv.restart_eq {file : StateFile} {w : World zk} (h : w.LedgerInv file.path)
    {l : Ledger} (hload : loadState w.machine.file = .ok l) :
    w.restart.refused = none ∧ w.restart.machine.service.toLedger = l := by
  have hpath : w.machine.service.statePath ≠ "" := h.path_eq ▸ file.text_ne_empty
  rw [World.restart, if_neg hpath, h.start_accepted hpath hload]
  exact ⟨rfl, rfl⟩

/-- **An answer is final.** Over all sessions no envelope is accepted for two requests, and every
request that was acknowledged to a client is recorded in the state file, which is what the next
process starts with. -/
theorem clients_accept_once (file : StateFile) (sessions : List (Session lib zk)) :
    let h := History.after lib file sessions
    (h.answers.filterMap acceptedEnvelope).Nodup ∧
      ∃ l, loadState h.world.machine.file = .ok l ∧
        h.world.restart.refused = none ∧ h.world.restart.machine.service.toLedger = l ∧
        ∀ q r, (q, r) ∈ h.answers → r.ok = true → l.Records q := by
  intro h
  have hrun : h.OneRun lib file := .after file sessions
  obtain ⟨events, hworld⟩ := hrun.service
  have hinv := World.run_idle file events
  rw [← hworld] at hinv
  obtain ⟨hledger, -, haccepted⟩ := hinv
  obtain ⟨l, hl, hrecords⟩ := hledger.holds.file (hledger.path_eq ▸ file.text_ne_empty)
  refine ⟨?_, l, hl, (hledger.restart_eq hl).1, (hledger.restart_eq hl).2, ?_⟩
  · have hall : (h.world.answers.reverse.filterMap acceptedEnvelope).Nodup := by
      rw [List.filterMap_reverse]
      exact List.nodup_reverse.2 haccepted
    exact (hrun.received.filterMap _).nodup hall
  · intro q r hanswer hok
    have hmem := List.mem_reverse.1 (hrun.received.subset hanswer)
    exact hrecords q (World.mem_acked.2 ⟨r, hmem, hok⟩)

/-- A release that verifies is a signature of its signer. -/
theorem Release.Genuine.userSignature {r : Release} (h : r.Genuine lib) {v : Verifier zk}
    {ctx : VerificationContext} {message : List UInt8}
    (hverify : v.verify lib ctx message r.signed = .ok ()) :
    UserSignature lib v r.secret r.issue r.k ctx message r.signed r.counter :=
  ⟨h.made, hverify⟩

/-- **Clients hold no evidence against a user.** The signatures that clients received are releases
of the run, one for each and in its order; all for one issue carry one quota, those of one signer are
at most as many as it says, and any two of them that verify are linked and legal in every
registry. -/
theorem clients_within_quota (file : StateFile) (sessions : List (Session lib zk)) :
    let h := History.after lib file sessions
    ∃ releases : List Release,
      releases.Sublist h.world.releases.reverse ∧
      releases.map (·.envelope) = (h.answers.filter releasing).map (·.2.signature) ∧
      (∀ r ∈ releases, r.Genuine lib) ∧
      (∀ r ∈ releases, ∀ r' ∈ releases, r.issue = r'.issue → r.k = r'.k) ∧
      (∀ r ∈ releases, (releases.filter fun r' => r.SameSigner r').length ≤ r.k.toNat) ∧
      releases.Pairwise fun r r' => r.SameSigner r' →
        ∀ (v : Verifier zk) (a b : VerificationContext) (ma mb : List UInt8),
          v.verify lib a ma r.signed = .ok () → v.verify lib b mb r'.signed = .ok () →
            v.link lib a ma r.signed b mb r'.signed = .ok true ∧
            ∀ registry, v.trace lib a ma r.signed b mb r'.signed registry =
              ({ status := .legal }, none) := by
  intro h
  have hrun : h.OneRun lib file := .after file sessions
  obtain ⟨events, hworld⟩ := hrun.service
  have hinv := World.run_idle file events
  rw [← hworld] at hinv
  obtain ⟨hledger, hquota, -⟩ := hinv
  -- the envelopes clients got are among those of the run, in its order
  have hsub : ((h.answers.filter releasing).map (·.2.signature)).Sublist
      (h.world.releases.reverse.map (·.envelope)) := by
    rw [List.map_reverse, hquota.envelopes, ← List.map_reverse, ← List.filter_reverse]
    exact (hrun.received.filter _).map _
  obtain ⟨releases, hreleases, hmap⟩ := List.sublist_map_iff.1 hsub
  have hmem {r : Release} (hr : r ∈ releases) : r ∈ h.world.releases :=
    List.mem_reverse.1 (hreleases.subset hr)
  have hsameK : ∀ r ∈ releases, ∀ r' ∈ releases, r.issue = r'.issue → r.k = r'.k := by
    intro r hr r' hr' hissue
    have hpinned := hquota.pinned hledger (hmem hr)
    rw [hissue, hquota.pinned hledger (hmem hr')] at hpinned
    exact (Option.some.inj hpinned).symm
  have hdistinct : releases.Pairwise fun r r' =>
      r.SameSigner r' → r.secret = r'.secret ∧ r.counter ≠ r'.counter := by
    apply List.Pairwise.sublist hreleases
    apply List.pairwise_reverse.2
    refine hquota.distinct.imp ?_
    intro r r' hpair hsame
    obtain ⟨hsecret, hcounter⟩ := hpair ⟨hsame.1.symm, hsame.2.1.symm, hsame.2.2.symm⟩
    exact ⟨hsecret.symm, hcounter.symm⟩
  refine ⟨releases, hreleases, hmap.symm, fun r hr => hquota.genuine r (hmem hr), hsameK, ?_, ?_⟩
  · intro r hr
    apply length_le_of_distinct (f := Release.counter)
    · refine (hdistinct.filter _).imp_of_mem ?_
      intro a b ha hb hpair
      have hra : r.SameSigner a := by simpa using (List.mem_filter.1 ha).2
      have hrb : r.SameSigner b := by simpa using (List.mem_filter.1 hb).2
      exact (hpair ⟨hra.1.symm.trans hrb.1, hra.2.1.symm.trans hrb.2.1,
        hra.2.2.symm.trans hrb.2.2⟩).2
    · intro a ha
      obtain ⟨ha, hsame⟩ := List.mem_filter.1 ha
      have hra : r.SameSigner a := by simpa using hsame
      rw [hsameK r hr a ha hra.2.2]
      exact (hquota.genuine a (hmem ha)).below
  · refine hdistinct.imp_of_mem ?_
    intro r r' hr hr' hpair hsame v a b ma mb ha hb
    obtain ⟨hsecret, hcounter⟩ := hpair hsame
    have hfirst := (hquota.genuine r (hmem hr)).userSignature ha
    have hsecond := (hquota.genuine r' (hmem hr')).userSignature hb
    rw [← hsecret, ← hsame.2.2, ← hsameK r hr r' hr' hsame.2.2] at hsecond
    exact ⟨hfirst.link_eq hsecond, hfirst.trace_legal hsecond hcounter⟩

end Lktrs.NativeProof
