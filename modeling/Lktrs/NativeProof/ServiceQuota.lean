import Lktrs.NativeProof.ServiceRun
import Lktrs.NativeProof.Tracing

/-!
# Quotas over whole runs

The bound on what the service releases is kept by two states: each signer's
next counter of an issue, which only moves up and is below the quota when it is
used, and the quota pinned for the issue, which is persisted before a signature
leaves. Along every run the releases of one signer for one issue use distinct
counters below one quota, so there are at most that many, and their serial
numbers differ (`releases_within_quota`).
-/

set_option autoImplicit false

namespace Lktrs.NativeProof

open Lktrs.Foundation
open Std (ExtTreeMap ExtTreeSet)

variable {lib : GnarkCrypto} {zk : Groth16}

/-! ## Signers -/

@[simp] theorem Signer.nextCounter_insert (s : Signer) (issue : FixedBytes 32) (n : UInt32) :
    Signer.nextCounter { s with next := s.next.insert issue n } issue = n := by
  simp [Signer.nextCounter]

theorem Signer.nextCounter_insert_of_ne (s : Signer) {issue other : FixedBytes 32} (n : UInt32)
    (h : issue ≠ other) :
    Signer.nextCounter { s with next := s.next.insert issue n } other = s.nextCounter other := by
  simp only [Signer.nextCounter, getElem?_insert_of_ne h]

/-- A later state of a signer: the secret is the same and no counter went back. -/
def Signer.Later (s s' : Signer) : Prop :=
  s'.x = s.x ∧ ∀ issue, s.nextCounter issue ≤ s'.nextCounter issue

theorem Signer.Later.refl (s : Signer) : s.Later s := ⟨rfl, fun _ => UInt32.le_refl _⟩

theorem Signer.later_advance {s : Signer} {issue : FixedBytes 32} {k : UInt32}
    (h : s.nextCounter issue < k) :
    s.Later { s with next := s.next.insert issue (s.nextCounter issue + 1) } := by
  refine ⟨rfl, ?_⟩
  intro other
  by_cases heq : issue = other
  · subst heq
    rw [Signer.nextCounter_insert, UInt32.le_iff_toNat_le, toNat_succ_of_lt h]
    omega
  · rw [Signer.nextCounter_insert_of_ne s _ heq]
    exact UInt32.le_refl _

/-- What the effect of a signature says about the signer before it. -/
theorem Service.sign_signer {s : Service zk} {q : Request} {c : Choices} {e : SignEffect}
    (h : s.sign lib q c = .ok e) :
    ∃ signer, s.users[e.owner]? = some signer ∧ signer.nextCounter e.issue < q.k ∧
      e.signer = { signer with next := signer.next.insert e.issue (signer.nextCounter e.issue + 1) } ∧
      ∃ p accounts i d md ts w, makeStatement lib p accounts i signer.x d e.issue md ts q.k
        (signer.nextCounter e.issue) = .ok (e.signed.statement, w) := by
  obtain ⟨r, j, snap, signer, _, _, _, _, hsigner, hsign, hissue, howner⟩ := Service.sign_eq_ok.1 h
  obtain ⟨_, _, hlt, hadvanced, prover, d, st, w, _, _, hmake, hprove⟩ :=
    (Signer.sign_eq_ok lib).1 hsign
  have hstatement : e.signed.statement = st := by
    simp only [Prover.prove, bind_eq_ok, pure_eq_ok] at hprove
    obtain ⟨_, _, _, _, _, _, hsigned⟩ := hprove
    rw [← hsigned]
  rw [howner, hissue, hstatement]
  exact ⟨signer, hsigner, hlt, hadvanced, _, _, _, _, _, _, _, hmake⟩

/-- A change keeps every user, with a later state of its signer. -/
theorem Change.signer_later {s s' : Service zk} {q : Request} {c : Choices}
    (h : Change lib s q c s') {user : String} {signer : Signer}
    (huser : s.users[user]? = some signer) :
    ∃ signer', s'.users[user]? = some signer' ∧ signer.Later signer' := by
  have hadd {a : Account} {new : Option Signer} (hkey : s.keygen lib q c = .ok (a, new)) :
      (s.addUser q.user new).users[user]? = some signer := by
    cases new with
    | none => exact huser
    | some new =>
        -- a signer is only made for a name that has none
        obtain ⟨_, _, _, _, _, _, _, _, ⟨hnone, _, _⟩ | ⟨_, _, _, hnew⟩⟩ :=
          Service.keygen_eq_ok.1 hkey
        · have hne : q.user ≠ user := by
            rintro rfl
            rw [huser] at hnone
            cases hnone
          exact (getElem?_insert_of_ne hne).trans huser
        · cases hnew
  have hadvance {e : SignEffect} (hsign : s.sign lib q c = .ok e) :
      ∃ signer', (s.advanceSigner e).users[user]? = some signer' ∧ signer.Later signer' := by
    obtain ⟨old, hold, hlt, hadvanced, _⟩ := Service.sign_signer hsign
    by_cases heq : e.owner = user
    · subst heq
      obtain rfl : old = signer := Option.some.inj (hold.symm.trans huser)
      refine ⟨e.signer, ExtTreeMap.getElem?_insert_self, ?_⟩
      rw [hadvanced]
      exact Signer.later_advance hlt
    · exact ⟨signer, (getElem?_insert_of_ne heq).trans huser, .refl _⟩
  cases h with
  | user hkey => exact ⟨signer, hadd hkey, .refl _⟩
  | signer hsign => exact hadvance hsign
  | commit hcommit =>
      cases hcommit with
      | keygen _ hkey => exact ⟨signer, hadd hkey, .refl _⟩
      | sign _ hsign _ => exact hadvance hsign
      | _ => exact ⟨signer, huser, .refl _⟩

/-! ## Releases -/

/-- An acknowledged `sign` released what its signer made, after pinning the quota. -/
theorem run_sign_ok {m : Machine zk} {q : Request} {c : Choices} (hop : operationOf q.op = .sign)
    (h : (m.run lib q c).err = none) :
    ∃ e enc, m.service.sign lib q c = .ok e ∧ marshalSigned lib e.signed = .ok enc ∧
      (m.run lib q c).out.signature = base64Encode enc ∧
      (m.run lib q c).machine.service = (m.service.advanceSigner e).pin e.issue q.k := by
  have hneeds : (operationOf q.op).needsSetup = true := by rw [hop]; rfl
  by_cases hprover : m.service.prover = none
  · rw [run_without_setup hneeds hprover] at h
    cases h
  · rw [run_of_setup hneeds hprover] at h ⊢
    unfold Machine.runAfterSetup at h ⊢
    rw [hop] at h ⊢
    dsimp only [Machine.runSign] at h ⊢
    cases hsign : m.service.sign lib q c with
    | error e =>
        rw [hsign] at h
        cases h
    | ok e =>
        rw [hsign] at h
        dsimp only at h ⊢
        cases hmarshal : marshalSigned lib e.signed with
        | error text =>
            rw [hmarshal] at h
            cases h
        | ok enc =>
            rw [hmarshal] at h
            dsimp only at h ⊢
            -- the service is saved as it is, whatever becomes of the save
            have hservice := Machine.persistState_service
              { m with service := (m.service.advanceSigner e).pin e.issue q.k } c.persist
            generalize Machine.persistState _ c.persist = p at h hservice ⊢
            obtain ⟨err, m'⟩ := p
            cases err with
            | some text => cases h
            | none => exact ⟨e, enc, rfl, hmarshal, rfl, hservice⟩

/-- One signer and one issue. -/
def Release.SameSigner (r r' : Release) : Prop :=
  r.process = r'.process ∧ r.owner = r'.owner ∧ r.issue = r'.issue

instance (r r' : Release) : Decidable (r.SameSigner r') :=
  inferInstanceAs (Decidable (_ ∧ _ ∧ _))

/-- A release is the statement its signer made at its counter, in the envelope that was sent. -/
structure Release.Genuine (lib : GnarkCrypto) (r : Release) : Prop where
  below : r.counter < r.k
  made : ∃ p accounts i d md ts w,
    makeStatement lib p accounts i r.secret d r.issue md ts r.k r.counter =
      .ok (r.signed.statement, w)
  envelope_eq : ∃ enc, marshalSigned lib r.signed = .ok enc ∧ r.envelope = base64Encode enc

/-- The answers that released a signature. -/
def releasing (answer : Request × Response) : Bool :=
  operationOf answer.1.op = .sign && answer.2.ok

/-- What an event releases: one genuine signature for an acknowledged `sign`, and nothing
otherwise. -/
theorem World.release_cases (w : World zk) (q : Request) (c : Choices) :
    (releasing (q, (w.machine.run lib q c).response) = false ∧
        w.release lib q c (w.machine.run lib q c).response = []) ∨
      ∃ (r : Release) (e : SignEffect) (signer : Signer),
        releasing (q, (w.machine.run lib q c).response) = true ∧
        w.release lib q c (w.machine.run lib q c).response = [r] ∧
        (w.machine.run lib q c).machine.service =
          (w.machine.service.advanceSigner e).pin e.issue q.k ∧
        w.machine.service.sign lib q c = .ok e ∧
        w.machine.service.users[e.owner]? = some signer ∧ r.Genuine lib ∧
        r = ⟨w.process, e.owner, signer.x, e.issue, q.k, signer.nextCounter e.issue, e.signed,
          (w.machine.run lib q c).response.signature⟩ := by
  by_cases hrel : operationOf q.op = .sign ∧ (w.machine.run lib q c).response.ok = true
  · right
    obtain ⟨hop, hok⟩ := hrel
    obtain ⟨e, enc, hsign, hmarshal, hsignature, hservice⟩ :=
      run_sign_ok hop ((Outcome.response_ok _).1 hok)
    obtain ⟨signer, hsigner, hlt, _, hmade⟩ := Service.sign_signer hsign
    refine ⟨_, e, signer, by simp [releasing, hop, hok], ?_, hservice, hsign, hsigner,
      ⟨hlt, hmade, enc, hmarshal, ?_⟩, rfl⟩
    · rw [World.release, if_pos ⟨hop, hok⟩, hsign]
      simp only [hsigner, Option.map_some, Option.toList_some]
    · simpa using hsignature
  · left
    refine ⟨?_, if_neg hrel⟩
    rw [not_and, Bool.not_eq_true] at hrel
    simpa only [releasing, Bool.and_eq_false_imp, decide_eq_true_eq] using hrel

/-! ## The invariant -/

structure World.QuotaInv (lib : GnarkCrypto) (w : World zk) : Prop where
  genuine : ∀ r ∈ w.releases, r.Genuine lib
  acked : ∀ r ∈ w.releases, ∃ q ∈ w.acked,
    operationOf q.op = .sign ∧ decodeIssue q.issue = .ok r.issue ∧ q.k = r.k
  past : ∀ r ∈ w.releases, r.process ≤ w.process
  /-- The signer of a release of the running process has moved beyond its counter. -/
  current : ∀ r ∈ w.releases, r.process = w.process → ∃ signer,
    w.machine.service.users[r.owner]? = some signer ∧ signer.x = r.secret ∧
      r.counter < signer.nextCounter r.issue
  distinct : w.releases.Pairwise fun r r' =>
    r.SameSigner r' → r.secret = r'.secret ∧ r.counter ≠ r'.counter
  envelopes : w.releases.map (·.envelope) = (w.answers.filter releasing).map (·.2.signature)

theorem World.QuotaInv.idle (path : StatePath) : (World.idle zk path).QuotaInv lib where
  genuine := by simp [World.idle]
  acked := by simp [World.idle]
  past := by simp [World.idle]
  current := by simp [World.idle]
  distinct := List.Pairwise.nil
  envelopes := rfl

/-- A signer that moved on stays beyond the counters of its releases. -/
theorem World.QuotaInv.current_later {w : World zk} (h : w.QuotaInv lib) {s : Service zk}
    (hlater : ∀ (user : String) (signer : Signer), w.machine.service.users[user]? = some signer →
      ∃ signer', s.users[user]? = some signer' ∧ signer.Later signer') {r : Release}
    (hr : r ∈ w.releases) (hprocess : r.process = w.process) :
    ∃ signer, s.users[r.owner]? = some signer ∧ signer.x = r.secret ∧
      r.counter < signer.nextCounter r.issue := by
  obtain ⟨signer, hsigner, hx, hlt⟩ := h.current r hr hprocess
  obtain ⟨signer', hsigner', hx', hle⟩ := hlater _ _ hsigner
  exact ⟨signer', hsigner', hx'.trans hx, UInt32.lt_of_lt_of_le hlt (hle r.issue)⟩

theorem RunStep.signer_later {m : Machine zk} {q : Request} {c : Choices} {o : Outcome zk}
    (h : RunStep lib m q c o) (user : String) (signer : Signer)
    (huser : m.service.users[user]? = some signer) :
    ∃ signer', o.machine.service.users[user]? = some signer' ∧ signer.Later signer' := by
  rcases h.change with hsame | hchange
  · rw [hsame]
    exact ⟨signer, huser, .refl _⟩
  · exact hchange.signer_later huser

theorem World.mem_acked_answer {w : World zk} {m : Machine zk} {q q' : Request} {r : Response}
    {releases : List Release} (h : q' ∈ w.acked) :
    q' ∈ World.acked
      { w with machine := m, answers := (q, r) :: w.answers, releases := releases } := by
  obtain ⟨r', hr', hok⟩ := World.mem_acked.1 h
  exact World.mem_acked.2 ⟨r', List.mem_cons_of_mem _ hr', hok⟩

theorem World.QuotaInv.answer {w : World zk} (h : w.QuotaInv lib) (q : Request) (c : Choices) :
    World.QuotaInv lib
      { w with
        machine := (w.machine.run lib q c).machine
        answers := (q, (w.machine.run lib q c).response) :: w.answers
        releases := w.release lib q c (w.machine.run lib q c).response ++ w.releases } := by
  have hlater := (@run_step lib zk w.machine q c).signer_later
  rcases @World.release_cases lib zk w q c with
    ⟨hnot, hnone⟩ | ⟨r, e, signer, hrel, hone, hservice, hsign, hsigner, hgenuine, hr⟩
  · rw [hnone]
    refine ⟨h.genuine, ?_, h.past, fun r hr => h.current_later hlater hr, h.distinct, ?_⟩
    · intro r hr
      obtain ⟨q', hq', hsign⟩ := h.acked r hr
      exact ⟨q', World.mem_acked_answer hq', hsign⟩
    · simpa [hnot] using h.envelopes
  · rw [hone]
    obtain ⟨hop, hok⟩ : operationOf q.op = .sign ∧ (w.machine.run lib q c).response.ok = true := by
      simpa only [releasing, Bool.and_eq_true, decide_eq_true_eq] using hrel
    refine ⟨?_, ?_, ?_, ?_, ?_, ?_⟩
    · exact List.forall_mem_cons.2 ⟨hgenuine, h.genuine⟩
    · refine List.forall_mem_cons.2 ⟨⟨q, ?_, hop, ?_, ?_⟩, ?_⟩
      · exact World.mem_acked.2 ⟨_, List.mem_cons_self, hok⟩
      · rw [hr]
        exact (Service.sign_issue hsign).1
      · rw [hr]
      · intro r' hr'
        obtain ⟨q', hq', hsign'⟩ := h.acked r' hr'
        exact ⟨q', World.mem_acked_answer hq', hsign'⟩
    · exact List.forall_mem_cons.2 ⟨by rw [hr], h.past⟩
    · refine List.forall_mem_cons.2 ⟨fun _ => ?_, fun r' hr' => h.current_later hlater hr'⟩
      -- the counter of the new release is the one its signer just left
      obtain ⟨old, hold, hlt, hadvanced, _⟩ := Service.sign_signer hsign
      obtain rfl : old = signer := Option.some.inj (hold.symm.trans hsigner)
      refine ⟨e.signer, ?_, ?_, ?_⟩
      · rw [hservice, hr]
        exact ExtTreeMap.getElem?_insert_self
      · rw [hadvanced, hr]
      · rw [hadvanced, hr, Signer.nextCounter_insert, UInt32.lt_iff_toNat_lt, toNat_succ_of_lt hlt]
        exact Nat.lt_succ_self _
    · refine List.pairwise_cons.2 ⟨?_, h.distinct⟩
      intro r' hr' hsame
      obtain ⟨hprocess, howner, hissue⟩ := hsame
      have hnow : r'.process = w.process := by rw [← hprocess, hr]
      obtain ⟨old, hold, hx, hlt⟩ := h.current r' hr' hnow
      rw [← howner, hr] at hold
      obtain rfl : old = signer := Option.some.inj (hold.symm.trans hsigner)
      refine ⟨by rw [← hx, hr], ?_⟩
      rw [hr] at hissue ⊢
      rw [← hissue] at hlt
      exact (UInt32.ne_of_lt hlt).symm
    · simp [hrel, h.envelopes, hr]

theorem World.QuotaInv.step {w w' : World zk} (hstep : WorldStep lib w w') (h : w.QuotaInv lib) :
    w'.QuotaInv lib := by
  cases hstep with
  | same => exact h
  | refuse _ _ => exact ⟨h.genuine, h.acked, h.past, h.current, h.distinct, h.envelopes⟩
  | restart _ _ =>
      refine ⟨h.genuine, h.acked, ?_, ?_, h.distinct, h.envelopes⟩
      · intro r hr
        exact (h.past r hr).trans (Nat.le_succ _)
      · -- the signers are gone, and with them the process their releases belong to
        intro r hr hprocess
        have := h.past r hr
        dsimp only at hprocess
        omega
  | answer q c => exact h.answer q c
  | loadSetup hload =>
      obtain ⟨_, l, _, rfl⟩ := Service.loadSetup_eq_ok.1 hload
      exact ⟨h.genuine, h.acked, h.past, h.current, h.distinct, h.envelopes⟩

theorem World.QuotaInv.after (path : StatePath) (events : List (ServiceEvent lib zk)) :
    (World.after path events).QuotaInv lib :=
  World.after_invariant _ (.idle path) (fun _ _ hstep h => h.step hstep) events

/-! ## What holds of the releases of a run -/

/-- Items told apart by numbers below a bound are at most that many. -/
theorem length_le_of_distinct {α : Type} {l : List α} {f : α → UInt32} {k : UInt32}
    (hdistinct : l.Pairwise fun a b => f a ≠ f b) (hbelow : ∀ a ∈ l, f a < k) :
    l.length ≤ k.toNat := by
  have hnodup : (l.map fun a => (f a).toNat).Nodup := by
    apply List.Pairwise.map _ _ hdistinct
    intro a b hne heq
    exact hne (UInt32.toNat_inj.1 heq)
  have hsub : (l.map fun a => (f a).toNat) ⊆ List.range k.toNat := by
    intro n hn
    obtain ⟨a, ha, rfl⟩ := List.mem_map.1 hn
    exact List.mem_range.2 (UInt32.lt_iff_toNat_lt.1 (hbelow a ha))
  simpa using (hnodup.subperm hsub).length_le

/-- The quota of a release is the one in the ledger. -/
theorem World.QuotaInv.pinned {path : StatePath} {w : World zk} (h : w.QuotaInv lib)
    (hledger : w.LedgerInv path) {r : Release} (hr : r ∈ w.releases) :
    w.machine.service.policies[r.issue]? = some r.k := by
  obtain ⟨q, hq, hop, hissue, hk⟩ := h.acked r hr
  have hrecords := hledger.memory q hq
  rw [Ledger.Records, hop] at hrecords
  obtain ⟨issue, hissue', hpolicy⟩ := hrecords
  obtain rfl : r.issue = issue := Except.ok.inj (hissue.symm.trans hissue')
  rw [← hk]
  exact hpolicy

/-- Serial numbers of one signer for one issue tell its counters apart. -/
theorem Release.Genuine.serial_ne {r r' : Release} (h : r.Genuine lib) (h' : r'.Genuine lib)
    (hissue : r.issue = r'.issue) (hsecret : r.secret = r'.secret) (hne : r.counter ≠ r'.counter) :
    r.signed.statement.s ≠ r'.signed.statement.s := by
  obtain ⟨p, accounts, i, d, md, ts, w, hmake⟩ := h.made
  obtain ⟨p', accounts', i', d', md', ts', w', hmake'⟩ := h'.made
  obtain ⟨s, t, b, υ, ρ, htags⟩ := ((makeStatement_eq_ok lib).1 hmake).tags
  obtain ⟨s', t', b', υ', ρ', htags'⟩ := ((makeStatement_eq_ok lib).1 hmake').tags
  rw [← hissue, ← hsecret] at htags'
  exact mt (htags.s_inj htags').1 hne

/-- All signatures a run releases for one issue carry one quota; those of one signer use distinct
counters below it and have distinct serial numbers, so there are at most as many as the quota says,
whatever failed and was restarted in between. -/
theorem releases_within_quota (path : StatePath) (events : List (ServiceEvent lib zk)) :
    (World.after path events).releases.map (·.envelope) =
        ((World.after path events).answers.filter releasing).map (·.2.signature) ∧
      (∀ r ∈ (World.after path events).releases, r.Genuine lib ∧
        r.signed.statement.issue = r.issue ∧ r.signed.statement.k = r.k) ∧
      (∀ r ∈ (World.after path events).releases, ∀ r' ∈ (World.after path events).releases,
        r.issue = r'.issue → r.k = r'.k) ∧
      ((World.after path events).releases.Pairwise fun r r' => r.SameSigner r' →
        r.counter ≠ r'.counter ∧ r.signed.statement.s ≠ r'.signed.statement.s) ∧
      ∀ r ∈ (World.after path events).releases,
        ((World.after path events).releases.filter fun r' => r.SameSigner r').length ≤
          r.k.toNat := by
  have hledger := World.LedgerInv.after path events
  have hinv := World.QuotaInv.after path events
  -- the first release of an issue pins its quota and the ledger never changes a pin
  have hsameK : ∀ r ∈ (World.after path events).releases,
      ∀ r' ∈ (World.after path events).releases, r.issue = r'.issue → r.k = r'.k := by
    intro r hr r' hr' hissue
    have hpinned := hinv.pinned hledger hr
    rw [hissue, hinv.pinned hledger hr'] at hpinned
    exact (Option.some.inj hpinned).symm
  refine ⟨hinv.envelopes, ?_, hsameK, ?_, ?_⟩
  · intro r hr
    obtain ⟨_, _, _, _, _, _, _, hmake⟩ := (hinv.genuine r hr).made
    have hmade := (makeStatement_eq_ok lib).1 hmake
    exact ⟨hinv.genuine r hr, hmade.issue_eq, hmade.k_eq⟩
  · refine hinv.distinct.imp_of_mem ?_
    intro r r' hr hr' hpair hsame
    obtain ⟨hsecret, hne⟩ := hpair hsame
    exact ⟨hne, (hinv.genuine r hr).serial_ne (hinv.genuine r' hr') hsame.2.2 hsecret hne⟩
  · intro r hr
    -- distinct counters below the quota
    apply length_le_of_distinct (f := Release.counter)
    · refine (hinv.distinct.filter _).imp_of_mem ?_
      intro a b ha hb hpair
      have hra : r.SameSigner a := by simpa using (List.mem_filter.1 ha).2
      have hrb : r.SameSigner b := by simpa using (List.mem_filter.1 hb).2
      exact (hpair ⟨hra.1.symm.trans hrb.1, hra.2.1.symm.trans hrb.2.1,
        hra.2.2.symm.trans hrb.2.2⟩).2
    · intro a ha
      obtain ⟨hmem, hsame⟩ := List.mem_filter.1 ha
      have hissue : r.issue = a.issue := by
        have hra : r.SameSigner a := by simpa using hsame
        exact hra.2.2
      rw [hsameK r hr a hmem hissue]
      exact (hinv.genuine a hmem).below

end Lktrs.NativeProof
