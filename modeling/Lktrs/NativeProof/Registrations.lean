import Lktrs.NativeProof.Snapshots
import Lktrs.NativeProof.Tracing

/-!
# Registries and revocation

A registry accepts a list of registrations exactly when users and trace keys
correspond one to one and no account is registered twice
(`newRegistry_iff`). The condition speaks of pairs of entries only, so neither
acceptance nor the answer of `resolve` depends on the order in which the entries
arrive.

Revoking a user filters the ring once, by the handles of the user's entries. On
a reachable snapshot this is the same as one `exit` for each of the user's
accounts in the ring, whatever their order (`revocation_exits`).
-/

set_option autoImplicit false

namespace Lktrs.NativeProof

open Lktrs.Foundation
open Std (ExtTreeMap)

variable {lib : GnarkCrypto}

/-! ## Acceptance -/

variable (lib) in
/-- An entry that can be registered on its own. -/
structure Registration.WellFormed (e : Registration) : Prop where
  user : e.userID ≠ ""
  exponent : e.account.d ≠ none
  account : validateAccount lib e.account = .ok ()
  handle_ne : handle e.account ≠ 0

variable (lib) in
/-- Two entries agree on who owns their trace keys. -/
def Registration.Agree (e f : Registration) : Prop :=
  e.userID = f.userID ↔ registeredTraceKey lib e.account = registeredTraceKey lib f.account

theorem Registration.WellFormed.member_eq {e : Registration} (h : e.WellFormed lib) :
    member lib e.account = .ok (handle e.account) :=
  (member_eq_ok lib).2 ⟨h.account, h.handle_ne, rfl⟩

/-- What a scan remembers comes from the entries it has seen. -/
structure RegistryScan.From (lib : GnarkCrypto) (scan : RegistryScan) (before : List Registration) :
    Prop where
  seen : ∀ m ∈ scan.seen, ∃ e ∈ before, m = handle e.account
  owner : ∀ (key : List UInt8) (user : String), scan.traceOwners[key]? = some user →
    ∃ e ∈ before, key = traceText lib e ∧ user = e.userID
  key : ∀ (user : String) (key : List UInt8), scan.userKeys[user]? = some key →
    ∃ e ∈ before, user = e.userID ∧ key = traceText lib e

theorem RegistryScan.from_nil : RegistryScan.From lib ⟨[], ∅, ∅⟩ [] := by
  refine ⟨?_, ?_, ?_⟩ <;> simp

/-- An entry that agrees with every entry before is accepted. -/
theorem registerEntry_of_agree {scan : RegistryScan} {before : List Registration}
    {e : Registration} (hfrom : scan.From lib before) (he : e.WellFormed lib)
    (hnew : ∀ f ∈ before, handle f.account ≠ handle e.account)
    (hagree : ∀ f ∈ before, f.Agree lib e) :
    registerEntry lib scan e = .ok
      { seen := handle e.account :: scan.seen
        traceOwners := scan.traceOwners.insert (traceText lib e) e.userID
        userKeys := scan.userKeys.insert e.userID (traceText lib e) } := by
  -- the three lookups find only entries of the list, with which the new one agrees
  have hseen : handle e.account ∉ scan.seen := by
    intro hmem
    obtain ⟨f, hf, heq⟩ := hfrom.seen _ hmem
    exact hnew f hf heq.symm
  have howner : ¬ scan.traceOwners[traceText lib e]?.any (· ≠ e.userID) = true := by
    simp only [Option.any_eq_true, decide_eq_true_eq, not_exists, not_and, not_not]
    intro user huser
    obtain ⟨f, hf, hkey, rfl⟩ := hfrom.owner _ _ huser
    exact (hagree f hf).2 (encodeSecpPoint_inj hkey).symm
  have hkey : ¬ scan.userKeys[e.userID]?.any (· ≠ traceText lib e) = true := by
    simp only [Option.any_eq_true, decide_eq_true_eq, not_exists, not_and, not_not]
    intro key hstored
    obtain ⟨f, hf, huser, rfl⟩ := hfrom.key _ _ hstored
    rw [traceText, traceText, (hagree f hf).1 huser.symm]
  have hform : ¬ (e.userID = "" ∨ e.account.d = none) := by
    rw [not_or]
    exact ⟨he.user, he.exponent⟩
  rw [registerEntry, rejectIf_of_not hform, ok_bind, he.account, ok_bind, he.member_eq, ok_bind,
    rejectIf_of_not hseen, ok_bind]
  rw [traceText] at howner hkey
  dsimp only
  rw [rejectIf_of_not howner, ok_bind, rejectIf_of_not hkey, ok_bind]
  rfl

/-- Recording an entry remembers nothing else. -/
theorem RegistryScan.from_step {scan : RegistryScan} {before : List Registration}
    {e : Registration} (hfrom : scan.From lib before) :
    RegistryScan.From lib
      { seen := handle e.account :: scan.seen
        traceOwners := scan.traceOwners.insert (traceText lib e) e.userID
        userKeys := scan.userKeys.insert e.userID (traceText lib e) } (before ++ [e]) := by
  have hlast : e ∈ before ++ [e] := by simp
  have hearlier : ∀ {f : Registration}, f ∈ before → f ∈ before ++ [e] :=
    fun hf => List.mem_append_left _ hf
  refine ⟨?_, ?_, ?_⟩
  · intro m hm
    rcases List.mem_cons.1 hm with rfl | hm
    · exact ⟨e, hlast, rfl⟩
    · obtain ⟨f, hf, heq⟩ := hfrom.seen m hm
      exact ⟨f, hearlier hf, heq⟩
  · intro key user h
    simp only [ExtTreeMap.getElem?_insert] at h
    split at h
    · rename_i hcmp
      cases h
      exact ⟨e, hlast, (Std.LawfulEqCmp.eq_of_compare hcmp).symm, rfl⟩
    · obtain ⟨f, hf, heq⟩ := hfrom.owner key user h
      exact ⟨f, hearlier hf, heq⟩
  · intro user key h
    simp only [ExtTreeMap.getElem?_insert] at h
    split at h
    · rename_i hcmp
      cases h
      exact ⟨e, hlast, (Std.LawfulEqCmp.eq_of_compare hcmp).symm, rfl⟩
    · obtain ⟨f, hf, heq⟩ := hfrom.key user key h
      exact ⟨f, hearlier hf, heq⟩

/-- The loop accepts entries that agree with each other and with those before. -/
theorem registryScan_of_agree (entries : List Registration) :
    ∀ {scan : RegistryScan} {before : List Registration}, scan.From lib before →
      (∀ e ∈ entries, e.WellFormed lib) →
      ((before ++ entries).map fun e => handle e.account).Nodup →
      (∀ e ∈ before ++ entries, ∀ f ∈ before ++ entries, e.Agree lib f) →
      ∃ scan', entries.foldlM (registerEntry lib) scan = .ok scan' := by
  induction entries with
  | nil =>
      intro scan before _ _ _ _
      exact ⟨scan, rfl⟩
  | cons e entries ih =>
      intro scan before hfrom hform hnodup hagree
      obtain ⟨he, hform⟩ := List.forall_mem_cons.1 hform
      -- the entries before and this one are pairs of the whole list
      have hnew : ∀ f ∈ before, handle f.account ≠ handle e.account := by
        intro f hf
        rw [List.map_append, List.map_cons, List.nodup_append] at hnodup
        exact hnodup.2.2 _ (List.mem_map_of_mem hf) _ (List.mem_cons_self ..)
      have hbefore : ∀ f ∈ before, f.Agree lib e := by
        intro f hf
        exact hagree f (List.mem_append_left _ hf) e (by simp)
      rw [List.foldlM_cons, registerEntry_of_agree hfrom he hnew hbefore, ok_bind]
      rw [List.append_cons] at hnodup hagree
      exact ih (RegistryScan.from_step hfrom) hform hnodup hagree

theorem registryScan_user {entries : List Registration} :
    ∀ {scan scan' : RegistryScan}, entries.foldlM (registerEntry lib) scan = .ok scan' →
      ∀ e ∈ entries, e.userID ≠ "" := by
  induction entries with
  | nil =>
      intro scan scan' _ e he
      cases he
  | cons e entries ih =>
      intro scan scan' h
      rw [List.foldlM_cons, bind_eq_ok] at h
      obtain ⟨mid, hstep, hrest⟩ := h
      simp only [registerEntry, bind_eq_ok, rejectIf_eq_ok, not_or] at hstep
      obtain ⟨_, ⟨huser, _⟩, _⟩ := hstep
      exact List.forall_mem_cons.2 ⟨huser, ih hrest⟩

/-- The lists a registry accepts: the condition is on entries and pairs of entries only. -/
theorem newRegistry_iff {entries : List Registration} :
    (∃ registry, newRegistry lib entries = .ok registry) ↔
      entries ≠ [] ∧ (∀ e ∈ entries, e.WellFormed lib) ∧
        (entries.map fun e => handle e.account).Nodup ∧
        ∀ e ∈ entries, ∀ f ∈ entries, e.Agree lib f := by
  constructor
  · rintro ⟨registry, h⟩
    obtain ⟨hmembers, hnodup, hagree⟩ := registry_consistent h
    simp only [newRegistry, bind_eq_ok, rejectIf_eq_ok, List.length_eq_zero_iff] at h
    obtain ⟨_, hne, scan, hscan, _⟩ := h
    refine ⟨hne, ?_, hnodup, hagree⟩
    intro e he
    obtain ⟨hvalid, hhandle, _⟩ := (member_eq_ok lib).1 (hmembers e he)
    obtain ⟨⟨d, κ, hentry⟩, _, _⟩ := RegistryScan.holds_of_mem hscan e he
    refine ⟨registryScan_user hscan e he, ?_, hvalid, hhandle⟩
    rw [hentry.d_eq]
    exact Option.some_ne_none d
  · rintro ⟨hne, hform, hnodup, hagree⟩
    obtain ⟨scan, hscan⟩ := registryScan_of_agree entries RegistryScan.from_nil hform hnodup hagree
    have hlen : ¬ entries.length = 0 := by simpa using hne
    refine ⟨⟨entries⟩, ?_⟩
    rw [newRegistry, rejectIf_of_not hlen, ok_bind, hscan]
    rfl

theorem newRegistry_perm {entries entries' : List Registration} (hperm : entries'.Perm entries)
    (h : ∃ registry, newRegistry lib entries = .ok registry) :
    ∃ registry', newRegistry lib entries' = .ok registry' := by
  obtain ⟨hne, hform, hnodup, hagree⟩ := newRegistry_iff.1 h
  refine newRegistry_iff.2 ⟨?_, ?_, ?_, ?_⟩
  · rintro rfl
    exact hne hperm.nil_eq.symm
  · intro e he
    exact hform e (hperm.mem_iff.1 he)
  · exact (hperm.map _).nodup_iff.2 hnodup
  · intro e he f hf
    exact hagree e (hperm.mem_iff.1 he) f (hperm.mem_iff.1 hf)

/-! ## Resolution -/

section Resolution

variable {entries : List Registration} {registry : Registry}

/-- `resolve` answers with the user whose entries have the trace key. -/
theorem resolve_iff (hreg : newRegistry lib entries = .ok registry) {ux : Secp256k1G1}
    {user : String} :
    registry.resolve lib ux = .ok user ↔
      ∃ e ∈ entries, e.userID = user ∧ registeredTraceKey lib e.account = ux := by
  constructor
  · intro h
    obtain ⟨hentries, scan, hscan⟩ := newRegistry_eq_ok hreg
    simp only [Registry.resolve, bind_eq_ok, rejectIf_eq_ok, Bool.not_eq_false] at h
    obtain ⟨_, hgood, h⟩ := h
    obtain ⟨a, _, rfl⟩ := (goodSecp_iff lib).1 hgood
    split at h
    · rename_i e hfound
      rw [hentries] at hfound
      have he := List.mem_of_find?_eq_some hfound
      obtain ⟨⟨d, κ, hentry⟩, _, _⟩ := RegistryScan.holds_of_mem hscan e he
      obtain rfl := (hentry.ownsTraceKey_iff a).1 (List.find?_some hfound)
      exact ⟨e, he, pure_eq_ok.1 h, hentry.key_eq⟩
    · cases h
  · rintro ⟨e, he, rfl, rfl⟩
    exact resolve_registeredTraceKey hreg he

theorem resolve_error (hreg : newRegistry lib entries = .ok registry) {ux : Secp256k1G1}
    (hnone : ∀ e ∈ entries, registeredTraceKey lib e.account ≠ ux) :
    ∃ err, registry.resolve lib ux = .error err := by
  cases h : registry.resolve lib ux with
  | error err => exact ⟨err, rfl⟩
  | ok user =>
      obtain ⟨e, he, _, hkey⟩ := (resolve_iff hreg).1 h
      exact absurd hkey (hnone e he)

/-- Which error `resolve` returns depends on the point only. -/
theorem resolve_error_text {err : String} {ux : Secp256k1G1}
    (h : registry.resolve lib ux = .error err) :
    err = if goodSecp lib ux = true then "unregistered extracted trace key"
      else "invalid extracted trace key" := by
  by_cases hgood : goodSecp lib ux = true
  · rw [Registry.resolve, rejectIf_of_not (by simp [hgood]), ok_bind] at h
    split at h
    · cases h
    · cases h
      rw [if_pos hgood]
  · rw [Registry.resolve, rejectIf_of (by simpa using hgood), error_bind] at h
    cases h
    rw [if_neg hgood]

/-- Two registries of the same entries give every point the same answer. -/
theorem resolve_perm {entries' : List Registration} {registry' : Registry}
    (hreg : newRegistry lib entries = .ok registry)
    (hreg' : newRegistry lib entries' = .ok registry') (hperm : entries'.Perm entries)
    (ux : Secp256k1G1) : registry'.resolve lib ux = registry.resolve lib ux := by
  have hiff : ∀ user, registry'.resolve lib ux = .ok user ↔ registry.resolve lib ux = .ok user := by
    intro user
    simp only [resolve_iff hreg, resolve_iff hreg', hperm.mem_iff]
  cases h : registry.resolve lib ux with
  | ok user => exact (hiff user).2 h
  | error err =>
      cases h' : registry'.resolve lib ux with
      | ok user =>
          rw [(hiff user).1 h'] at h
          cases h
      | error err' => rw [resolve_error_text h, resolve_error_text h']

end Resolution

/-- A registry accepts exactly the nonempty lists of good entries with distinct nonzero handles in
which users and trace keys correspond; hence it accepts every reordering of a list it accepts. An
accepted registry resolves a point to the user of the entries with that trace key and to an error
when there is none, and a reordering of the entries gives every point the same answer. -/
theorem registry_order_independent (entries : List Registration) :
    ((∃ registry, newRegistry lib entries = .ok registry) ↔
      entries ≠ [] ∧ (∀ e ∈ entries, e.WellFormed lib) ∧
        (entries.map fun e => handle e.account).Nodup ∧
        ∀ e ∈ entries, ∀ f ∈ entries, e.userID = f.userID ↔
          registeredTraceKey lib e.account = registeredTraceKey lib f.account) ∧
    (∀ entries' : List Registration, entries'.Perm entries →
      ((∃ registry, newRegistry lib entries' = .ok registry) ↔
        ∃ registry, newRegistry lib entries = .ok registry)) ∧
    ∀ registry, newRegistry lib entries = .ok registry → ∀ ux : Secp256k1G1,
      (∀ user, registry.resolve lib ux = .ok user ↔
        ∃ e ∈ entries, e.userID = user ∧ registeredTraceKey lib e.account = ux) ∧
      ((∀ e ∈ entries, registeredTraceKey lib e.account ≠ ux) →
        ∃ err, registry.resolve lib ux = .error err) ∧
      ∀ (entries' : List Registration) (registry' : Registry), entries'.Perm entries →
        newRegistry lib entries' = .ok registry' →
          registry'.resolve lib ux = registry.resolve lib ux := by
  refine ⟨newRegistry_iff, ?_, ?_⟩
  · intro entries' hperm
    exact ⟨newRegistry_perm hperm.symm, newRegistry_perm hperm⟩
  · intro registry hreg ux
    refine ⟨fun user => resolve_iff hreg, resolve_error hreg, ?_⟩
    intro entries' registry' hperm hreg'
    exact resolve_perm hreg hreg' hperm ux

theorem registry_order_independent_sample :
    ∃ registry, newRegistry exponentLib sampleEntries = .ok registry ∧
      registry.resolve exponentLib (registeredTraceKey exponentLib sampleAccount) = .ok "alice" := by
  obtain ⟨registry, hreg⟩ := sampleEntries_accepted
  have hresolve := (registry_order_independent sampleEntries).2.2 registry hreg
  exact ⟨registry, hreg, ((hresolve _).1 "alice").2 ⟨_, alice_mem_sampleEntries, rfl, rfl⟩⟩

/-! ## Revocation -/

/-- The handles of a user's entries. -/
def handlesOf (user : String) (entries : List Registration) : List ℤ :=
  (entries.filter (·.userID = user)).map fun e => handle e.account

theorem mem_handlesOf {user : String} {entries : List Registration} {m : ℤ} :
    m ∈ handlesOf user entries ↔ ∃ e ∈ entries, e.userID = user ∧ m = handle e.account := by
  simp only [handlesOf, List.mem_map, List.mem_filter, decide_eq_true_eq]
  constructor
  · rintro ⟨e, ⟨he, huser⟩, rfl⟩
    exact ⟨e, he, huser, rfl⟩
  · rintro ⟨e, he, huser, rfl⟩
    exact ⟨e, ⟨he, huser⟩, rfl⟩

theorem revokedMembers_eq (user : String) : ∀ entries : List Registration,
    (∀ e ∈ entries, member lib e.account = .ok (handle e.account)) →
      revokedMembers lib user entries = .ok (handlesOf user entries) := by
  intro entries
  induction entries with
  | nil =>
      intro _
      rfl
  | cons e entries ih =>
      intro hall
      obtain ⟨he, hall⟩ := List.forall_mem_cons.1 hall
      by_cases huser : e.userID = user
      · rw [revokedMembers, if_pos huser, he, ok_bind, ih hall, ok_bind]
        simp [handlesOf, huser, pure, Except.pure]
      · rw [revokedMembers, if_neg huser, ih hall]
        simp [handlesOf, huser]

theorem remainingAccounts_eq (members : List ℤ) : ∀ accounts : List Account,
    (∀ a ∈ accounts, member lib a = .ok (handle a)) →
      remainingAccounts lib members accounts =
        .ok (accounts.filter fun a => handle a ∉ members) := by
  intro accounts
  induction accounts with
  | nil =>
      intro _
      rfl
  | cons a accounts ih =>
      intro hall
      obtain ⟨ha, hall⟩ := List.forall_mem_cons.1 hall
      rw [remainingAccounts, ha, ok_bind, ih hall, ok_bind]
      by_cases hm : handle a ∈ members
      · simp [hm, pure, Except.pure]
      · simp [hm, pure, Except.pure]

/-- Once the registry and the ring are accepted, only an unknown user makes `RevokeUser` fail before
the new ring is accumulated. -/
theorem revokeUser_eq {entries : List Registration} {registry : Registry}
    (hreg : newRegistry lib entries = .ok registry) {ring : Snapshot}
    (hring : ∀ a ∈ ring.accounts, member lib a = .ok (handle a)) (user : String) :
    registry.revokeUser lib ring user =
      if ∀ e ∈ entries, e.userID ≠ user then .error "unregistered user"
      else newSnapshot lib ring.params
        (ring.accounts.filter fun a => handle a ∉ handlesOf user entries) := by
  obtain ⟨hentries, _⟩ := newRegistry_eq_ok hreg
  obtain ⟨hmembers, _, _⟩ := registry_consistent hreg
  rw [Registry.revokeUser, hentries, revokedMembers_eq user entries hmembers, ok_bind]
  have hall : entries.all (·.userID ≠ user) = true ↔ ∀ e ∈ entries, e.userID ≠ user := by
    simp
  by_cases hunknown : ∀ e ∈ entries, e.userID ≠ user
  · rw [rejectIf_of (hall.2 hunknown), error_bind, if_pos hunknown]
  · rw [rejectIf_of_not (mt hall.1 hunknown), ok_bind, remainingAccounts_eq _ _ hring, ok_bind,
      if_neg hunknown]

section Exits

variable {p : Params}

variable (lib) in
/-- Exit handles one after the other. -/
def Snapshot.exitAll (s : Snapshot) (members : List ℤ) : Except String Snapshot :=
  members.foldlM (Snapshot.exit lib) s

/-- An exit of a member rebuilds the snapshot without it. -/
theorem Snapshot.exit_eq_filter {s : Snapshot} (hp : s.params = p)
    (hs : newSnapshot lib p s.accounts = .ok s) {a : Account} (ha : a ∈ s.accounts) :
    s.exit lib (handle a) =
      newSnapshot lib p (s.accounts.filter fun b => handle b ≠ handle a) := by
  obtain ⟨hall, _, _⟩ := newSnapshot_members hs
  have hcanonical : ¬ canonicalNonzero (some (handle a)) bn254Fr = false := by
    rw [member_canonical lib (hall a ha)]
    exact Bool.noConfusion
  have hfound : ¬ decide (handle a ∈ s.accounts.map handle) = false := by
    rw [decide_eq_false_iff_not, not_not]
    exact List.mem_map_of_mem ha
  rw [Snapshot.exit, rejectIf_of_not hcanonical, ok_bind, dropMember_eq _ _ hall, ok_bind]
  dsimp only
  rw [rejectIf_of_not hfound, ok_bind, hp]

/-- Exits of distinct members are one filter. -/
theorem Snapshot.exitAll_eq (leaving : List Account) : ∀ {s : Snapshot}, s.params = p →
    newSnapshot lib p s.accounts = .ok s → (∀ a ∈ leaving, a ∈ s.accounts) →
    (leaving.map handle).Nodup →
      s.exitAll lib (leaving.map handle) =
        newSnapshot lib p (s.accounts.filter fun b => handle b ∉ leaving.map handle) := by
  induction leaving with
  | nil =>
      intro s _ hs _ _
      have hkeep : (s.accounts.filter fun b => handle b ∉ List.map handle []) = s.accounts := by
        apply List.filter_eq_self.2
        intro b _
        exact decide_eq_true List.not_mem_nil
      rw [hkeep, hs]
      rfl
  | cons a leaving ih =>
      intro s hp hs hmem hnodup
      obtain ⟨ha, hmem⟩ := List.forall_mem_cons.1 hmem
      rw [List.map_cons, List.nodup_cons] at hnodup
      obtain ⟨hnotin, hnodup⟩ := hnodup
      obtain ⟨t, ht⟩ := Snapshot.exit_total hp hs ha
      have hfilter := Snapshot.exit_eq_filter hp hs ha
      rw [ht] at hfilter
      obtain ⟨htp, hta, hts⟩ := newSnapshot_fields hfilter.symm
      -- the accounts still to leave are not the one that left
      have hstay : ∀ b ∈ leaving, b ∈ t.accounts := by
        intro b hb
        rw [hta]
        refine List.mem_filter.2 ⟨hmem b hb, decide_eq_true ?_⟩
        intro heq
        exact hnotin (heq ▸ List.mem_map_of_mem hb)
      have hcons : s.exitAll lib ((a :: leaving).map handle) =
          s.exit lib (handle a) >>= fun s => s.exitAll lib (leaving.map handle) := by
        simp only [Snapshot.exitAll, List.map_cons, List.foldlM_cons]
      have hsame : (s.accounts.filter fun b => handle b ≠ handle a).filter
            (fun b => handle b ∉ leaving.map handle) =
          s.accounts.filter fun b => handle b ∉ (a :: leaving).map handle := by
        rw [List.filter_filter]
        apply List.filter_congr
        intro b _
        simp only [List.map_cons, List.mem_cons, not_or, Bool.decide_and, ne_eq]
        exact Bool.and_comm _ _
      rw [hcons, ht, ok_bind, ih htp hts hstay hnodup, hta, hsame]

end Exits

/-- On a reachable snapshot revocation fails exactly for a user without an entry. Otherwise it takes
out the accounts with one of the user's handles, and this is what one exit for each of them gives, in
any order. -/
theorem revocation_exits {entries : List Registration} {registry : Registry}
    (hreg : newRegistry lib entries = .ok registry) {p : Params} {ring : Snapshot}
    (hring : ring.Reachable lib p) (user : String) :
    ((∃ err, registry.revokeUser lib ring user = .error err) ↔ ∀ e ∈ entries, e.userID ≠ user) ∧
    (∀ a ∈ ring.accounts, member lib a = .ok (handle a)) ∧
    (∀ e ∈ entries, member lib e.account = .ok (handle e.account)) ∧
    ((∃ e ∈ entries, e.userID = user) →
      ∃ s, registry.revokeUser lib ring user = .ok s ∧
        s.accounts = (ring.accounts.filter fun a =>
          ∀ e ∈ entries, e.userID = user → handle a ≠ handle e.account) ∧
        ∀ leaving : List Account,
          leaving.Perm (ring.accounts.filter fun a =>
            ∃ e ∈ entries, e.userID = user ∧ handle a = handle e.account) →
          ring.exitAll lib (leaving.map handle) = .ok s) := by
  obtain ⟨hp, hrebuilt⟩ := hring.rebuilt
  obtain ⟨hall, hnodup, _⟩ := newSnapshot_members hrebuilt
  obtain ⟨hmembers, _, _⟩ := registry_consistent hreg
  have hrevoke := revokeUser_eq hreg hall user
  rw [hp] at hrevoke
  have hsub : (ring.accounts.filter fun a => handle a ∉ handlesOf user entries).Subperm
      ring.accounts := List.filter_sublist.subperm
  obtain ⟨s, hs⟩ := newSnapshot_subperm lib hrebuilt hsub
  obtain ⟨_, hsa, _⟩ := newSnapshot_fields hs
  refine ⟨?_, hall, hmembers, ?_⟩
  · by_cases hunknown : ∀ e ∈ entries, e.userID ≠ user
    · rw [if_pos hunknown] at hrevoke
      exact ⟨fun _ => hunknown, fun _ => ⟨_, hrevoke⟩⟩
    · rw [if_neg hunknown, hs] at hrevoke
      simp [hrevoke, hunknown]
  · rintro ⟨e, he, huser⟩
    have hknown : ¬ ∀ e ∈ entries, e.userID ≠ user := fun h => h e he huser
    rw [if_neg hknown, hs] at hrevoke
    refine ⟨s, hrevoke, ?_, ?_⟩
    · rw [hsa]
      apply List.filter_congr
      intro a _
      rw [decide_eq_decide, mem_handlesOf]
      simp only [not_exists, not_and, ne_eq]
    · intro leaving hperm
      have hfrom : ∀ a ∈ leaving, a ∈ ring.accounts := by
        intro a ha
        exact List.mem_of_mem_filter (hperm.mem_iff.1 ha)
      have hdistinct : (leaving.map handle).Nodup :=
        (hperm.map handle).nodup_iff.2 (hnodup.sublist (List.filter_sublist.map handle))
      rw [Snapshot.exitAll_eq leaving hp hrebuilt hfrom hdistinct, ← hs]
      -- an account of the ring leaves exactly when its handle is one of the user's
      have hsame : (ring.accounts.filter fun b => handle b ∉ leaving.map handle) =
          ring.accounts.filter fun b => handle b ∉ handlesOf user entries := by
        apply List.filter_congr
        intro b hb
        rw [decide_eq_decide, not_iff_not, mem_handlesOf]
        constructor
        · intro hmem
          obtain ⟨a, ha, heq⟩ := List.mem_map.1 hmem
          obtain ⟨f, hf, hfuser, hfeq⟩ := of_decide_eq_true (List.mem_filter.1 (hperm.mem_iff.1 ha)).2
          exact ⟨f, hf, hfuser, heq.symm.trans hfeq⟩
        · rintro ⟨f, hf, hfuser, hfeq⟩
          refine List.mem_map_of_mem (hperm.mem_iff.2 (List.mem_filter.2 ⟨hb, decide_eq_true ?_⟩))
          exact ⟨f, hf, hfuser, hfeq⟩
      rw [hsame]

theorem revocation_exits_sample :
    ∃ registry ring s, newRegistry exponentLib sampleEntries = .ok registry ∧
      newSnapshot exponentLib sampleParams sampleRing = .ok ring ∧
      registry.revokeUser exponentLib ring "alice" = .ok s ∧ s.accounts = [otherAccount] := by
  obtain ⟨registry, hreg⟩ := sampleEntries_accepted
  obtain ⟨v, hv⟩ := sampleRing_accumulates
  have hring := (newSnapshot_eq_ok exponentLib).2 ⟨v, hv, rfl⟩
  obtain ⟨_, _, _, hrevoke⟩ := revocation_exits hreg (.new hring) "alice"
  obtain ⟨s, hs, haccounts, _⟩ := hrevoke ⟨_, alice_mem_sampleEntries, rfl⟩
  refine ⟨registry, _, s, hreg, hring, hs, ?_⟩
  rw [haccounts]
  simp [sampleEntries, sampleRing, sampleRing_handles.1]

end Lktrs.NativeProof
