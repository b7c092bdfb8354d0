import Lktrs.Foundation.Maps
import Lktrs.NativeProof.ExponentModel
import Lktrs.NativeProof.HostCircuit
import Lktrs.NativeProof.Protocol

/-!
# Linking and tracing signatures of one user

Two statements made with one secret for one issue share their pseudonym; their
serial numbers agree exactly when the counters do (`TagFacts.s_inj`); and when
the counters agree but the challenges differ, the elimination in `Trace` returns
the user's trace key (`TagFacts.extractTraceKey_eq`). An accepted registry maps a
trace key to one user (`registry_consistent`), so the pair is attributed to the
signer.
-/

set_option autoImplicit false

namespace Lktrs.NativeProof

open Lktrs.Foundation

variable {lib : GnarkCrypto} {zk : Groth16}

/-! ## The tags of one user -/

section Tags

variable {x : ℤ} {issue : FixedBytes 32} {c c' : UInt32} {st st' : Statement} {s t s' t' : ℤ}
  {b b' : Bn254G1 × Bn254G1 × Bn254G1} {υ υ' : ZMod secp256k1Fr} {r r' : ℤ}

/-- The seeds, the bases and the issue base do not depend on the ring, message or counter. -/
theorem TagFacts.common (h : TagFacts lib x issue c st s t b υ r)
    (h' : TagFacts lib x issue c' st' s' t' b' υ' r') : s = s' ∧ t = t' ∧ b = b' ∧ υ = υ' := by
  have hseeds := Except.ok.inj (h.seeds_eq.symm.trans h'.seeds_eq)
  have hbases := Except.ok.inj (h.bases_eq.symm.trans h'.bases_eq)
  have hissue := Except.ok.inj (h.issueBase_eq.symm.trans h'.issueBase_eq)
  obtain ⟨rfl, rfl⟩ := Prod.mk.inj hseeds
  exact ⟨rfl, rfl, hbases, lib.secp.exp_inj.1 hissue⟩

theorem TagFacts.nym_congr (h : TagFacts lib x issue c st s t b υ r)
    (h' : TagFacts lib x issue c' st' s' t' b' υ' r') : st.nym = st'.nym := by
  obtain ⟨rfl, rfl, rfl, rfl⟩ := h.common h'
  rw [h.nym_eq, h'.nym_eq]

theorem TagFacts.υ_ne (h : TagFacts lib x issue c st s t b υ r) : υ ≠ 0 :=
  (goodSecp_exp lib).1 ((issueBase_eq_ok lib).1 h.issueBase_eq).2

/-- Counters fit the scalar field, so they are told apart by their residues. -/
theorem counter_cast_inj {c c' : UInt32}
    (h : (c.toNat : ZMod secp256k1Fr) = (c'.toNat : ZMod secp256k1Fr)) : c = c' := by
  have hbig : 2 ^ 32 < secp256k1Fr := by decide
  have hval := congrArg ZMod.val h
  rw [ZMod.val_natCast_of_lt (c.toNat_lt.trans hbig),
    ZMod.val_natCast_of_lt (c'.toNat_lt.trans hbig)] at hval
  exact UInt32.toNat_inj.1 hval

/-- Serial numbers of one user and issue agree exactly when the counters agree. -/
theorem TagFacts.s_inj (h : TagFacts lib x issue c st s t b υ r)
    (h' : TagFacts lib x issue c' st' s' t' b' υ' r') : st.s = st'.s ↔ c = c' := by
  obtain ⟨rfl, rfl, rfl, rfl⟩ := h.common h'
  rw [h.s_eq, h'.s_eq, lib.secp.exp_inj]
  constructor
  · intro heq
    have hinv := inv_injective (mul_right_cancel₀ h.υ_ne heq)
    exact counter_cast_inj (by linear_combination hinv)
  · rintro rfl
    rfl

/-- Challenges are canonical, so their residues tell them apart. -/
theorem TagFacts.r_canonical (h : TagFacts lib x issue c st s t b υ r) : 0 < r ∧ r < secp256k1Fr :=
  canonicalNonzero_some.1 (hashScalar_canonical ((challenge_eq_ok lib).1 h.challenge_eq).2.2)

theorem TagFacts.r_diff_eq_zero_iff (h : TagFacts lib x issue c st s t b υ r)
    (h' : TagFacts lib x issue c' st' s' t' b' υ' r') :
    (r' - r) % (secp256k1Fr : ℤ) = 0 ↔ r = r' := by
  obtain ⟨hpos, hlt⟩ := h.r_canonical
  obtain ⟨hpos', hlt'⟩ := h'.r_canonical
  rw [emod_eq_zero_iff, Int.cast_sub, sub_eq_zero]
  constructor
  · intro heq
    exact (eq_of_intCast_eq hpos'.le hlt' hpos.le hlt heq).symm
  · rintro rfl
    rfl

/-- At one counter the tracing tags of equal challenges are equal. -/
theorem TagFacts.t_congr (h : TagFacts lib x issue c st s t b υ r)
    (h' : TagFacts lib x issue c st' s' t' b' υ' r) : st.t = st'.t := by
  obtain ⟨rfl, rfl, rfl, rfl⟩ := h.common h'
  rw [h.t_eq, h'.t_eq]

/-- The elimination returns the trace key of the secret. -/
theorem TagFacts.extractTraceKey_eq (h : TagFacts lib x issue c st s t b υ r)
    (h' : TagFacts lib x issue c st' s' t' b' υ' r') (hne : r ≠ r') :
    extractTraceKey lib st.t st'.t r r' = lib.secp.exp x := by
  obtain ⟨rfl, rfl, rfl, rfl⟩ := h.common h'
  have hdiff : (((r' - r) % (secp256k1Fr : ℤ) : ℤ) : ZMod secp256k1Fr) ≠ 0 := by
    intro hzero
    rw [← emod_eq_zero_iff, Int.emod_emod, h.r_diff_eq_zero_iff h'] at hzero
    exact hne hzero
  rw [extractTraceKey, h.t_eq, h'.t_eq, lib.secp.scalarMultiplication_exp,
    lib.secp.scalarMultiplication_exp, lib.secp.sub_exp, lib.secp.scalarMultiplication_exp,
    cast_secpInverse hdiff, lib.secp.exp_inj]
  rw [intCast_emod] at hdiff ⊢
  rw [inv_mul_eq_iff_eq_mul₀ hdiff]
  push_cast
  ring

end Tags

/-! ## The registry -/

/-- An accepted entry: its exponent, and the trace key its second point was made with. -/
structure RegisteredEntry (lib : GnarkCrypto) (e : Registration) (d : ℤ) (κ : ZMod secp256k1Fr) : Prop where
  d_eq : e.account.d = some d
  d_ne : (d : ZMod secp256k1Fr) ≠ 0
  u_eq : e.account.u = lib.secp.exp d
  y_eq : e.account.y = lib.secp.exp (κ * d)
  key_eq : registeredTraceKey lib e.account = lib.secp.exp κ

/-- The text a registry compares trace keys by. -/
def traceText (lib : GnarkCrypto) (e : Registration) : List UInt8 :=
  encodeSecpPoint (registeredTraceKey lib e.account)

/-- What the loop checked of an entry, and what it recorded. -/
theorem registerEntry_eq_ok {scan scan' : RegistryScan} {e : Registration}
    (h : registerEntry lib scan e = .ok scan') :
    (∃ d κ, RegisteredEntry lib e d κ) ∧
      (∀ owner, scan.traceOwners[traceText lib e]? = some owner → owner = e.userID) ∧
      (∀ key, scan.userKeys[e.userID]? = some key → key = traceText lib e) ∧
      member lib e.account = .ok (handle e.account) ∧ handle e.account ∉ scan.seen ∧
      scan' = { seen := handle e.account :: scan.seen
                traceOwners := scan.traceOwners.insert (traceText lib e) e.userID
                userKeys := scan.userKeys.insert e.userID (traceText lib e) } := by
  simp only [registerEntry, bind_eq_ok, rejectIf_eq_ok, pure_eq_ok, not_or] at h
  obtain ⟨_, ⟨_, hd⟩, _, hvalid, m, hm, _, hseen, _, howner, _, hkey, rfl⟩ := h
  obtain ⟨_, hy, hmeta⟩ := (validateAccount_eq_ok lib).1 hvalid
  obtain ⟨d, hd⟩ := Option.ne_none_iff_exists'.1 hd
  obtain ⟨hcanonical, hu⟩ := hmeta d hd
  have hd0 := cast_ne_zero_of_canonicalNonzero hcanonical
  obtain ⟨η, _, hη⟩ := (goodSecp_iff lib).1 hy
  obtain rfl := member_eq_handle lib hm
  refine ⟨⟨d, (d : ZMod secp256k1Fr)⁻¹ * η, hd, hd0, hu.symm, ?_, ?_⟩, ?_, ?_, hm, hseen, rfl⟩
  · rw [hη, mul_comm, mul_inv_cancel_left₀ hd0]
  · rw [registeredTraceKey, hd, hη, lib.secp.scalarMultiplication_exp]
    simp only [Option.getD_some]
    rw [cast_secpInverse hd0]
  · intro owner hfound
    rw [traceText] at hfound
    simpa [hfound] using howner
  · intro key hfound
    simpa [hfound, traceText] using hkey

/-- What a scan remembers of an entry it accepted. -/
structure RegistryScan.Holds (lib : GnarkCrypto) (scan : RegistryScan) (e : Registration) : Prop where
  registered : ∃ d κ, RegisteredEntry lib e d κ
  owner : scan.traceOwners[traceText lib e]? = some e.userID
  key : scan.userKeys[e.userID]? = some (traceText lib e)

/-- An entry is remembered once it is added, and further entries do not change what is
remembered: a disagreement is refused. -/
theorem RegistryScan.holds_step {scan scan' : RegistryScan} {e : Registration}
    (h : registerEntry lib scan e = .ok scan') :
    scan'.Holds lib e ∧ ∀ f, scan.Holds lib f → scan'.Holds lib f := by
  obtain ⟨hentry, howner, hkey, _, _, rfl⟩ := registerEntry_eq_ok h
  constructor
  · exact ⟨hentry, by simp, by simp⟩
  · intro f hf
    exact ⟨hf.registered, getElem?_insert_of_agree howner hf.owner,
      getElem?_insert_of_agree hkey hf.key⟩

theorem RegistryScan.holds_of_mem {entries : List Registration} :
    ∀ {scan scan' : RegistryScan}, entries.foldlM (registerEntry lib) scan = .ok scan' →
      ∀ e ∈ entries, scan'.Holds lib e := by
  induction entries with
  | nil =>
      intro scan scan' _ e he
      cases he
  | cons e entries ih =>
      intro scan scan' h f hf
      rw [List.foldlM_cons, bind_eq_ok] at h
      obtain ⟨mid, hstep, hrest⟩ := h
      rcases List.mem_cons.1 hf with rfl | hf
      · apply foldlM_invariant (P := fun s => RegistryScan.Holds lib s f) _ hrest
        · exact (RegistryScan.holds_step hstep).1
        · intro s g s' hs
          exact (RegistryScan.holds_step hs).2 f
      · exact ih hrest f hf

/-- The handles of the accepted entries are those seen, and no handle is seen twice. -/
theorem registry_scan_seen {entries : List Registration} :
    ∀ {scan scan' : RegistryScan}, entries.foldlM (registerEntry lib) scan = .ok scan' →
      scan.seen.Nodup →
        scan'.seen.Nodup ∧
        scan'.seen = (entries.map fun e => handle e.account).reverse ++ scan.seen ∧
        ∀ e ∈ entries, member lib e.account = .ok (handle e.account) := by
  induction entries with
  | nil =>
      intro scan scan' h hnodup
      rw [List.foldlM_nil, pure_eq_ok] at h
      subst h
      exact ⟨hnodup, rfl, by simp⟩
  | cons e entries ih =>
      intro scan scan' h hnodup
      rw [List.foldlM_cons, bind_eq_ok] at h
      obtain ⟨mid, hstep, hrest⟩ := h
      obtain ⟨_, _, _, hmember, hnew, rfl⟩ := registerEntry_eq_ok hstep
      obtain ⟨hnodup', hseen, hall⟩ := ih hrest (List.nodup_cons.2 ⟨hnew, hnodup⟩)
      refine ⟨hnodup', ?_, List.forall_mem_cons.2 ⟨hmember, hall⟩⟩
      rw [hseen]
      simp

theorem newRegistry_eq_ok {entries : List Registration} {registry : Registry}
    (h : newRegistry lib entries = .ok registry) :
    registry.entries = entries ∧
      ∃ scan, entries.foldlM (registerEntry lib) ⟨[], ∅, ∅⟩ = .ok scan := by
  simp only [newRegistry, bind_eq_ok, pure_eq_ok] at h
  obtain ⟨_, _, scan, hscan, rfl⟩ := h
  exact ⟨rfl, scan, hscan⟩

/-- In an accepted registry the accounts have distinct handles, and users and trace keys
correspond one to one. -/
theorem registry_consistent {entries : List Registration} {registry : Registry}
    (h : newRegistry lib entries = .ok registry) :
    (∀ e ∈ entries, member lib e.account = .ok (handle e.account)) ∧
      (entries.map fun e => handle e.account).Nodup ∧
      ∀ e ∈ entries, ∀ f ∈ entries, e.userID = f.userID ↔
        registeredTraceKey lib e.account = registeredTraceKey lib f.account := by
  obtain ⟨_, scan, hscan⟩ := newRegistry_eq_ok h
  obtain ⟨hnodup, hseen, hmembers⟩ := registry_scan_seen hscan List.nodup_nil
  rw [hseen, List.append_nil, List.nodup_reverse] at hnodup
  refine ⟨hmembers, hnodup, ?_⟩
  intro e he f hf
  have hrecE := RegistryScan.holds_of_mem hscan e he
  have hrecF := RegistryScan.holds_of_mem hscan f hf
  constructor
  · intro huser
    have hkey := hrecE.key
    rw [huser, hrecF.key, Option.some.injEq] at hkey
    exact (encodeSecpPoint_inj hkey).symm
  · intro hkey
    have howner := hrecE.owner
    rw [traceText, hkey, ← traceText, hrecF.owner, Option.some.injEq] at howner
    exact howner.symm

/-- An entry answers to a trace key exactly when it was made with it. -/
theorem RegisteredEntry.ownsTraceKey_iff {e : Registration} {d : ℤ} {κ : ZMod secp256k1Fr}
    (h : RegisteredEntry lib e d κ) (a : ZMod secp256k1Fr) :
    ownsTraceKey lib (lib.secp.exp a) e = true ↔ a = κ := by
  rw [ownsTraceKey, h.d_eq, h.y_eq, decide_eq_true_eq, Option.getD_some,
    lib.secp.scalarMultiplication_exp, lib.secp.exp_inj]
  constructor
  · intro heq
    exact mul_right_cancel₀ h.d_ne (by linear_combination heq)
  · rintro rfl
    ring

/-- In terms of the secret: an entry answers to the trace key of `x` exactly when its second point
is the first one times `x`. -/
theorem RegisteredEntry.ownsTraceKey_secret {e : Registration} {d : ℤ} {κ : ZMod secp256k1Fr}
    (h : RegisteredEntry lib e d κ) (x : ℤ) :
    ownsTraceKey lib (lib.secp.exp x) e = true ↔
      e.account.y = lib.secp.scalarMultiplication e.account.u x := by
  rw [h.ownsTraceKey_iff, h.u_eq, h.y_eq, lib.secp.scalarMultiplication_exp, lib.secp.exp_inj]
  constructor
  · rintro rfl
    rfl
  · intro heq
    exact mul_right_cancel₀ h.d_ne heq.symm

/-- A registry that holds an account of a user resolves the user's trace key to that user. -/
theorem resolve_traceKey {entries : List Registration} {registry : Registry}
    (hreg : newRegistry lib entries = .ok registry) {e : Registration} (he : e ∈ entries) {x : ℤ}
    (hx : (x : ZMod secp256k1Fr) ≠ 0)
    (hy : e.account.y = lib.secp.scalarMultiplication e.account.u x) :
    registry.resolve lib (lib.secp.exp x) = .ok e.userID := by
  obtain ⟨hentries, scan, hscan⟩ := newRegistry_eq_ok hreg
  have hall := RegistryScan.holds_of_mem hscan
  obtain ⟨⟨d, κ, hentry⟩, howner, _⟩ := hall e he
  have howns : ownsTraceKey lib (lib.secp.exp x) e = true := (hentry.ownsTraceKey_secret x).2 hy
  have hκ : (x : ZMod secp256k1Fr) = κ := (hentry.ownsTraceKey_iff _).1 howns
  obtain ⟨found, hfound⟩ : ∃ found, entries.find? (ownsTraceKey lib (lib.secp.exp x)) = some found := by
    rw [← Option.isSome_iff_exists, List.find?_isSome]
    exact ⟨e, he, howns⟩
  -- whichever entry comes first, its trace key is the same point, so its owner is too
  have hfoundOwns := List.find?_some hfound
  obtain ⟨⟨d', κ', hentry'⟩, howner', _⟩ := hall found (List.mem_of_find?_eq_some hfound)
  have hκ' := (hentry'.ownsTraceKey_iff _).1 hfoundOwns
  rw [traceText, hentry'.key_eq, ← hκ', hκ, ← hentry.key_eq, ← traceText, howner,
    Option.some.injEq] at howner'
  have hgood : ¬ goodSecp lib (lib.secp.exp x) = false := by
    simpa using (goodSecp_exp lib).2 hx
  rw [Registry.resolve, rejectIf_of_not hgood, ok_bind, hentries, hfound, howner']
  rfl

/-- A registry without an account of the secret does not know its trace key. -/
theorem resolve_unregistered {entries : List Registration} {registry : Registry}
    (hreg : newRegistry lib entries = .ok registry) {x : ℤ} (hx : (x : ZMod secp256k1Fr) ≠ 0)
    (hnone : ∀ e ∈ entries, e.account.y ≠ lib.secp.scalarMultiplication e.account.u x) :
    registry.resolve lib (lib.secp.exp x) = .error "unregistered extracted trace key" := by
  obtain ⟨hentries, scan, hscan⟩ := newRegistry_eq_ok hreg
  have hfind : entries.find? (ownsTraceKey lib (lib.secp.exp x)) = none := by
    rw [List.find?_eq_none]
    intro e he howns
    obtain ⟨⟨d, κ, hentry⟩, _, _⟩ := RegistryScan.holds_of_mem hscan e he
    exact hnone e he ((hentry.ownsTraceKey_secret x).1 howns)
  have hgood : ¬ goodSecp lib (lib.secp.exp x) = false := by
    simpa using (goodSecp_exp lib).2 hx
  rw [Registry.resolve, rejectIf_of_not hgood, ok_bind, hentries, hfind]

/-- Every entry's trace key resolves to the entry's user. -/
theorem resolve_registeredTraceKey {entries : List Registration} {registry : Registry}
    (hreg : newRegistry lib entries = .ok registry) {e : Registration} (he : e ∈ entries) :
    registry.resolve lib (registeredTraceKey lib e.account) = .ok e.userID := by
  obtain ⟨_, scan, hscan⟩ := newRegistry_eq_ok hreg
  obtain ⟨⟨d, κ, hentry⟩, _, _⟩ := RegistryScan.holds_of_mem hscan e he
  obtain ⟨hmembers, _, _⟩ := registry_consistent hreg
  obtain ⟨hvalid, _⟩ := (member_eq_ok lib).1 (hmembers e he)
  obtain ⟨_, hy, _⟩ := (validateAccount_eq_ok lib).1 hvalid
  rw [hentry.y_eq, goodSecp_exp lib] at hy
  have hcast : ((κ.val : ℤ) : ZMod secp256k1Fr) = κ := by simp
  have hresolve := resolve_traceKey hreg he (x := κ.val) (by rw [hcast]; exact left_ne_zero_of_mul hy)
    (by rw [hentry.u_eq, hentry.y_eq, lib.secp.scalarMultiplication_exp, hcast])
  rwa [hcast, ← hentry.key_eq] at hresolve

/-! ## Classification -/

/-- A signature of the user with secret `x` for an issue and quota, made at counter `c` and
accepted by the verifier. -/
structure UserSignature (lib : GnarkCrypto) (v : Verifier zk) (x : ℤ) (issue : FixedBytes 32)
    (k : UInt32) (ctx : VerificationContext) (message : List UInt8) (signed : Signed) (c : UInt32) : Prop where
  made : ∃ p accounts i d md ts w,
    makeStatement lib p accounts i x d issue md ts k c = .ok (signed.statement, w)
  verified : v.verify lib ctx message signed = .ok ()

section Classification

variable {v : Verifier zk} {x : ℤ} {issue : FixedBytes 32} {k : UInt32}
  {a b : VerificationContext} {ma mb : List UInt8} {sa sb : Signed} {ca cb : UInt32}

/-- What verification and construction say about a user's signature. -/
theorem UserSignature.facts (h : UserSignature lib v x issue k a ma sa ca) :
    a.issue = issue ∧ a.k = k ∧ ca < k ∧ canonicalNonzero (some x) secp256k1Fr = true ∧
      ∃ s t b υ r, TagFacts lib x issue ca sa.statement s t b υ r := by
  obtain ⟨p, accounts, i, d, md, ts, w, hmake⟩ := h.made
  have hmade := (makeStatement_eq_ok lib).1 hmake
  have hchecked := (check_eq_ok lib).1 ((verify_eq_ok lib).1 h.verified).2.1
  exact ⟨hchecked.issue_eq.symm.trans hmade.issue_eq, hchecked.k_eq.symm.trans hmade.k_eq,
    hmade.counter_lt, hmade.x_canonical, hmade.tags⟩

/-- The secret behind a signature is one that has a trace key. -/
theorem UserSignature.traceKey_eq (h : UserSignature lib v x issue k a ma sa ca) :
    traceKey lib x = .ok (lib.secp.scalarMultiplication lib.secp.generator x) := by
  obtain ⟨_, _, _, hx, _⟩ := h.facts
  simp only [traceKey, bind_eq_ok, rejectIf_eq_ok, pure_eq_ok]
  exact ⟨(), by simp [hx], trivial⟩

theorem UserSignature.link_eq (ha : UserSignature lib v x issue k a ma sa ca)
    (hb : UserSignature lib v x issue k b mb sb cb) : v.link lib a ma sa b mb sb = .ok true := by
  obtain ⟨hissue, _, _, _, s, t, bs, υ, r, htags⟩ := ha.facts
  obtain ⟨hissue', _, _, _, s', t', bs', υ', r', htags'⟩ := hb.facts
  simp only [Verifier.link, ha.verified, hb.verified, ok_bind, pure_eq_ok]
  simp [hissue, hissue', htags.nym_congr htags']

/-- The result of `Trace` on two signatures of one registered user. -/
def traceOutcome (lib : GnarkCrypto) (user : String) (x : ℤ) (sa sb : Signed) (ca cb : UInt32) :
    TraceResult :=
  if ca ≠ cb then { status := .legal }
  else if sa.statement.r = sb.statement.r then { status := .replay }
  else { status := .traced, userID := user, key := lib.secp.scalarMultiplication lib.secp.generator x }

/-- Two signatures of one secret pass all checks of `Trace`; what it answers depends on the counters,
the challenges and what the registry has for the trace key of the secret. -/
theorem UserSignature.traceBody_eq (ha : UserSignature lib v x issue k a ma sa ca)
    (hb : UserSignature lib v x issue k b mb sb cb) (registry : Registry) :
    v.traceBody lib a ma sa b mb sb registry =
      if ca ≠ cb then .ok { status := .legal }
      else if sa.statement.r = sb.statement.r then .ok { status := .replay }
      else (wrapError "trace lookup: " (registry.resolve lib (lib.secp.exp x))).map fun user =>
        { status := .traced, userID := user,
          key := lib.secp.scalarMultiplication lib.secp.generator x } := by
  obtain ⟨hissue, hk, _, _, s, t, bs, υ, r, htags⟩ := ha.facts
  obtain ⟨hissue', hk', _, _, s', t', bs', υ', r', htags'⟩ := hb.facts
  have hsame : ¬ (a.issue ≠ b.issue ∨ a.k ≠ b.k ∨ sa.statement.nym ≠ sb.statement.nym) := by
    simp [hissue, hissue', hk, hk', htags.nym_congr htags']
  simp only [Verifier.traceBody, ha.verified, hb.verified, ok_bind, rejectIf_of_not hsame,
    htags.r_eq, htags'.r_eq, Option.getD_some, ne_eq, htags.s_inj htags', Option.some.injEq,
    htags.r_diff_eq_zero_iff htags']
  by_cases hc : ca = cb
  · subst hc
    by_cases hr : r = r'
    · subst hr
      simp [htags.t_congr htags']
    · simp only [not_true_eq_false, if_false, hr, htags.extractTraceKey_eq htags' hr,
        lib.secp.multiple_eq_exp]
      cases registry.resolve lib (lib.secp.exp x) with
      | ok user => rfl
      | error e => rfl
  · simp [hc]

theorem UserSignature.trace_eq (ha : UserSignature lib v x issue k a ma sa ca)
    (hb : UserSignature lib v x issue k b mb sb cb) {entries : List Registration}
    {registry : Registry} (hreg : newRegistry lib entries = .ok registry) {e : Registration}
    (he : e ∈ entries) (hy : e.account.y = lib.secp.scalarMultiplication e.account.u x) :
    v.trace lib a ma sa b mb sb registry = (traceOutcome lib e.userID x sa sb ca cb, none) := by
  obtain ⟨_, _, _, hx, _⟩ := ha.facts
  have hresolve := resolve_traceKey hreg he (cast_ne_zero_of_canonicalNonzero hx) hy
  have hbody : v.traceBody lib a ma sa b mb sb registry =
      .ok (traceOutcome lib e.userID x sa sb ca cb) := by
    rw [ha.traceBody_eq hb, hresolve, traceOutcome, apply_ite Except.ok, apply_ite Except.ok]
    rfl
  rw [Verifier.trace, hbody]

/-- Signatures of one secret at different counters are no evidence, in whatever registry. -/
theorem UserSignature.trace_legal (ha : UserSignature lib v x issue k a ma sa ca)
    (hb : UserSignature lib v x issue k b mb sb cb) (hne : ca ≠ cb) (registry : Registry) :
    v.trace lib a ma sa b mb sb registry = ({ status := .legal }, none) := by
  rw [Verifier.trace, ha.traceBody_eq hb, if_pos hne]

/-- One counter and one challenge are a replay, in whatever registry. -/
theorem UserSignature.trace_replay (ha : UserSignature lib v x issue k a ma sa ca)
    (hb : UserSignature lib v x issue k b mb sb cb) (hc : ca = cb)
    (hr : sa.statement.r = sb.statement.r) (registry : Registry) :
    v.trace lib a ma sa b mb sb registry = ({ status := .replay }, none) := by
  rw [Verifier.trace, ha.traceBody_eq hb, if_neg (not_not.2 hc), if_pos hr]

/-- Where no account of the secret is registered, a counter used twice is seen but not
attributed. -/
theorem UserSignature.trace_unregistered (ha : UserSignature lib v x issue k a ma sa ca)
    (hb : UserSignature lib v x issue k b mb sb cb) (hc : ca = cb)
    (hr : sa.statement.r ≠ sb.statement.r) {entries : List Registration} {registry : Registry}
    (hreg : newRegistry lib entries = .ok registry)
    (hnone : ∀ e ∈ entries, e.account.y ≠ lib.secp.scalarMultiplication e.account.u x) :
    v.trace lib a ma sa b mb sb registry =
      ({ status := .invalid }, some "trace lookup: unregistered extracted trace key") := by
  obtain ⟨_, _, _, hx, _⟩ := ha.facts
  have hresolve := resolve_unregistered hreg (cast_ne_zero_of_canonicalNonzero hx) hnone
  rw [Verifier.trace, ha.traceBody_eq hb, if_neg (not_not.2 hc), if_neg hr, hresolve]
  rfl

/-- Whoever is named by `Trace` is the user the registry has for the key. -/
theorem Verifier.resolve_of_traced {registry : Registry} {result : TraceResult}
    (h : v.trace lib a ma sa b mb sb registry = (result, none)) (htraced : result.status = .traced) :
    registry.resolve lib result.key = .ok result.userID := by
  unfold Verifier.trace at h
  split at h
  · rename_i found hbody
    obtain rfl : found = result := (Prod.mk.inj h).1
    simp only [Verifier.traceBody, bind_eq_ok] at hbody
    obtain ⟨_, _, _, _, _, _, hbody⟩ := hbody
    split_ifs at hbody with hs hdiff ht
    · rw [← pure_eq_ok.1 hbody] at htraced
      cases htraced
    · rw [← pure_eq_ok.1 hbody] at htraced
      cases htraced
    · rw [bind_eq_ok] at hbody
      obtain ⟨user, hlookup, hbody⟩ := hbody
      rw [← pure_eq_ok.1 hbody]
      exact wrapError_eq_ok.1 hlookup
  · simp at h

/-- The classification is symmetric in the two signatures. -/
theorem traceOutcome_comm (user : String) (x : ℤ) (sa sb : Signed) (ca cb : UInt32) :
    traceOutcome lib user x sa sb ca cb = traceOutcome lib user x sb sa cb ca := by
  simp only [traceOutcome, ne_comm, eq_comm]

/-- Two signatures of a registered user are linked, and traced exactly when they share a counter
but not a challenge; so more than `k` of them with distinct challenges contain a traced pair. -/
theorem trace_classifies {entries : List Registration} {registry : Registry}
    (hreg : newRegistry lib entries = .ok registry) {e : Registration} (he : e ∈ entries)
    (hy : e.account.y = lib.secp.scalarMultiplication e.account.u x) :
    (∀ (a b : VerificationContext) (ma mb : List UInt8) (sa sb : Signed) (ca cb : UInt32),
      UserSignature lib v x issue k a ma sa ca → UserSignature lib v x issue k b mb sb cb →
        v.link lib a ma sa b mb sb = .ok true ∧
        ∃ result, v.trace lib a ma sa b mb sb registry = (result, none) ∧
          v.trace lib b mb sb a ma sa registry = (result, none) ∧
          (result.status = .legal ↔ ca ≠ cb) ∧
          (result.status = .replay ↔ ca = cb ∧ sa.statement.r = sb.statement.r) ∧
          (result.status = .traced ∧ result.userID = e.userID ∧
              result.key = lib.secp.scalarMultiplication lib.secp.generator x ↔
            ca = cb ∧ sa.statement.r ≠ sb.statement.r) ∧
          result.status ≠ .invalid) ∧
    ∀ (n : ℕ) (ctx : Fin n → VerificationContext) (m : Fin n → List UInt8) (sig : Fin n → Signed)
      (c : Fin n → UInt32), k.toNat < n →
      (∀ i, UserSignature lib v x issue k (ctx i) (m i) (sig i) (c i)) →
      (∀ i j, i ≠ j → (sig i).statement.r ≠ (sig j).statement.r) →
        ∃ i j, i ≠ j ∧ v.trace lib (ctx i) (m i) (sig i) (ctx j) (m j) (sig j) registry =
          ({ status := .traced, userID := e.userID,
             key := lib.secp.scalarMultiplication lib.secp.generator x }, none) := by
  refine ⟨?_, ?_⟩
  · intro a b ma mb sa sb ca cb ha hb
    refine ⟨ha.link_eq hb, _, ha.trace_eq hb hreg he hy, ?_, ?_⟩
    · rw [hb.trace_eq ha hreg he hy, traceOutcome_comm]
    · by_cases hc : ca = cb
      · by_cases hr : sa.statement.r = sb.statement.r
        · simp [traceOutcome, hc, hr]
        · simp [traceOutcome, hc, hr]
      · simp [traceOutcome, hc]
  · intro n ctx m sig c hn hsig hr
    -- the counters lie below `k`, so two of the signatures share one
    obtain ⟨i, j, hne, hcounter⟩ := Fintype.exists_ne_map_eq_of_card_lt
      (fun i => (⟨(c i).toNat, UInt32.lt_iff_toNat_lt.1 (hsig i).facts.2.2.1⟩ : Fin k.toNat))
      (by simpa using hn)
    have hc : c i = c j := UInt32.toNat_inj.1 (Fin.mk.inj hcounter)
    refine ⟨i, j, hne, ?_⟩
    rw [(hsig i).trace_eq (hsig j) hreg he hy, traceOutcome, if_neg (by simpa using hc),
      if_neg (hr i j hne)]

end Classification

/-- The sample verifier accepts the sample proof for every statement made for its context. -/
theorem sampleVerifier_accepts {p : Params} {accounts : List Account} {i x d : ℤ}
    {issue : FixedBytes 32} {message : List UInt8} {ts : UInt64} {k c : UInt32} {st : Statement}
    {w : SecretWitness} {ctx : VerificationContext}
    (hctx : newVerificationContext exponentLib p accounts issue k = .ok ctx)
    (hmake : makeStatement exponentLib p accounts i x d issue (sha256 message) ts k c =
      .ok (st, w)) :
    sampleVerifier.verify exponentLib ctx message ⟨st, sampleProof⟩ = .ok () := by
  have hmade := (makeStatement_eq_ok exponentLib).1 hmake
  have hcheck := check_of_makeStatement exponentLib hctx hmade
  obtain ⟨s, t, b, υ, r, htags⟩ := hmade.tags
  obtain ⟨pub, hpub⟩ := publicAssignment_of_issueBase exponentLib (p := ctx.params) htags.r_eq
    (hmade.issue_eq ▸ htags.issueBase_eq)
  obtain ⟨hlength, hpreflight⟩ := sample_evaluated.2
  have hread : sampleGroth16.readProof sampleProofBytes = .ok ((), []) := by
    simp [sampleGroth16]
  exact (verify_eq_ok exponentLib).2
    ⟨⟨rfl, rfl, rfl⟩, hcheck, hlength, hpreflight, (), pub, hread, hpub, rfl⟩

/-- A statement of the sample ring with the sample proof is a signature of the user. -/
theorem sample_userSignature {message : List UInt8} {ctx : VerificationContext} {st : Statement}
    {w : SecretWitness} (hctx : sampleContext = .ok ctx)
    (hmake : sampleStatement message = .ok (st, w)) :
    UserSignature exponentLib sampleVerifier 3 (FixedBytes.zero 32) 2 ctx message
      { statement := st, proof := sampleProof } 1 :=
  ⟨⟨_, _, _, _, _, _, _, hmake⟩, sampleVerifier_accepts hctx hmake⟩

/-- Each account of the sample ring registered for a user of its own. -/
def sampleEntries : List Registration := [⟨"bob", otherAccount⟩, ⟨"alice", sampleAccount⟩]

theorem alice_mem_sampleEntries : (⟨"alice", sampleAccount⟩ : Registration) ∈ sampleEntries := by
  simp [sampleEntries]

theorem sampleEntries_accepted : ∃ registry, newRegistry exponentLib sampleEntries = .ok registry :=
  exists_ok_of_isOk (x := newRegistry exponentLib sampleEntries) (by decide +kernel)

/-- Two messages signed at one counter are traced to the registered user. -/
theorem trace_classifies_sample :
    ∃ registry ctx st st' w w', newRegistry exponentLib sampleEntries = .ok registry ∧
      sampleContext = .ok ctx ∧ sampleStatement [] = .ok (st, w) ∧
      sampleStatement [1] = .ok (st', w') ∧
      sampleVerifier.link exponentLib ctx [] ⟨st, sampleProof⟩ ctx [1] ⟨st', sampleProof⟩ =
        .ok true ∧
      (sampleVerifier.trace exponentLib ctx [] ⟨st, sampleProof⟩ ctx [1] ⟨st', sampleProof⟩
        registry).1.userID = "alice" := by
  obtain ⟨registry, hreg⟩ := sampleEntries_accepted
  obtain ⟨ctx, hctx⟩ := sampleContext_ok
  obtain ⟨st, w, st', w', hmake, hmake', hne⟩ := sampleStatements_ok
  have hkey : sampleAccount.y = exponentLib.secp.scalarMultiplication sampleAccount.u 3 := by
    decide
  obtain ⟨hpairs, _⟩ := trace_classifies (v := sampleVerifier) (k := 2) hreg
    alice_mem_sampleEntries hkey
  obtain ⟨hlink, result, htrace, _, _, _, htraced, _⟩ := hpairs ctx ctx [] [1] _ _ 1 1
    (sample_userSignature hctx hmake) (sample_userSignature hctx hmake')
  refine ⟨registry, ctx, st, st', w, w', hreg, hctx, hmake, hmake', hlink, ?_⟩
  rw [htrace]
  exact (htraced.2 ⟨rfl, hne⟩).2.1

end Lktrs.NativeProof
