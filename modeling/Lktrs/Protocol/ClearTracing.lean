import Lktrs.Protocol.ClearQuota

/-!
# Linking and tracing

`link_clear` and `trace_clear` of `protocol/clear.cpp`. Two accepted signatures of one
user carry the secrets of that user, so they have one pseudonym; their one-time passes
agree exactly when their counters do; and under one counter the masks of their trace
tags cancel against the two challenges, which leaves the power that identifies the user
(`recover_live`). The source then looks for an active account that has this power in its
key. It goes through a hash table, so the loop is stated for every listing of the accounts.
-/

set_option autoImplicit false

namespace Lktrs.Protocol

open Lktrs.Foundation
open Std (ExtTreeMap)

variable {r : ℕ} {G₁ G₂ GT Gp : Type}

/-- What tracing says about two signatures. -/
inductive TraceKind where
  | legal
  | traced
  | replay
  | invalid
deriving Repr, DecidableEq

/-- The result of tracing. -/
structure TraceResult where
  kind : TraceKind := .invalid
  userId : List UInt8 := []
deriving Repr, DecidableEq

namespace ClearProtocol

section Definitions

variable [CommGroup G₁] [CommGroup G₂] [CommGroup GT] [CommGroup Gp] [DecidableEq G₁]
  [DecidableEq GT] [DecidableEq Gp]

/-- `link_clear`. -/
def linkClear (lib : CryptoLibrary G₁ G₂ GT Gp) (p : ClearProtocol r G₁ G₂ Gp)
    (label : RingLabel r Gp) (message1 : List UInt8) (first : ClearSignature r G₁ Gp)
    (message2 : List UInt8) (second : ClearSignature r G₁ Gp) : Except Thrown Bool :=
  andAlso (pure (p.verifyClear lib label message1 first)) <|
    andAlso (pure (p.verifyClear lib label message2 second)) <|
      first.nym.equals pbcTexts second.nym

/-- Challenge, trace tag and timestamp coincide. -/
def replays (first second : ClearSignature r G₁ Gp) : Except Thrown Bool :=
  andAlso (first.challenge.equals pbcTexts second.challenge) <|
    andAlso (first.traceTag.equals gpElementTexts second.traceTag) <|
      pure (decide (first.timestamp = second.timestamp))

/-- The element that two trace tags under different challenges give away. -/
def recover (first second : ClearSignature r G₁ Gp) (r1 r2 difference : GpScalar) :
    Except Thrown (Element Gp) := do
  let left ← gpPow first.traceTag r2
  let right ← gpPow second.traceTag r1
  let right ← gpInverse right
  let numerator ← gpMul left right
  let exponent ← difference.inverse
  gpPow numerator exponent

/-- The loop over the accounts: the user of the first active account whose key is the
recovered element to the exponent of the account. -/
def traceAccounts (recovered : Element Gp) :
    List (List UInt8 × AccountRecord r Gp) → Except Thrown TraceResult
  | [] => pure {}
  | (_, record) :: rest =>
      if record.active = false then traceAccounts recovered rest else do
        let y ← gpPow recovered record.secret.dI
        let found ← y.equals gpElementTexts record.secret.publicKey.yI
        if found then pure ⟨.traced, record.secret.publicKey.userId⟩
        else traceAccounts recovered rest

/-- `trace_clear`; the accounts are visited in the order of the listing. -/
def traceClear (lib : CryptoLibrary G₁ G₂ GT Gp) (p : ClearProtocol r G₁ G₂ Gp)
    (listing : List (List UInt8 × AccountRecord r Gp)) (label : RingLabel r Gp)
    (message1 : List UInt8) (first : ClearSignature r G₁ Gp) (message2 : List UInt8)
    (second : ClearSignature r G₁ Gp) : Except Thrown TraceResult := do
  -- the condition is that of `link_clear`
  let linked ← p.linkClear lib label message1 first message2 second
  if linked = false then pure {} else do
    let samePass ← first.oneTimePass.equals gpElementTexts second.oneTimePass
    if samePass = false then pure ⟨.legal, []⟩ else do
      let replayed ← replays first second
      if replayed then pure ⟨.replay, []⟩ else do
        let r1 ← p.gpChallenge lib first.challenge
        let r2 ← p.gpChallenge lib second.challenge
        let difference ← GpScalar.sub r2 r1
        let zero ← difference.isZero
        if zero then pure {} else do
          let recovered ← recover first second r1 r2 difference
          traceAccounts recovered listing

end Definitions

variable {d : SetupData r G₁ G₂ Gp} {p : ClearProtocol r G₁ G₂ Gp} {message : List UInt8}
  {sig first second : ClearSignature r G₁ Gp} {key key' : AccountPublicKey r Gp} {keys : UserKeys r}
  {c : UInt64} {a b : ZMod r}

/-- No two users share the secret of `G_p`. -/
def DistinctSecrets (p : ClearProtocol r G₁ G₂ Gp) : Prop :=
  ∀ (userId userId' : List UInt8) (owner owner' : UserRecord r),
    p.users[userId]? = some owner → p.users[userId']? = some owner' →
      owner.xGp = owner'.xGp → userId = userId'

theorem distinctSecrets_of_nodup (h : (p.users.toList.map fun entry => entry.2.xGp).Nodup) :
    p.DistinctSecrets := by
  intro userId userId' owner owner' howner howner' hsecret
  have hentry := ExtTreeMap.mem_toList_iff_getElem?_eq_some.2 howner
  have hentry' := ExtTreeMap.mem_toList_iff_getElem?_eq_some.2 howner'
  exact congrArg Prod.fst (List.inj_on_of_nodup_map h hentry hentry' hsecret)

/-! ## What two tags give away -/

variable [CommGroup Gp]

section Recovered

variable [OrderEq ristrettoOrder Gp]

theorem recover_live {ρ ρ' : ZMod ristrettoOrder} (hne : ρ ≠ ρ')
    (hfirst : first.traceTag = .live d.ddh (d.tag keys c ρ))
    (hsecond : second.traceTag = .live d.ddh (d.tag keys c ρ')) :
    recover first second (.live d.ddh ρ) (.live d.ddh ρ') (.live d.ddh (ρ' - ρ)) =
      .ok (.live d.ddh (residuePow d.u keys.xGp)) := by
  have hdifference : ρ' - ρ ≠ 0 := sub_ne_zero.2 hne.symm
  simp only [recover, hfirst, hsecond, gpPow, gpMul, Element.combine_live, ok_bind, gpInverse_live,
    GpScalar.inverse_live hdifference]
  rw [SetupData.tag, SetupData.tag, eliminate_mask d.u d.uT hne]

/-- The recovered element fits the accounts of the user and no others. -/
theorem fits_iff (hu : d.u ≠ 1) {x x' δ : ZMod ristrettoOrder} (hδ : δ ≠ 0) :
    residuePow (residuePow d.u x) δ = residuePow (residuePow d.u δ) x' ↔ x = x' := by
  rw [← residuePow_mul, ← residuePow_mul, residuePow_inj hu, mul_comm x δ]
  exact mul_right_inj' hδ

end Recovered

variable [CommGroup G₁] [CommGroup G₂] [CommGroup GT] {lib : CryptoLibrary G₁ G₂ GT Gp}
  {params : Parameters G₁ G₂ Gp}

theorem Registered.keys_eq {keys' : UserKeys r} (h : p.Registered lib d key keys)
    (h' : p.Registered lib d key' keys') (huser : key'.userId = key.userId) : keys = keys' := by
  obtain ⟨owner, howner, hkeys⟩ := h.owner
  obtain ⟨owner', howner', hkeys'⟩ := h'.owner
  rw [huser] at howner'
  obtain rfl := Option.some.inj (howner.symm.trans howner')
  exact hkeys.unique hkeys'

section Accounts

variable [DecidableEq Gp]

/-- The loop finds the user, in whatever order it visits the accounts. -/
theorem traceAccounts_eq (recovered : Element Gp) {userId : List UInt8}
    {listing : List (List UInt8 × AccountRecord r Gp)}
    (htest : ∀ entry ∈ listing, ∃ y, gpPow recovered entry.2.secret.dI = .ok y ∧
      y.equals gpElementTexts entry.2.secret.publicKey.yI =
        .ok (decide (entry.2.secret.publicKey.userId = userId)))
    (hactive : ∃ entry ∈ listing, entry.2.active = true ∧
      entry.2.secret.publicKey.userId = userId) :
    traceAccounts recovered listing = .ok ⟨.traced, userId⟩ := by
  induction listing with
  | nil =>
      obtain ⟨entry, hentry, -⟩ := hactive
      cases hentry
  | cons entry listing ih =>
      obtain ⟨accountId, record⟩ := entry
      obtain ⟨⟨y, hy, hequals⟩, hrest⟩ := List.forall_mem_cons.1 htest
      -- an entry that is passed over leaves the account that is looked for in the rest
      have hskip : ¬ (record.active = true ∧ record.secret.publicKey.userId = userId) →
          ∃ entry ∈ listing, entry.2.active = true ∧
            entry.2.secret.publicKey.userId = userId := by
        intro hnot
        obtain ⟨entry, hentry, hfits⟩ := hactive
        rcases List.mem_cons.1 hentry with rfl | hentry
        · exact absurd hfits hnot
        · exact ⟨entry, hentry, hfits⟩
      rw [traceAccounts]
      by_cases hflag : record.active = false
      · rw [if_pos hflag]
        apply ih hrest
        apply hskip
        rintro ⟨htrue, -⟩
        rw [hflag] at htrue
        cases htrue
      · rw [if_neg hflag, hy, ok_bind, hequals, ok_bind]
        by_cases huser : record.secret.publicKey.userId = userId
        · rw [if_pos (decide_eq_true huser), huser]
          rfl
        · rw [if_neg (by simpa using huser)]
          exact ih hrest (hskip fun hfits => huser hfits.2)

variable [OrderEq ristrettoOrder Gp]

/-- What the loop tests for an active account. -/
theorem account_fits (hsound : p.Sound lib params d) (hu : d.u ≠ 1)
    (hregistered : p.Registered lib d key keys) (hsecrets : p.DistinctSecrets)
    {accountId : List UInt8} {record : AccountRecord r Gp}
    (hrecord : p.accounts[accountId]? = some record) :
    ∃ y, gpPow (.live d.ddh (residuePow d.u keys.xGp)) record.secret.dI = .ok y ∧
      y.equals gpElementTexts record.secret.publicKey.yI =
        .ok (decide (record.secret.publicKey.userId = key.userId)) := by
  obtain ⟨-, owner', keys', δ, m, howner', hkeys', hmade⟩ := hsound.accounts accountId record hrecord
  obtain ⟨owner, howner, hkeys⟩ := hregistered.owner
  refine ⟨_, by rw [hmade.dI, gpPow, Element.combine_live], ?_⟩
  rw [hmade.yI, Element.equals_live]
  apply congrArg Except.ok
  rw [decide_eq_decide, fits_iff hu hmade.nonzero]
  constructor
  · -- one secret is that of one user
    intro hx
    apply hsecrets _ _ owner' owner howner' howner
    rw [hkeys'.xGp, hkeys.xGp, hx]
  · intro huser
    rw [huser] at howner'
    obtain rfl := Option.some.inj (howner.symm.trans howner')
    rw [hkeys.unique hkeys']

end Accounts

/-! ## Two signatures of one user -/

variable [DecidableEq GT]

/-- The witness of an accepted signature names one account of the ring. -/
theorem Accepted.key_eq (hsound : p.Sound lib params d)
    (h : p.Accepted lib d message sig key keys c a) (hkey : key' ∈ p.activeKeys)
    (hmember : sig.witness.member = key'.member) : key = key' := by
  obtain ⟨as, -, hring⟩ := hsound.ring
  obtain ⟨accountId, hactive⟩ := mem_activeKeys.1 hkey
  obtain rfl : key.accountId = accountId :=
    hring.unique _ _ _ _ h.registered.active hactive (h.member.symm.trans hmember)
  obtain ⟨record, hrecord, -, rfl⟩ := h.registered.active
  obtain ⟨record', hrecord', -, rfl⟩ := hactive
  rw [Option.some.inj (hrecord.symm.trans hrecord')]

variable [DecidableEq Gp] {message' : List UInt8} {c' : UInt64}

/-- Under one counter two signatures replay each other when challenge and timestamp agree. -/
theorem replays_eq (h : p.Accepted lib d message first key keys c a)
    (h' : p.Accepted lib d message' second key' keys c b) :
    replays first second = .ok (decide (a = b ∧ first.timestamp = second.timestamp)) := by
  rw [replays, h.challenge, h'.challenge, Element.equals_live]
  by_cases hab : a = b
  · subst hab
    simp [andAlso, h.tag, h'.tag, pure, Except.pure]
  · simp [andAlso, hab, pure, Except.pure]

variable [DecidableEq G₁] [OrderEq r G₁] [Fact r.Prime]

theorem linkClear_eq (hlive : params.Live d) (hsound : p.Sound lib params d)
    (h : p.Accepted lib d message first key keys c a)
    (h' : p.Accepted lib d message' second key' keys c' b) :
    p.linkClear lib p.currentLabel message first message' second = .ok true := by
  rw [linkClear, andAlso_eq_true, andAlso_eq_true, pure_eq_true, pure_eq_true]
  refine ⟨(verifyClear_iff hlive hsound).2 ⟨_, _, _, _, h⟩,
    (verifyClear_iff hlive hsound).2 ⟨_, _, _, _, h'⟩, ?_⟩
  rw [h.nym, h'.nym, live_equals_eq_true]

variable [OrderEq ristrettoOrder Gp]

/-- Tracing tells the counters, then the challenges in `G_p`, then replays apart. -/
theorem traceClear_eq (hlive : params.Live d) (hsound : p.Sound lib params d)
    (hu : d.u ≠ 1) (huT : d.uT ≠ 1) (hsecrets : p.DistinctSecrets)
    (h : p.Accepted lib d message first key keys c a)
    (h' : p.Accepted lib d message' second key' keys c' b)
    {listing : List (List UInt8 × AccountRecord r Gp)}
    (hlisting : listing.Perm p.accounts.toList) :
    p.traceClear lib listing p.currentLabel message first message' second =
      .ok (if c ≠ c' then ⟨.legal, []⟩
        else if gpChallengeOf lib a ≠ gpChallengeOf lib b then ⟨.traced, key.userId⟩
        else if a = b ∧ first.timestamp = second.timestamp then ⟨.replay, []⟩
        else ⟨.invalid, []⟩) := by
  have hp : p.parameters.Live d := hsound.parameters ▸ hlive
  rw [traceClear, linkClear_eq hlive hsound h h', ok_bind, if_neg (by decide), h.pass, h'.pass,
    pass_equals huT, ok_bind]
  by_cases hc : c = c'
  · subst hc
    rw [decide_eq_true rfl, if_neg (by decide), if_neg (by simp), replays_eq h h', ok_bind,
      h.challenge, h'.challenge, gpChallenge_live hp, gpChallenge_live hp, ok_bind, ok_bind,
      GpScalar.sub, Element.combine_live, ok_bind, GpScalar.isZero, Element.test_live, ok_bind]
    by_cases hρ : gpChallengeOf lib a = gpChallengeOf lib b
    · have hzero : decide (gpChallengeOf lib b - gpChallengeOf lib a = 0) = true :=
        decide_eq_true (sub_eq_zero.2 hρ.symm)
      rw [if_neg (not_not.2 hρ), hzero, if_pos rfl]
      by_cases hreplay : a = b ∧ first.timestamp = second.timestamp
      · rw [if_pos (decide_eq_true hreplay), if_pos hreplay]
        rfl
      · rw [if_neg (by simpa using hreplay), if_neg hreplay]
        rfl
    · -- different challenges in `G_p` come from different challenges
      have hab : ¬ (a = b ∧ first.timestamp = second.timestamp) := by
        rintro ⟨rfl, -⟩
        exact hρ rfl
      have hzero : decide (gpChallengeOf lib b - gpChallengeOf lib a = 0) = false :=
        decide_eq_false (sub_ne_zero.2 (Ne.symm hρ))
      rw [if_pos hρ, decide_eq_false hab, if_neg Bool.false_ne_true, hzero,
        if_neg Bool.false_ne_true, recover_live hρ h.tag h'.tag, ok_bind]
      apply traceAccounts_eq
      · rintro ⟨accountId, record⟩ hentry
        have hrecord := ExtTreeMap.mem_toList_iff_getElem?_eq_some.1 (hlisting.mem_iff.1 hentry)
        exact account_fits hsound hu h.registered hsecrets hrecord
      · obtain ⟨record, hrecord, hactive, rfl, -⟩ := h.registered.record
        exact ⟨(_, record), hlisting.mem_iff.2
          (ExtTreeMap.mem_toList_iff_getElem?_eq_some.2 hrecord), hactive, rfl⟩
  · rw [decide_eq_false hc, if_pos rfl, if_pos hc]
    rfl

end ClearProtocol

section Tracing

variable [CommGroup G₁] [CommGroup G₂] [CommGroup GT] [DecidableEq G₁] [DecidableEq G₂]
  [DecidableEq GT]

/-- The base of the accounts is the generator of the library. -/
theorem Parameters.forTesting_u {lib : CryptoLibrary G₁ G₂ GT Gp} {draws : SetupDraws G₁ G₂}
    {pairing : PairingContext} {ddh : DdhContext} {issue : List UInt8} {limit maxMembers : UInt64}
    {ownership : ℕ} {params : Parameters G₁ G₂ Gp}
    (h : Parameters.forTesting r lib draws pairing ddh issue limit maxMembers ownership =
      .ok params) : ∃ k, params.u = .live k lib.gpGenerator := by
  simp only [Parameters.forTesting, bind_eq_ok, gpGenerator, Parameters.make, pure_eq_ok] at h
  obtain ⟨-, -, _, -, _, -, _, -, _, ⟨k, -, rfl⟩, _, -, _, -, -, -, rfl⟩ := h
  exact ⟨k, rfl⟩

/-! ## Tracing is exact -/

variable [CommGroup Gp] [DecidableEq Gp] [OrderEq r G₁] [OrderEq r G₂] [OrderEq r GT]
  [Fact r.Prime]

/-- For two signatures that are accepted under the current label and whose witnesses name
accounts of one user, `link_clear` is true, and `trace_clear` returns legal for different
counters; for one counter it returns the user when the challenges in `G_p` differ, replay
when challenge and timestamp coincide, and invalid otherwise, for every order in which the
table of accounts is visited. -/
theorem clear_tracing_exact [OrderEq ristrettoOrder Gp] {lib : CryptoLibrary G₁ G₂ GT Gp}
    {draws : SetupDraws G₁ G₂} {pairing : PairingContext} {ddh : DdhContext} {issue : List UInt8}
    {limit maxMembers : UInt64} {ownership : ℕ} {params : Parameters G₁ G₂ Gp}
    (hsetup : Parameters.forTesting r lib draws pairing ddh issue limit maxMembers ownership =
      .ok params)
    (hgenerator : lib.gpGenerator ≠ 1) (huT : ∀ k, params.uT ≠ .live k 1)
    (calls : List (ClearCall r)) :
    let p := (ClearProtocol.start params : ClearProtocol r G₁ G₂ Gp).after lib calls
    -- no two users share the secret of `G_p`
    (∀ (userId userId' : List UInt8) (owner owner' : UserRecord r),
      p.users[userId]? = some owner → p.users[userId']? = some owner' →
        owner.xGp = owner'.xGp → userId = userId') →
    ∀ message1 first message2 second userId,
      p.verifyClear lib p.currentLabel message1 first = true →
      p.verifyClear lib p.currentLabel message2 second = true →
      -- the witness members belong to accounts of one user
      (∃ key ∈ p.currentLabel.accounts, key.member = first.witness.member ∧ key.userId = userId) →
      (∃ key ∈ p.currentLabel.accounts, key.member = second.witness.member ∧ key.userId = userId) →
      p.linkClear lib p.currentLabel message1 first message2 second = .ok true ∧
      ∀ listing, listing.Perm p.accounts.toList →
        p.traceClear lib listing p.currentLabel message1 first message2 second =
          .ok (if smallCounter first.witness.counter ≠ smallCounter second.witness.counter then
              ⟨.legal, []⟩
            else if p.gpChallenge lib first.challenge ≠ p.gpChallenge lib second.challenge then
              ⟨.traced, userId⟩
            else if first.challenge = second.challenge ∧ first.timestamp = second.timestamp then
              ⟨.replay, []⟩
            else ⟨.invalid, []⟩) := by
  obtain ⟨-, d, hlive⟩ := Parameters.forTesting_live (r := r) hsetup
  have hstart : (ClearProtocol.start params : ClearProtocol r G₁ G₂ Gp).Sound lib params d :=
    ClearProtocol.sound_start hlive
  intro p hsecrets message1 first message2 second userId hfirst hsecond
  have hsound : p.Sound lib params d := ClearProtocol.sound_after hlive hstart calls
  have hp : p.parameters.Live d := hsound.parameters ▸ hlive
  rintro ⟨key, hkey, hmember, huser⟩ ⟨key', hkey', hmember', huser'⟩
  obtain ⟨_, keys, c, a, h⟩ := (ClearProtocol.verifyClear_iff hlive hsound).1 hfirst
  obtain ⟨_, keys', c', b, h'⟩ := (ClearProtocol.verifyClear_iff hlive hsound).1 hsecond
  obtain rfl := h.key_eq hsound hkey hmember.symm
  obtain rfl := h'.key_eq hsound hkey' hmember'.symm
  obtain rfl : keys = keys' := h.registered.keys_eq h'.registered (huser'.trans huser.symm)
  have hu : d.u ≠ 1 := by
    obtain ⟨k, hbase⟩ := Parameters.forTesting_u hsetup
    rw [(Element.live_inj.1 (hlive.u.symm.trans hbase)).2]
    exact hgenerator
  have huT' : d.uT ≠ 1 := by
    intro hone
    exact huT d.ddh (hone ▸ hlive.uT)
  refine ⟨ClearProtocol.linkClear_eq hlive hsound h h', ?_⟩
  intro listing hlisting
  rw [ClearProtocol.traceClear_eq hlive hsound hu huT' hsecrets h h' hlisting, h.counter,
    h'.counter, h.challenge, h'.challenge, ClearProtocol.gpChallenge_live hp,
    ClearProtocol.gpChallenge_live hp, huser]
  simp only [ne_eq, Except.ok.injEq, Element.live_inj, true_and]

end Tracing

theorem clear_tracing_exact_sample :
    ∃ params first second, sampleSetup = .ok params ∧
      (sampleState params).activeHandles.length = 2 ∧
      (sampleState params).linkClear sampleLibrary (sampleState params).currentLabel (textBytes "yes")
        first (textBytes "no") second = .ok true ∧
      (sampleState params).traceClear sampleLibrary (sampleState params).accounts.toList
        (sampleState params).currentLabel (textBytes "yes") first (textBytes "no") second =
          .ok ⟨.traced, textBytes "alice"⟩ := by
  obtain ⟨params, first, second, hsetup, hring, hbase, hsecrets, hfirst, hsecond, hdiffer⟩ := sample_signs
  obtain ⟨hlimit, d, hlive⟩ := Parameters.forTesting_live (r := 11) hsetup
  have hsound : (sampleState params).Sound sampleLibrary params d :=
    ClearProtocol.sound_after hlive (ClearProtocol.sound_start hlive) sampleClearCalls
  have hsmall : params.limit.toNat ≤ 11 := by
    rw [hlimit]
    decide
  obtain ⟨owner, key, keys, a, howner, huser, -, h⟩ :=
    ClearProtocol.accepted_of_sign hlive hsound hsmall hfirst
  obtain ⟨owner', key', keys', b, howner', huser', -, h'⟩ :=
    ClearProtocol.accepted_of_sign hlive hsound hsmall hsecond
  obtain rfl := Option.some.inj (howner.symm.trans howner')
  obtain ⟨hlinked, htraced⟩ := clear_tracing_exact hsetup
    (fun hone => absurd (Multiplicative.ofAdd.injective hone) one_ne_zero) hbase sampleClearCalls
    (ClearProtocol.distinctSecrets_of_nodup hsecrets) _ first _ second _
    ((ClearProtocol.verifyClear_iff hlive hsound).2 ⟨_, _, _, _, h⟩)
    ((ClearProtocol.verifyClear_iff hlive hsound).2 ⟨_, _, _, _, h'⟩)
    ⟨key, ClearProtocol.mem_activeKeys.2 ⟨_, h.registered.active⟩, h.member.symm, huser⟩
    ⟨key', ClearProtocol.mem_activeKeys.2 ⟨_, h'.registered.active⟩, h'.member.symm, huser'⟩
  refine ⟨params, first, second, hsetup, hring, hlinked, ?_⟩
  have htrace := htraced _ (List.Perm.refl _)
  rw [h.counter, h'.counter, if_neg (not_not.2 rfl)] at htrace
  exact htrace.trans (congrArg Except.ok (if_pos hdiffer))

end Lktrs.Protocol
