import Mathlib.Logic.Relation
import Lktrs.Protocol.AccumulatorRuns
import Lktrs.Protocol.Clear

/-!
# What a call of the clear protocol can do

Every call is a sequence of moves (`ClearProtocol.Move`): a user is added, an account
is added, an account enters or leaves the ring together with its handle, a user is
revoked, a signature is counted. `apply_moves` takes the calls apart once; what is
preserved by every move holds along every run (`moves_after`). The first such
invariant, `ClearProtocol.Sound`, says that the records belong together and that the
accumulator holds the handles of the ring.
-/

set_option autoImplicit false

namespace Lktrs.Protocol

open Lktrs.Foundation
open Std (ExtTreeMap ExtTreeSet)

variable {r : ℕ} {G₁ G₂ GT Gp : Type}

/-! ## Parameters of a setup -/

/-- The raw values behind the parameters: the two contexts, the bases, and the trapdoor
with its generators. -/
structure SetupData (r : ℕ) (G₁ G₂ Gp : Type) where
  pairing : ℕ
  ddh : ℕ
  g0 : G₁
  g1 : G₁
  g2 : G₁
  u : Gp
  uT : Gp
  generator : G₁
  pairingBase : G₂
  τ : ZMod r

/-- All elements of the parameters are live, in one context of each library. -/
structure Parameters.Live [CommGroup G₁] [CommGroup G₂] [Fact r.Prime]
    (params : Parameters G₁ G₂ Gp) (d : SetupData r G₁ G₂ Gp) : Prop where
  pairing : params.pairing.state = some d.pairing
  ddh : params.ddh.state = some d.ddh
  g0 : params.g0 = .live d.pairing d.g0
  g1 : params.g1 = .live d.pairing d.g1
  g2 : params.g2 = .live d.pairing d.g2
  u : params.u = .live d.ddh d.u
  uT : params.uT = .live d.ddh d.uT
  context : params.accumulatorParameters.context = params.pairing
  trapdoor : params.accumulatorParameters.Trapdoor d.pairing d.generator d.pairingBase d.τ

theorem sampleNonidentity_eq_ok {G : Type} [CommGroup G] [DecidableEq G] {what : String}
    {context : PairingContext} {draw : ℕ → G} {x : Element G}
    (h : sampleNonidentity what context draw = .ok x) :
    ∃ k g, context.state = some k ∧ x = .live k g := by
  simp only [sampleNonidentity, bind_eq_ok, context_get_eq_ok] at h
  obtain ⟨k, hk, h⟩ := h
  split at h
  · exact ⟨k, _, hk, (pure_eq_ok.1 h).symm⟩
  · cases h

section Setup

variable [CommGroup G₁] [CommGroup G₂] [CommGroup GT] [DecidableEq G₁] [DecidableEq G₂]
  [DecidableEq GT] [OrderEq r G₁] [OrderEq r G₂] [OrderEq r GT] [Fact r.Prime]
  {lib : CryptoLibrary G₁ G₂ GT Gp} {draws : SetupDraws G₁ G₂} {pairing : PairingContext}
  {ddh : DdhContext} {issue : List UInt8} {limit maxMembers : UInt64} {ownership : ℕ}

theorem AccumulatorParameters.forTesting_trapdoor {p : AccumulatorParameters G₁ G₂} {k : ℕ}
    (hk : pairing.state = some k)
    (h : AccumulatorParameters.forTesting r lib draws pairing maxMembers ownership = .ok p) :
    p.context = pairing ∧ ∃ (g : G₁) (b : G₂) (τ : ZMod r), p.Trapdoor k g b τ := by
  simp only [AccumulatorParameters.forTesting, bind_eq_ok] at h
  obtain ⟨-, -, generator, hgenerator, base, -, tau, -, sdh, -, hTau, -, hmake⟩ := h
  obtain ⟨k', x, hk', rfl⟩ := sampleNonidentity_eq_ok hgenerator
  obtain ⟨rfl, j, g, b, τ, htrapdoor⟩ := AccumulatorParameters.make_eq_ok (r := r) lib.pairing hmake
  -- the generator was sampled in the given context
  obtain ⟨rfl, -⟩ := Element.live_inj.1 htrapdoor.generator
  obtain rfl : k' = k := by simpa [hk'] using hk
  exact ⟨rfl, g, b, τ, htrapdoor⟩

theorem Parameters.forTesting_live {params : Parameters G₁ G₂ Gp}
    (h : Parameters.forTesting r lib draws pairing ddh issue limit maxMembers ownership =
      .ok params) :
    params.limit = limit ∧ ∃ d : SetupData r G₁ G₂ Gp, params.Live d := by
  simp only [Parameters.forTesting, bind_eq_ok, gpGenerator, hashToGroupGp, DdhContext.get_eq_ok,
    pure_eq_ok, Parameters.make] at h
  obtain ⟨-, -, g0, hg0, g1, hg1, g2, hg2, u, ⟨k, hk, rfl⟩, uT, ⟨k', hk', rfl⟩, acc, hacc, -, -,
    rfl⟩ := h
  obtain ⟨j, x0, hj, rfl⟩ := sampleNonidentity_eq_ok hg0
  obtain ⟨j₁, x1, hj₁, rfl⟩ := sampleNonidentity_eq_ok hg1
  obtain ⟨j₂, x2, hj₂, rfl⟩ := sampleNonidentity_eq_ok hg2
  obtain ⟨hcontext, g, b, τ, htrapdoor⟩ := AccumulatorParameters.forTesting_trapdoor hj hacc
  obtain rfl : j = j₁ := by simpa [hj] using hj₁
  obtain rfl : j = j₂ := by simpa [hj] using hj₂
  obtain rfl : k = k' := by simpa [hk] using hk'
  exact ⟨rfl, ⟨j, k, x0, x1, x2, _, _, g, b, τ⟩, hj, hk, rfl, rfl, rfl, rfl, rfl, hcontext,
    htrapdoor⟩

end Setup

/-! ## Records that belong together -/

/-- The raw secrets of a user. -/
structure UserKeys (r : ℕ) where
  x : ZMod r
  s : ZMod r
  t : ZMod r
  xGp : ZMod ristrettoOrder
  sGp : ZMod ristrettoOrder
  tGp : ZMod ristrettoOrder

/-- The secrets of a record are live, with these values. -/
structure UserRecord.HasKeys (d : SetupData r G₁ G₂ Gp) (keys : UserKeys r)
    (owner : UserRecord r) : Prop where
  xPair : owner.xPair = .live d.pairing keys.x
  sPair : owner.sPair = .live d.pairing keys.s
  tPair : owner.tPair = .live d.pairing keys.t
  xGp : owner.xGp = .live d.ddh keys.xGp
  sGp : owner.sGp = .live d.ddh keys.sGp
  tGp : owner.tGp = .live d.ddh keys.tGp

theorem UserRecord.HasKeys.counted {d : SetupData r G₁ G₂ Gp} {owner : UserRecord r}
    {keys : UserKeys r} (h : owner.HasKeys d keys)
    (counter : UInt64) :
    ({ owner with nextCounter := counter } : UserRecord r).HasKeys d keys where
  xPair := h.xPair
  sPair := h.sPair
  tPair := h.tPair
  xGp := h.xGp
  sGp := h.sGp
  tGp := h.tGp

/-- An account secret with exponent `δ`, which is not zero, and handle `m` was made for an
owner with the secret `xGp`. -/
structure AccountSecret.MadeFor [CommGroup G₁] [CommGroup G₂] [CommGroup GT] [CommGroup Gp]
    (lib : CryptoLibrary G₁ G₂ GT Gp) (params : Parameters G₁ G₂ Gp)
    (d : SetupData r G₁ G₂ Gp) (xGp δ : ZMod ristrettoOrder) (m : ZMod r)
    (secret : AccountSecret r Gp) : Prop where
  nonzero : δ ≠ 0
  dI : secret.dI = .live d.ddh δ
  uI : secret.publicKey.uI = .live d.ddh (residuePow d.u δ)
  yI : secret.publicKey.yI = .live d.ddh (residuePow (residuePow d.u δ) xGp)
  member : secret.publicKey.member = .live d.pairing m
  handle : memberHandle lib params.pairing secret.publicKey.uI secret.publicKey.yI =
    .ok secret.publicKey.member

namespace ClearProtocol

variable {d : SetupData r G₁ G₂ Gp} {p p' : ClearProtocol r G₁ G₂ Gp}

/-! ## Lookups -/

theorem user_eq_ok {p : ClearProtocol r G₁ G₂ Gp} {userId : List UInt8} {owner : UserRecord r} :
    p.user userId = .ok owner ↔ p.users[userId]? = some owner := by
  rw [user]
  cases p.users[userId]? with
  | none => simp
  | some record => simp

theorem account_eq_ok {p : ClearProtocol r G₁ G₂ Gp} {accountId : List UInt8}
    {record : AccountRecord r Gp} :
    p.account accountId = .ok record ↔ p.accounts[accountId]? = some record := by
  rw [account]
  cases p.accounts[accountId]? with
  | none => simp
  | some record => simp

theorem getElem?_setActive (accountId accountId' : List UInt8) (active : Bool) :
    (p.setActive accountId active).accounts[accountId']? =
      if accountId = accountId' then
        p.accounts[accountId]?.map fun record => { record with active := active }
      else p.accounts[accountId']? := by
  simp [setActive, ExtTreeMap.getElem?_modify]

/-- Setting a flag changes no secret. -/
theorem exists_of_setActive {accountId accountId' : List UInt8} {active : Bool}
    {record : AccountRecord r Gp}
    (h : (p.setActive accountId active).accounts[accountId']? = some record) :
    ∃ active', p.accounts[accountId']? = some { record with active := active' } := by
  rw [getElem?_setActive] at h
  by_cases hid : accountId = accountId'
  · subst hid
    rw [if_pos rfl] at h
    obtain ⟨old, hold, rfl⟩ := Option.map_eq_some_iff.1 h
    exact ⟨old.active, hold⟩
  · rw [if_neg hid] at h
    exact ⟨record.active, h⟩

theorem getElem?_countSignature (userId userId' : List UInt8) :
    (p.countSignature userId).users[userId']? =
      if userId = userId' then
        p.users[userId]?.map fun owner => { owner with nextCounter := owner.nextCounter + 1 }
      else p.users[userId']? := by
  simp [countSignature, ExtTreeMap.getElem?_modify]

/-! ## The ring of the registry -/

/-- The account is in the ring, under this key. -/
def Active (p : ClearProtocol r G₁ G₂ Gp) (accountId : List UInt8)
    (key : AccountPublicKey r Gp) : Prop :=
  ∃ record, p.accounts[accountId]? = some record ∧ record.active = true ∧
    record.secret.publicKey = key

/-- An account that is added is not in the ring. -/
theorem active_addAccount {accountId accountId' : List UInt8} {secret : AccountSecret r Gp}
    {key : AccountPublicKey r Gp} (hnew : p.accounts[accountId]? = none) :
    Active { p with accounts := p.accounts.insertIfNew accountId ⟨secret, false⟩ } accountId' key ↔
      p.Active accountId' key := by
  simp only [Active, getElem?_insertIfNew_of_new hnew]
  by_cases hid : accountId = accountId'
  · subst hid
    simp [hnew]
  · simp [hid]

theorem active_join {accountId accountId' : List UInt8} {record : AccountRecord r Gp}
    {key : AccountPublicKey r Gp} (hrecord : p.accounts[accountId]? = some record) :
    (p.setActive accountId true).Active accountId' key ↔
      p.Active accountId' key ∨ (accountId' = accountId ∧ key = record.secret.publicKey) := by
  simp only [Active, getElem?_setActive]
  by_cases hid : accountId = accountId'
  · subst hid
    simp only [if_true, hrecord, Option.map_some, Option.some.injEq, exists_eq_left', true_and]
    constructor
    · intro hkey
      exact Or.inr hkey.symm
    · rintro (⟨-, hkey⟩ | hkey)
      · exact hkey
      · exact hkey.symm
  · simp [hid, Ne.symm hid]

theorem active_exit {accountId accountId' : List UInt8} {key : AccountPublicKey r Gp} :
    (p.setActive accountId false).Active accountId' key ↔
      p.Active accountId' key ∧ accountId' ≠ accountId := by
  simp only [Active, getElem?_setActive]
  by_cases hid : accountId = accountId'
  · subst hid
    simp
  · simp [hid, Ne.symm hid]

/-- The residues `as` are the handles of the ring, and no two accounts of it share one. -/
structure RingOf (d : SetupData r G₁ G₂ Gp) (as : List (ZMod r)) (p : ClearProtocol r G₁ G₂ Gp) :
    Prop where
  mem : ∀ a, a ∈ as ↔ ∃ accountId key, p.Active accountId key ∧ key.member = .live d.pairing a
  unique : ∀ accountId accountId' key key', p.Active accountId key → p.Active accountId' key' →
    key.member = key'.member → accountId = accountId'

theorem ringOf_join {as : List (ZMod r)} {accountId : List UInt8} {record : AccountRecord r Gp}
    {a : ZMod r} (h : p.RingOf d as) (hrecord : p.accounts[accountId]? = some record)
    (hmember : record.secret.publicKey.member = .live d.pairing a) (ha : a ∉ as) :
    (p.setActive accountId true).RingOf d (as ++ [a]) where
  mem := by
    intro b
    simp only [List.mem_append, List.mem_singleton, h.mem, active_join hrecord]
    constructor
    · rintro (⟨accountId', key, hactive, hkey⟩ | rfl)
      · exact ⟨accountId', key, Or.inl hactive, hkey⟩
      · exact ⟨accountId, _, Or.inr ⟨rfl, rfl⟩, hmember⟩
    · rintro ⟨accountId', key, hactive | ⟨-, rfl⟩, hkey⟩
      · exact Or.inl ⟨accountId', key, hactive, hkey⟩
      · rw [hmember] at hkey
        exact Or.inr (Element.live_inj.1 hkey).2.symm
  unique := by
    -- a handle that was new is none of the ring's
    have hnew : ∀ accountId' key, p.Active accountId' key →
        key.member ≠ record.secret.publicKey.member := by
      intro accountId' key hactive hkey
      exact ha ((h.mem a).2 ⟨accountId', key, hactive, hkey.trans hmember⟩)
    intro id id' key key' hid hid' hkey
    rcases (active_join hrecord).1 hid with hold | ⟨rfl, rfl⟩
    · rcases (active_join hrecord).1 hid' with hold' | ⟨rfl, rfl⟩
      · exact h.unique id id' key key' hold hold' hkey
      · exact absurd hkey (hnew id key hold)
    · rcases (active_join hrecord).1 hid' with hold' | ⟨rfl, -⟩
      · exact absurd hkey.symm (hnew id' key' hold')
      · rfl

theorem ringOf_exit {as : List (ZMod r)} {accountId : List UInt8} {record : AccountRecord r Gp}
    {a : ZMod r} (h : p.RingOf d as) (hrecord : p.accounts[accountId]? = some record)
    (hactive : record.active = true)
    (hmember : record.secret.publicKey.member = .live d.pairing a) :
    (p.setActive accountId false).RingOf d (as.filter (· ≠ a)) where
  mem := by
    have hself : p.Active accountId record.secret.publicKey := ⟨record, hrecord, hactive, rfl⟩
    intro b
    simp only [List.mem_filter, decide_eq_true_eq, h.mem, active_exit]
    constructor
    · rintro ⟨⟨accountId', key, hactive', hkey⟩, hne⟩
      refine ⟨accountId', key, ⟨hactive', ?_⟩, hkey⟩
      rintro rfl
      obtain ⟨record', hrecord', -, rfl⟩ := hactive'
      obtain rfl : record = record' := by simpa [hrecord] using hrecord'
      rw [hmember] at hkey
      exact hne (Element.live_inj.1 hkey).2.symm
    · rintro ⟨accountId', key, ⟨hactive', hid⟩, hkey⟩
      refine ⟨⟨accountId', key, hactive', hkey⟩, ?_⟩
      rintro rfl
      exact hid (h.unique _ _ _ _ hactive' hself (hkey.trans hmember.symm))
  unique := by
    intro id id' key key' hid hid' hkey
    exact h.unique id id' key key' (active_exit.1 hid).1 (active_exit.1 hid').1 hkey

/-! ## Records that stay -/

/-- Records stay, up to the counter and the flag, and revoked users stay revoked. -/
structure Keeps (p p' : ClearProtocol r G₁ G₂ Gp) : Prop where
  parameters : p'.parameters = p.parameters
  users : ∀ (userId : List UInt8) (owner : UserRecord r), p.users[userId]? = some owner →
    ∃ counter, p'.users[userId]? = some { owner with nextCounter := counter }
  accounts : ∀ (accountId : List UInt8) (record : AccountRecord r Gp),
    p.accounts[accountId]? = some record →
      ∃ active, p'.accounts[accountId]? = some { record with active := active }
  revoked : ∀ userId, userId ∈ p.revokedUsers → userId ∈ p'.revokedUsers

theorem Keeps.refl (p : ClearProtocol r G₁ G₂ Gp) : p.Keeps p where
  parameters := rfl
  users _ owner howner := ⟨owner.nextCounter, howner⟩
  accounts _ record hrecord := ⟨record.active, hrecord⟩
  revoked _ h := h

theorem Keeps.trans {p'' : ClearProtocol r G₁ G₂ Gp} (h : p.Keeps p') (h' : p'.Keeps p'') :
    p.Keeps p'' where
  parameters := h'.parameters.trans h.parameters
  users := by
    intro userId owner howner
    obtain ⟨counter, howner'⟩ := h.users userId owner howner
    obtain ⟨counter', howner''⟩ := h'.users userId _ howner'
    exact ⟨counter', howner''⟩
  accounts := by
    intro accountId record hrecord
    obtain ⟨active, hrecord'⟩ := h.accounts accountId record hrecord
    obtain ⟨active', hrecord''⟩ := h'.accounts accountId _ hrecord'
    exact ⟨active', hrecord''⟩
  revoked userId hrevoked := h'.revoked userId (h.revoked userId hrevoked)

theorem keeps_setActive (accountId : List UInt8) (active : Bool) (acc : Accumulator r G₁ G₂) :
    p.Keeps (setActive { p with accumulator := acc } accountId active) := by
  refine { Keeps.refl p with accounts := ?_ }
  intro accountId' record hrecord
  rw [getElem?_setActive]
  by_cases hid : accountId = accountId'
  · subst hid
    exact ⟨active, by simp [hrecord]⟩
  · exact ⟨record.active, by simp [hid, hrecord]⟩

section NewUser

variable [CommGroup G₁] [CommGroup G₂] [CommGroup GT] [Fact r.Prime]
  {lib : CryptoLibrary G₁ G₂ GT Gp}

/-- A new user has live secrets and has signed nothing. -/
theorem newUser_eq_ok (hlive : p.parameters.Live d) {userId : List UInt8} {entropy : ZMod r}
    {owner : UserRecord r} (h : p.newUser lib userId entropy = .ok owner) :
    p.users[userId]? = none ∧ owner.nextCounter = 0 ∧ ∃ keys, owner.HasKeys d keys := by
  simp only [newUser, bind_eq_ok, throwIf_eq_ok, hashToScalar_of_state hlive.pairing,
    GpScalar.hashToScalar_of_state hlive.ddh, pure_eq_ok] at h
  obtain ⟨-, -, -, hnew, -, -, -, -, _, ⟨x, -, rfl⟩, _, hx, _, ⟨sPair, -, rfl⟩, _,
    ⟨tPair, -, rfl⟩, _, hs, _, ht, rfl⟩ := h
  obtain rfl := Except.ok.inj hx
  obtain rfl := Except.ok.inj hs
  obtain rfl := Except.ok.inj ht
  refine ⟨?_, rfl, ⟨x, sPair, tPair, _, _, _⟩, rfl, rfl, rfl, rfl, rfl, rfl⟩
  exact ExtTreeMap.getElem?_eq_none hnew

end NewUser

/-! ## The registry and the accumulator agree -/

variable [CommGroup G₁] [CommGroup G₂] [CommGroup GT] [CommGroup Gp]
  {lib : CryptoLibrary G₁ G₂ GT Gp} {params : Parameters G₁ G₂ Gp}

/-- The records belong together, and the accumulator holds the handles of the ring. -/
structure Sound (lib : CryptoLibrary G₁ G₂ GT Gp) (params : Parameters G₁ G₂ Gp)
    (d : SetupData r G₁ G₂ Gp) (p : ClearProtocol r G₁ G₂ Gp) : Prop where
  parameters : p.parameters = params
  users : ∀ (userId : List UInt8) (owner : UserRecord r), p.users[userId]? = some owner →
    ∃ keys, owner.HasKeys d keys
  accounts : ∀ (accountId : List UInt8) (record : AccountRecord r Gp),
    p.accounts[accountId]? = some record → record.secret.publicKey.accountId = accountId ∧
      ∃ (owner : UserRecord r) (keys : UserKeys r) (δ : ZMod ristrettoOrder) (m : ZMod r),
        p.users[record.secret.publicKey.userId]? = some owner ∧ owner.HasKeys d keys ∧
          record.secret.MadeFor lib params d keys.xGp δ m
  ring : ∃ as, Accumulator.Holds params.accumulatorParameters d.pairing d.generator d.τ as
    p.accumulator ∧ p.RingOf d as

/-- The owner and the secrets of an account, found again after records were kept. -/
theorem Sound.account_kept (h : p.Sound lib params d) (hkeeps : p.Keeps p')
    {accountId : List UInt8} {record : AccountRecord r Gp} {active : Bool}
    (hrecord : p.accounts[accountId]? = some { record with active := active }) :
    record.secret.publicKey.accountId = accountId ∧
      ∃ (owner : UserRecord r) (keys : UserKeys r) (δ : ZMod ristrettoOrder) (m : ZMod r),
        p'.users[record.secret.publicKey.userId]? = some owner ∧ owner.HasKeys d keys ∧
          record.secret.MadeFor lib params d keys.xGp δ m := by
  obtain ⟨hid, owner, keys, δ, m, howner, hkeys, hmade⟩ := h.accounts accountId _ hrecord
  obtain ⟨counter, howner'⟩ := hkeeps.users _ owner howner
  exact ⟨hid, _, keys, δ, m, howner', hkeys.counted counter, hmade⟩

section Start

variable [Fact r.Prime]

/-- A new account belongs to a user and has the handle of its key; the hash that draws its
exponent gives no zero. -/
theorem newAccount_eq_ok (hlive : p.parameters.Live d) (hsound : p.Sound lib params d)
    {userId accountId : List UInt8} {secret : AccountSecret r Gp}
    (h : p.newAccount lib userId accountId = .ok secret) :
    p.accounts[accountId]? = none ∧ secret.publicKey.accountId = accountId ∧
      ∃ (owner : UserRecord r) (keys : UserKeys r) (δ : ZMod ristrettoOrder) (m : ZMod r),
        p.users[secret.publicKey.userId]? = some owner ∧ owner.HasKeys d keys ∧
          secret.MadeFor lib p.parameters d keys.xGp δ m := by
  simp only [newAccount, bind_eq_ok, throwIf_eq_ok, user_eq_ok, memberHandle,
    GpScalar.hashToScalar_of_state hlive.ddh, pure_eq_ok] at h
  obtain ⟨-, -, -, hnew, owner, howner, _, hd, _, hu, _, hy, blank, hblank, handle, hhandle, member,
    hassign, rfl⟩ := h
  obtain ⟨keys, hkeys⟩ := hsound.users userId owner howner
  obtain rfl := Except.ok.inj hd
  rw [gpPow, hlive.u, Element.combine_live] at hu
  obtain rfl := Except.ok.inj hu
  rw [gpPow, hkeys.xGp, Element.combine_live] at hy
  obtain rfl := Except.ok.inj hy
  -- the handle is live in the context of the parameters, so the assignment stores it
  obtain ⟨j, hj, rfl⟩ := scalar_eq_ok.1 hblank
  obtain rfl : d.pairing = j := Option.some.inj (hlive.pairing.symm.trans hj)
  obtain ⟨u, hu, y, hy, hscalar⟩ := hhandle
  obtain ⟨m, hm, rfl⟩ := (hashToScalar_of_state hlive.pairing).1 hscalar
  rw [assign_live] at hassign
  obtain rfl := Except.ok.inj hassign
  refine ⟨?_, rfl, owner, keys, _, m, howner, hkeys, lib.gpResidue_ne_zero _ _, rfl,
    rfl, rfl, rfl, ?_⟩
  · exact ExtTreeMap.getElem?_eq_none hnew
  · rw [memberHandle, hu, ok_bind, hy, ok_bind]
    exact hscalar

variable [OrderEq r G₁]

theorem sound_start (hlive : params.Live d) : (start params).Sound lib params d where
  parameters := rfl
  users := by
    intro userId owner howner
    simp [start] at howner
  accounts := by
    intro accountId record hrecord
    simp [start] at hrecord
  ring := by
    refine ⟨[], Accumulator.holds_start hlive.trapdoor, ?_, ?_⟩
    · simp [Active, start]
    · rintro accountId accountId' key key' ⟨record, hrecord, -⟩
      simp [start] at hrecord

end Start

/-! ## Moves -/

/-- The changes of the state: what is added, who enters or leaves the ring, who is revoked
and whose signature is counted. -/
inductive Change where
  | addUser (userId : List UInt8)
  | addAccount (accountId : List UInt8)
  | join (accountId : List UInt8)
  | exit (accountId : List UInt8)
  | revoke (userId : List UInt8)
  | count (userId : List UInt8)

/-- The changes that a call may make: a revocation makes several. -/
def Changes : ClearCall r → Set Change
  | .createUser userId _ => {.addUser userId}
  | .createAccount _ accountId => {.addAccount accountId}
  | .join accountId => {.join accountId}
  | .exit accountId => {.exit accountId}
  | .revokeUser userId => insert (.revoke userId) (Set.range .exit)
  | .signClear userId _ _ _ => {.count userId}

variable [DecidableEq G₁] {change : Change} {changes : Set Change}

/-- What a call can do to the state, one thing at a time, as the change says. -/
inductive Move (lib : CryptoLibrary G₁ G₂ GT Gp) (d : SetupData r G₁ G₂ Gp)
    (p : ClearProtocol r G₁ G₂ Gp) : Change → ClearProtocol r G₁ G₂ Gp → Prop
  | addUser (userId : List UInt8) (owner : UserRecord r) (keys : UserKeys r)
      (hnew : p.users[userId]? = none) (hkeys : owner.HasKeys d keys)
      (hzero : owner.nextCounter = 0) :
      Move lib d p (.addUser userId) { p with users := p.users.insert userId owner }
  | addAccount (accountId : List UInt8) (secret : AccountSecret r Gp) (owner : UserRecord r)
      (keys : UserKeys r) (δ : ZMod ristrettoOrder) (m : ZMod r)
      (hnew : p.accounts[accountId]? = none) (hid : secret.publicKey.accountId = accountId)
      (howner : p.users[secret.publicKey.userId]? = some owner) (hkeys : owner.HasKeys d keys)
      (hmade : secret.MadeFor lib p.parameters d keys.xGp δ m) :
      Move lib d p (.addAccount accountId)
        { p with accounts := p.accounts.insertIfNew accountId ⟨secret, false⟩ }
  | join (accountId : List UInt8) (record : AccountRecord r Gp) (snapshot : Snapshot G₁)
      (acc : Accumulator r G₁ G₂) (hrecord : p.accounts[accountId]? = some record)
      (hallowed : record.secret.publicKey.userId ∉ p.revokedUsers)
      (hinactive : record.active = false)
      (hjoin : p.accumulator.join record.secret.publicKey.member = (.ok snapshot, acc)) :
      Move lib d p (.join accountId) (setActive { p with accumulator := acc } accountId true)
  | exit (accountId : List UInt8) (record : AccountRecord r Gp) (snapshot : Snapshot G₁)
      (acc : Accumulator r G₁ G₂) (hrecord : p.accounts[accountId]? = some record)
      (hactive : record.active = true)
      (hexit : p.accumulator.exit record.secret.publicKey.member = (.ok snapshot, acc)) :
      Move lib d p (.exit accountId) (setActive { p with accumulator := acc } accountId false)
  | revoke (userId : List UInt8) :
      Move lib d p (.revoke userId) { p with revokedUsers := p.revokedUsers.insert userId }
  | count (userId : List UInt8) (owner : UserRecord r) (howner : p.users[userId]? = some owner)
      (hlimit : owner.nextCounter < p.parameters.limit) :
      Move lib d p (.count userId) (p.countSignature userId)

/-- A sequence of moves that make only these changes. -/
def Moves (lib : CryptoLibrary G₁ G₂ GT Gp) (d : SetupData r G₁ G₂ Gp) (changes : Set Change) :
    ClearProtocol r G₁ G₂ Gp → ClearProtocol r G₁ G₂ Gp → Prop :=
  Relation.ReflTransGen fun p p' => ∃ change ∈ changes, Move lib d p change p'

theorem Moves.mono {changes' : Set Change} (h : Moves lib d changes p p')
    (hsub : changes ⊆ changes') : Moves lib d changes' p p' := by
  refine Relation.ReflTransGen.mono ?_ _ _ h
  rintro q q' ⟨change, hchange, hmove⟩
  exact ⟨change, hsub hchange, hmove⟩

theorem Moves.single (h : Move lib d p change p') (hchange : change ∈ changes) :
    Moves lib d changes p p' :=
  Relation.ReflTransGen.single ⟨change, hchange, h⟩

/-! ## What no move takes away -/

/-- Without a revocation the revoked users stay as they are. -/
theorem revokedUsers_of_move (h : Move lib d p change p')
    (hchange : ∀ userId, change ≠ .revoke userId) : p'.revokedUsers = p.revokedUsers := by
  cases h with
  | revoke userId => exact absurd rfl (hchange userId)
  | addUser | addAccount | join | exit | count => rfl

theorem revokedUsers_of_moves (h : Moves lib d changes p p')
    (hchanges : ∀ userId, .revoke userId ∉ changes) : p'.revokedUsers = p.revokedUsers := by
  induction h with
  | refl => rfl
  | tail _ hmove ih =>
      obtain ⟨change, hchange, hmove⟩ := hmove
      rw [revokedUsers_of_move hmove fun userId heq => hchanges userId (heq ▸ hchange), ih]

theorem keeps_move (h : Move lib d p change p') : p.Keeps p' := by
  cases h with
  | addUser userId owner keys hnew hkeys hzero =>
      refine { Keeps.refl p with users := ?_ }
      intro userId' owner' howner'
      -- the name is new, so the record looked for is another one
      refine ⟨owner'.nextCounter, getElem?_insert_of_agree ?_ howner'⟩
      intro u hu
      rw [hnew] at hu
      cases hu
  | addAccount accountId secret owner keys δ m hnew hid howner hkeys hmade =>
      refine { Keeps.refl p with accounts := ?_ }
      intro accountId' record' hrecord'
      refine ⟨record'.active, ?_⟩
      rw [getElem?_insertIfNew_of_new hnew, if_neg]
      · exact hrecord'
      · rintro rfl
        rw [hnew] at hrecord'
        cases hrecord'
  | join accountId record snapshot acc hrecord hallowed hinactive hjoin =>
      exact keeps_setActive accountId true acc
  | exit accountId record snapshot acc hrecord hactive hexit =>
      exact keeps_setActive accountId false acc
  | revoke userId =>
      refine { Keeps.refl p with revoked := ?_ }
      intro userId' hrevoked
      exact mem_set_insert.2 (Or.inr hrevoked)
  | count userId owner howner hlimit =>
      refine { Keeps.refl p with users := ?_ }
      intro userId' owner' howner'
      rw [getElem?_countSignature]
      -- only the counter of this user moves
      by_cases hid : userId = userId'
      · subst hid
        exact ⟨owner'.nextCounter + 1, by simp [howner']⟩
      · exact ⟨owner'.nextCounter, by simp [hid, howner']⟩

theorem keeps_moves (h : Moves lib d changes p p') : p.Keeps p' := by
  induction h with
  | refl => exact Keeps.refl p
  | tail _ hmove ih =>
      obtain ⟨change, -, hmove⟩ := hmove
      exact ih.trans (keeps_move hmove)

/-! ## What one call does -/

/-- A call throws and changes nothing, or returns after one move that makes one of these
changes. -/
def Acts {α : Type} (lib : CryptoLibrary G₁ G₂ GT Gp) (d : SetupData r G₁ G₂ Gp)
    (changes : Set Change) (p : ClearProtocol r G₁ G₂ Gp)
    (result : Except Thrown α × ClearProtocol r G₁ G₂ Gp) : Prop :=
  (∃ e, result = (.error e, p)) ∨
    ∃ a p', result = (.ok a, p') ∧ ∃ change ∈ changes, Move lib d p change p'

theorem Acts.moves {α : Type} {result : Except Thrown α × ClearProtocol r G₁ G₂ Gp}
    (h : Acts lib d changes p result) : Moves lib d changes p result.2 := by
  rcases h with ⟨e, rfl⟩ | ⟨a, p', rfl, hmove⟩
  · exact Relation.ReflTransGen.refl
  · exact Relation.ReflTransGen.single hmove

theorem Acts.map {α β : Type} {result : Except Thrown α × ClearProtocol r G₁ G₂ Gp}
    (h : Acts lib d changes p result) (f : α → β) :
    Acts lib d changes p (result.1.map f, result.2) := by
  rcases h with ⟨e, rfl⟩ | ⟨a, p', rfl, hmove⟩
  · exact Or.inl ⟨e, rfl⟩
  · exact Or.inr ⟨f a, p', rfl, hmove⟩

/-- What throws changes nothing. -/
theorem Acts.eq_of_error {α : Type} {result : Except Thrown α × ClearProtocol r G₁ G₂ Gp}
    {e : Thrown} (h : Acts lib d changes p result) (herror : result.1 = .error e) :
    result.2 = p := by
  rcases h with ⟨e', rfl⟩ | ⟨a, p', rfl, -⟩
  · rfl
  · cases herror

theorem Acts.eq_of_ne_ok {result : Except Thrown Unit × ClearProtocol r G₁ G₂ Gp}
    (h : Acts lib d changes p result) (hne : result.1 ≠ .ok ()) : result.2 = p := by
  cases herror : result.1 with
  | error e => exact h.eq_of_error herror
  | ok u => exact absurd herror hne

/-- A signature is made for an active account of a user whose counter is below the limit. -/
theorem sign_allowed {userId accountId message : List UInt8} {timestamp : UInt64}
    {signature : ClearSignature r G₁ Gp}
    (h : p.sign lib userId accountId message timestamp = .ok signature) :
    ∃ (owner : UserRecord r) (record : AccountRecord r Gp), p.users[userId]? = some owner ∧
      p.accounts[accountId]? = some record ∧ record.secret.publicKey.userId = userId ∧
        record.active = true ∧ owner.nextCounter < p.parameters.limit ∧
          owner.nextCounter ≤ longMax := by
  simp only [sign, bind_eq_ok, user_eq_ok, account_eq_ok, throwIf_eq_ok, not_not,
    Bool.not_eq_false] at h
  obtain ⟨owner, howner, record, hrecord, -, huser, -, hactive, -, hlimit, -, hlong, -⟩ := h
  exact ⟨owner, record, howner, hrecord, huser, hactive, UInt64.not_le.1 hlimit,
    UInt64.not_lt.1 hlong⟩

theorem signClear_acts (userId accountId message : List UInt8) (timestamp : UInt64) :
    Acts lib d {.count userId} p (p.signClear lib userId accountId message timestamp) := by
  cases hsign : p.sign lib userId accountId message timestamp with
  | error e => exact Or.inl ⟨e, by simp only [signClear, hsign]⟩
  | ok signature =>
      obtain ⟨owner, record, howner, -, -, -, hlimit, -⟩ := sign_allowed hsign
      refine Or.inr ⟨signature, _, ?_, _, rfl, Move.count userId owner howner hlimit⟩
      simp only [signClear, hsign]

variable [Fact r.Prime]

theorem createUser_acts (hlive : p.parameters.Live d) (userId : List UInt8) (entropy : ZMod r) :
    Acts lib d {.addUser userId} p (p.createUser lib userId entropy) := by
  cases hnew : p.newUser lib userId entropy with
  | error e => exact Or.inl ⟨e, by simp only [createUser, hnew]⟩
  | ok owner =>
      obtain ⟨hfresh, hzero, keys, hkeys⟩ := newUser_eq_ok hlive hnew
      have hmem : userId ∉ p.users := by simp [ExtTreeMap.mem_iff_isSome_getElem?, hfresh]
      refine Or.inr ⟨owner.seed, _, ?_, _, rfl, Move.addUser userId owner keys hfresh hkeys hzero⟩
      simp only [createUser, hnew, if_neg hmem]

theorem createAccount_acts (hlive : p.parameters.Live d) (hsound : p.Sound lib params d)
    (userId accountId : List UInt8) :
    Acts lib d {.addAccount accountId} p (p.createAccount lib userId accountId) := by
  cases hnew : p.newAccount lib userId accountId with
  | error e => exact Or.inl ⟨e, by simp only [createAccount, hnew]⟩
  | ok secret =>
      obtain ⟨hfresh, hid, owner, keys, δ, m, howner, hkeys, hmade⟩ :=
        newAccount_eq_ok hlive hsound hnew
      refine Or.inr ⟨secret, _, ?_, _, rfl,
        Move.addAccount accountId secret owner keys δ m hfresh hid howner hkeys hmade⟩
      simp only [createAccount, hnew]

/-! ## Every move keeps the invariant -/

variable [OrderEq r G₁]

/-- The invariant is kept by every move. -/
theorem sound_move (hlive : params.Live d) (h : p.Sound lib params d)
    (hmove : Move lib d p change p') : p'.Sound lib params d := by
  have hkeeps := keeps_move hmove
  obtain ⟨as, hholds, hring⟩ := h.ring
  cases hmove with
  | addUser userId owner keys hnew hkeys hzero =>
      refine ⟨h.parameters, ?_, ?_, as, hholds, hring.mem, hring.unique⟩
      · intro userId' owner' howner'
        by_cases hid : userId = userId'
        · subst hid
          obtain rfl : owner = owner' := by simpa using howner'
          exact ⟨keys, hkeys⟩
        · rw [getElem?_insert_of_ne hid] at howner'
          exact h.users userId' owner' howner'
      · intro accountId record hrecord
        exact h.account_kept hkeeps hrecord
  | addAccount accountId secret owner keys δ m hnew hid howner hkeys hmade =>
      refine ⟨h.parameters, h.users, ?_, as, hholds, ?_, ?_⟩
      · intro accountId' record' hrecord'
        rw [getElem?_insertIfNew_of_new hnew] at hrecord'
        -- the new account comes inactive: its record is checked here and the ring stays as it is
        by_cases hsame : accountId = accountId'
        · subst hsame
          rw [if_pos rfl] at hrecord'
          obtain rfl := Option.some.inj hrecord'
          exact ⟨hid, owner, keys, δ, m, howner, hkeys, h.parameters ▸ hmade⟩
        · rw [if_neg hsame] at hrecord'
          exact h.account_kept hkeeps hrecord'
      · intro a
        simp only [hring.mem, active_addAccount hnew]
      · intro id id' key key' hactive hactive'
        exact hring.unique id id' key key' ((active_addAccount hnew).1 hactive)
          ((active_addAccount hnew).1 hactive')
  | join accountId record snapshot acc hrecord hallowed hinactive hjoin =>
      obtain ⟨a, hmember, hadmissible, -, rfl⟩ := Accumulator.join_ok hlive.trapdoor hholds hjoin
      -- the joined set has no repetition, so the member was not in the ring
      have ha : a ∉ as := by
        have hnodup := hadmissible.nodup
        rw [List.nodup_append] at hnodup
        exact fun hmem => hnodup.2.2 a hmem a (List.mem_singleton_self a) rfl
      refine ⟨h.parameters, h.users, ?_, _, Accumulator.holds_committed hholds hadmissible, ?_⟩
      · intro accountId' record' hrecord'
        obtain ⟨active, hold⟩ := exists_of_setActive hrecord'
        exact h.account_kept hkeeps hold
      · exact ringOf_join ⟨hring.mem, hring.unique⟩ hrecord hmember ha
  | exit accountId record snapshot acc hrecord hactive hexit =>
      -- the ring loses the member of this account and, members being distinct, no other
      obtain ⟨a, ha, hmember, -, rfl⟩ := Accumulator.exit_ok hlive.trapdoor hholds hexit
      refine ⟨h.parameters, h.users, ?_, _,
        Accumulator.holds_committed hholds (Accumulator.admissible_filter hholds ha), ?_⟩
      · intro accountId' record' hrecord'
        obtain ⟨active, hold⟩ := exists_of_setActive hrecord'
        exact h.account_kept hkeeps hold
      · exact ringOf_exit ⟨hring.mem, hring.unique⟩ hrecord hactive hmember
  | revoke userId => exact ⟨h.parameters, h.users, h.accounts, as, hholds, hring.mem, hring.unique⟩
  | count userId owner howner hlimit =>
      refine ⟨h.parameters, ?_, ?_, as, hholds, hring.mem, hring.unique⟩
      · intro userId' owner' howner'
        rw [getElem?_countSignature] at howner'
        by_cases hid : userId = userId'
        · subst hid
          rw [if_pos rfl, howner] at howner'
          obtain rfl := Option.some.inj howner'
          obtain ⟨keys, hkeys⟩ := h.users userId owner howner
          exact ⟨keys, hkeys.counted _⟩
        · rw [if_neg hid] at howner'
          exact h.users userId' owner' howner'
      · intro accountId record hrecord
        exact h.account_kept hkeeps hrecord

theorem sound_moves (hlive : params.Live d) (hsound : p.Sound lib params d)
    (h : Moves lib d changes p p') : p'.Sound lib params d := by
  induction h with
  | refl => exact hsound
  | tail _ hmove ih =>
      obtain ⟨change, -, hmove⟩ := hmove
      exact sound_move hlive ih hmove

/-! ## Calls are sequences of moves -/

theorem join_acts (hlive : params.Live d) (hsound : p.Sound lib params d) (accountId : List UInt8) :
    Acts lib d {.join accountId} p (p.join accountId) := by
  cases hjoinable : p.joinable accountId with
  | error e => exact Or.inl ⟨e, by simp only [join, hjoinable]⟩
  | ok record =>
      have hchecks := hjoinable
      simp only [joinable, bind_eq_ok, account_eq_ok, throwIf_eq_ok, pure_eq_ok] at hchecks
      obtain ⟨record', hrecord, -, hallowed, -, hinactive, heq⟩ := hchecks
      subst heq
      obtain ⟨as, hholds, -⟩ := hsound.ring
      rcases Accumulator.join_cases hlive.trapdoor hholds record'.secret.publicKey.member with
        ⟨e, herror⟩ | ⟨a, -, -, -, hok⟩
      · exact Or.inl ⟨e, by simp only [join, hjoinable, settle, herror]⟩
      · refine Or.inr ⟨⟨⟩, _, ?_, _, rfl, Move.join accountId record' _ _ hrecord hallowed
          (Bool.eq_false_of_not_eq_true hinactive) hok⟩
        simp only [join, hjoinable, settle, hok]

theorem exit_acts (hlive : params.Live d) (hsound : p.Sound lib params d) (accountId : List UInt8) :
    Acts lib d {.exit accountId} p (p.exit accountId) := by
  cases hexitable : p.exitable accountId with
  | error e => exact Or.inl ⟨e, by simp only [exit, hexitable]⟩
  | ok record =>
      have hchecks := hexitable
      simp only [exitable, bind_eq_ok, account_eq_ok, throwIf_eq_ok, pure_eq_ok] at hchecks
      obtain ⟨record', hrecord, -, hactive, heq⟩ := hchecks
      subst heq
      obtain ⟨as, hholds, -⟩ := hsound.ring
      rcases Accumulator.exit_cases hlive.trapdoor hholds record'.secret.publicKey.member with
        ⟨e, herror⟩ | ⟨a, -, -, -, hok⟩
      · exact Or.inl ⟨e, by simp only [exit, hexitable, settle, herror]⟩
      · refine Or.inr ⟨⟨⟩, _, ?_, _, rfl, Move.exit accountId record' _ _ hrecord
          (Bool.eq_true_of_not_eq_false hactive) hok⟩
        simp only [exit, hexitable, settle, hok]

/-- The loop of a revocation is a sequence of exits. -/
theorem exitAll_moves (hlive : params.Live d) (hsound : p.Sound lib params d)
    (accountIds : List (List UInt8)) :
    Moves lib d (Set.range .exit) p (p.exitAll accountIds).2 := by
  induction accountIds generalizing p with
  | nil => exact Relation.ReflTransGen.refl
  | cons accountId accountIds ih =>
      have hexit : Moves lib d (Set.range .exit) p (p.exit accountId).2 :=
        (exit_acts hlive hsound accountId).moves.mono
          (Set.singleton_subset_iff.2 ⟨accountId, rfl⟩)
      cases hresult : (p.exit accountId).1 with
      | error e =>
          simp only [exitAll, hresult]
          exact hexit
      | ok u =>
          simp only [exitAll, hresult]
          exact hexit.trans (ih (sound_moves hlive hsound hexit))

theorem revokeUser_moves (hlive : params.Live d) (hsound : p.Sound lib params d)
    (userId : List UInt8) :
    Moves lib d (insert (.revoke userId) (Set.range .exit)) p (p.revokeUser userId).2 := by
  cases huser : p.user userId with
  | error e =>
      simp only [revokeUser, huser]
      exact Relation.ReflTransGen.refl
  | ok owner =>
      have hrevoke : Move lib d p (.revoke userId)
          { p with revokedUsers := p.revokedUsers.insert userId } := .revoke userId
      have hexits := exitAll_moves hlive (sound_move hlive hsound hrevoke)
      simp only [revokeUser, huser]
      exact (Moves.single hrevoke (Set.mem_insert _ _)).trans
        ((hexits _).mono (Set.subset_insert _ _))

/-- Every call but a revocation is one move, or throws and changes nothing. -/
theorem apply_acts (hlive : params.Live d) (hsound : p.Sound lib params d) {call : ClearCall r}
    (hcall : ∀ userId, call ≠ .revokeUser userId) : Acts lib d (Changes call) p (p.apply lib call) := by
  have hp : p.parameters.Live d := hsound.parameters ▸ hlive
  cases call with
  | createUser userId entropy => exact (createUser_acts hp userId entropy).map _
  | createAccount userId accountId => exact (createAccount_acts hp hsound userId accountId).map _
  | join accountId => exact (join_acts hlive hsound accountId).map _
  | exit accountId => exact (exit_acts hlive hsound accountId).map _
  | revokeUser userId => exact absurd rfl (hcall userId)
  | signClear userId accountId message timestamp =>
      exact (signClear_acts userId accountId message timestamp).map _

/-- Every call is a sequence of moves. -/
theorem apply_moves (hlive : params.Live d) (hsound : p.Sound lib params d) (call : ClearCall r) :
    Moves lib d (Changes call) p (p.apply lib call).2 := by
  by_cases hcall : ∃ userId, call = .revokeUser userId
  · obtain ⟨userId, rfl⟩ := hcall
    exact revokeUser_moves hlive hsound userId
  · exact (apply_acts hlive hsound (not_exists.1 hcall)).moves

/-- So is every run. -/
theorem moves_after (hlive : params.Live d) (hsound : p.Sound lib params d)
    (calls : List (ClearCall r)) : Moves lib d Set.univ p (p.after lib calls) := by
  induction calls generalizing p with
  | nil => exact Relation.ReflTransGen.refl
  | cons call calls ih =>
      have hcall := apply_moves hlive hsound call
      exact (hcall.mono (Set.subset_univ _)).trans (ih (sound_moves hlive hsound hcall))

theorem sound_after (hlive : params.Live d) (hsound : p.Sound lib params d)
    (calls : List (ClearCall r)) : (p.after lib calls).Sound lib params d :=
  sound_moves hlive hsound (moves_after hlive hsound calls)

end ClearProtocol

end Lktrs.Protocol
