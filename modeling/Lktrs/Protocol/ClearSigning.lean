import Lktrs.Protocol.ClearRuns
import Lktrs.Protocol.ScalarEncoding

/-!
# What the clear protocol signs and accepts

A signature in the raw terms of the setup: the pseudonym, the one-time pass and the
trace tag are powers with exponents made of the user's secrets, the counter and the
challenge. `Accepted` collects what `verify_clear` checks under the current label, and
`verifyClear_iff` says that it accepts exactly those signatures; every later statement
about accepted signatures starts from there. What `sign_clear` returns is such a
signature (`accepted_of_sign`), and it stays one as long as the ring stays the same
(`Accepted.kept`).
-/

set_option autoImplicit false

namespace Lktrs.Protocol

open Lktrs.Foundation
open Std (ExtTreeMap)

variable {r : ℕ} {G₁ G₂ GT Gp : Type}

/-! ## Checks that hold -/

theorem andAlso_eq_true {x y : Except Thrown Bool} :
    andAlso x y = .ok true ↔ x = .ok true ∧ y = .ok true := by
  rw [andAlso, bind_eq_ok]
  constructor
  · rintro ⟨holds, hx, hy⟩
    cases holds with
    | false => cases hy
    | true => exact ⟨hx, hy⟩
  · rintro ⟨hx, hy⟩
    exact ⟨true, hx, hy⟩

theorem pure_eq_true {b : Bool} : (pure b : Except Thrown Bool) = .ok true ↔ b = true := by
  rw [pure_eq_ok]

section Equals

variable {α : Type} [DecidableEq α] {t : ElementTexts} {x y : Element α} {k : ℕ} {a : α}

/-- Two elements are equal when they are one live element. -/
theorem equals_eq_true : x.equals t y = .ok true ↔ ∃ k a, x = .live k a ∧ y = .live k a := by
  rw [Element.equals_eq_ok]
  constructor
  · rintro ⟨k, a, b, hx, hy, hab⟩
    obtain rfl := of_decide_eq_true hab.symm
    exact ⟨k, a, hx, hy⟩
  · rintro ⟨k, a, hx, hy⟩
    exact ⟨k, a, a, hx, hy, by simp⟩

theorem equals_live_eq_true : x.equals t (.live k a) = .ok true ↔ x = .live k a := by
  rw [equals_eq_true]
  constructor
  · rintro ⟨j, b, rfl, h⟩
    exact h.symm
  · rintro rfl
    exact ⟨k, a, rfl, rfl⟩

theorem live_equals_eq_true : (Element.live k a).equals t y = .ok true ↔ y = .live k a := by
  rw [equals_eq_true]
  constructor
  · rintro ⟨j, b, h, rfl⟩
    exact h.symm
  · rintro rfl
    exact ⟨k, a, rfl, rfl⟩

end Equals

/-! ## Counters -/

/-- A scalar is read as a counter when its residue fits a word. -/
theorem smallCounter_live [NeZero r] {k : ℕ} {a : ZMod r} {c : UInt64} :
    smallCounter (.live k a : Scalar r) = .ok c ↔ a.val = c.toNat := by
  have hvalue := bigEndianValue_residueBytes a
  simp only [smallCounter, Scalar.toBytes, Element.get_live, ok_bind, bind_eq_ok, pure_eq_ok,
    throwIf_eq_ok]
  constructor
  · rintro ⟨_, rfl, -, hzero, rfl⟩
    have hfits : bigEndianValue (residueBytes a) < 2 ^ 64 := by
      rw [← take_zero_iff]
      simpa using hzero
    rw [toNat_foldl_drop hfits, hvalue]
  · intro hval
    have hfits : bigEndianValue (residueBytes a) < 2 ^ 64 := by
      rw [hvalue, hval]
      exact c.toNat_lt
    refine ⟨_, rfl, (), ?_, ?_⟩
    · rw [← take_zero_iff] at hfits
      simpa using hfits
    · apply UInt64.toNat_inj.1
      rw [toNat_foldl_drop hfits, hvalue, hval]

theorem toLong_of_le {c : UInt64} (h : c ≤ longMax) : toLong c = c.toNat := by
  have hle : c.toNat ≤ 2 ^ 63 - 1 := UInt64.le_iff_toNat_le.1 h
  have hsmall : 2 * c.toBitVec.toNat < 2 ^ 64 := by
    rw [UInt64.toNat_toBitVec]
    omega
  exact BitVec.toInt_eq_toNat_of_lt hsmall

theorem toLong_inj {c c' : UInt64} : toLong c = toLong c' ↔ c = c' := by
  constructor
  · intro h
    exact congrArg Int64.toUInt64 (Int64.toInt_inj.1 h)
  · rintro rfl
    rfl

/-- The order exceeds every difference of two words, so counters stay apart in the exponent. -/
theorem cast_toLong_inj {c c' : UInt64} :
    ((toLong c : ℤ) : ZMod ristrettoOrder) = (toLong c' : ℤ) ↔ c = c' := by
  constructor
  · intro h
    rw [ZMod.intCast_eq_intCast_iff_dvd_sub] at h
    have hlo := Int64.le_toInt c.toInt64
    have hhi := Int64.toInt_lt c.toInt64
    have hlo' := Int64.le_toInt c'.toInt64
    have hhi' := Int64.toInt_lt c'.toInt64
    have hzero : toLong c' - toLong c = 0 := by
      apply Int.eq_zero_of_abs_lt_dvd h
      rw [abs_lt]
      unfold toLong ristrettoOrder
      constructor
      · omega
      · omega
    exact toLong_inj.1 (by omega)
  · rintro rfl
    rfl

/-! ## A signature in raw terms -/

/-- The exponent under the one-time pass. -/
def UserKeys.sDenom (keys : UserKeys r) (counter : UInt64) : ZMod ristrettoOrder :=
  keys.sGp + (toLong counter : ℤ) + 1

/-- The exponent under the mask of the trace tag. -/
def UserKeys.tDenom (keys : UserKeys r) (counter : UInt64) : ZMod ristrettoOrder :=
  keys.tGp + (toLong counter : ℤ) + 1

theorem UserKeys.sDenom_inj {keys : UserKeys r} {c c' : UInt64} :
    keys.sDenom c = keys.sDenom c' ↔ c = c' := by
  rw [sDenom, sDenom, add_left_inj, add_right_inj, cast_toLong_inj]

/-- The challenge as a scalar of `G_p`. -/
def gpChallengeOf [CommGroup G₁] [CommGroup G₂] [CommGroup GT] (lib : CryptoLibrary G₁ G₂ GT Gp)
    (a : ZMod r) : ZMod ristrettoOrder :=
  lib.gpResidue "lktrs/challenge/gp/v1" (residueBytes a)

namespace SetupData

/-- The pseudonym of a user. -/
def nym [CommGroup G₁] (d : SetupData r G₁ G₂ Gp) (keys : UserKeys r) : G₁ :=
  residuePow d.g0 keys.s * residuePow d.g1 keys.t * residuePow d.g2 keys.x

/-- The one-time pass for a counter. -/
def pass [CommGroup Gp] (d : SetupData r G₁ G₂ Gp) (keys : UserKeys r) (counter : UInt64) : Gp :=
  residuePow d.uT (keys.sDenom counter)⁻¹

/-- The trace tag for a counter and a challenge in `G_p`. -/
def tag [CommGroup Gp] (d : SetupData r G₁ G₂ Gp) (keys : UserKeys r) (counter : UInt64)
    (ρ : ZMod ristrettoOrder) : Gp :=
  residuePow d.u keys.xGp * residuePow d.uT (ρ * (keys.tDenom counter)⁻¹)

end SetupData

namespace ClearProtocol

variable {d : SetupData r G₁ G₂ Gp} {p q : ClearProtocol r G₁ G₂ Gp} {message : List UInt8}
  {sig : ClearSignature r G₁ Gp}

theorem anyZero_live {k : ℕ} {a b : ZMod ristrettoOrder} {zero : Bool} :
    anyZero (.live k a, .live k b) = .ok zero ↔ zero = decide (a = 0 ∨ b = 0) := by
  simp only [anyZero, GpScalar.isZero, Element.test_live, ok_bind]
  by_cases ha : a = 0
  · simp [ha, pure, Except.pure, eq_comm]
  · simp [ha, eq_comm]

/-- A counter below the limit is read back from its scalar. -/
theorem smallCounter_of_scalar [NeZero r] {c : UInt64} (hlimit : p.parameters.limit.toNat ≤ r)
    (hbelow : c < p.parameters.limit) (hlong : c ≤ longMax) {x : Scalar r}
    (hx : scalar p.parameters.pairing (toLong c) = .ok x) : smallCounter x = .ok c := by
  have hlt : c.toNat < r := (UInt64.lt_iff_toNat_lt.1 hbelow).trans_le hlimit
  obtain ⟨k, -, rfl⟩ := scalar_eq_ok.1 hx
  rw [smallCounter_live, toLong_of_le hlong, Int.cast_natCast, ZMod.val_natCast_of_lt hlt]

section Elements

variable [CommGroup G₁] [CommGroup G₂] [Fact r.Prime]

theorem pseudonym_live (hp : p.parameters.Live d) (keys : UserKeys r) :
    p.pseudonym (.live d.pairing keys.s) (.live d.pairing keys.t) (.live d.pairing keys.x) =
      .ok (.live d.pairing (d.nym keys)) := by
  simp only [pseudonym, groupPow, groupMul, hp.g0, hp.g1, hp.g2, Element.combine_live, ok_bind,
    SetupData.nym]

theorem denominators_live (hp : p.parameters.Live d) {owner : UserRecord r} {keys : UserKeys r}
    (hkeys : owner.HasKeys d keys) (counter : UInt64) :
    p.denominators owner counter =
      .ok (.live d.ddh (keys.sDenom counter), .live d.ddh (keys.tDenom counter)) := by
  simp only [denominators, GpScalar.ofInt_of_state hp.ddh, GpScalar.add, hkeys.sGp, hkeys.tGp,
    Element.combine_live, ok_bind, UserKeys.sDenom, UserKeys.tDenom, Int.cast_one]
  rfl

section Challenges

variable [CommGroup GT] {lib : CryptoLibrary G₁ G₂ GT Gp}

theorem gpChallenge_live (hp : p.parameters.Live d) (k : ℕ) (a : ZMod r) :
    p.gpChallenge lib (.live k a) = .ok (.live d.ddh (gpChallengeOf lib a)) := by
  rw [gpChallenge, Scalar.toBytes, Element.get_live, ok_bind]
  exact GpScalar.hashToScalar_of_state hp.ddh lib _ _

/-- A challenge is live in the pairing context. -/
theorem challenge_live (hp : p.parameters.Live d) {label : RingLabel r Gp} {message : List UInt8}
    {nym : Element G₁} {timestamp : UInt64} {x : Scalar r}
    (h : p.challenge lib label message nym timestamp = .ok x) : ∃ a, x = .live d.pairing a := by
  rw [challenge, bind_eq_ok] at h
  obtain ⟨transcript, -, hscalar⟩ := h
  obtain ⟨a, -, rfl⟩ := (hashToScalar_of_state hp.pairing).1 hscalar
  exact ⟨a, rfl⟩

theorem challengeMatches_eq_true (hp : p.parameters.Live d) {label : RingLabel r Gp} :
    p.challengeMatches lib label message sig = .ok true ↔
      p.challenge lib label message sig.nym sig.timestamp = .ok sig.challenge := by
  rw [challengeMatches, bind_eq_ok]
  constructor
  · rintro ⟨expected, hexpected, hequal⟩
    obtain ⟨k, a, hsig, rfl⟩ := equals_eq_true.1 hequal
    rw [hsig]
    exact hexpected
  · intro hchallenge
    obtain ⟨a, ha⟩ := challenge_live hp hchallenge
    exact ⟨sig.challenge, hchallenge, equals_eq_true.2 ⟨d.pairing, a, ha, ha⟩⟩

end Challenges

variable [CommGroup Gp]

theorem oneTimePass_live (hp : p.parameters.Live d) {keys : UserKeys r} {counter : UInt64}
    (hs : keys.sDenom counter ≠ 0) :
    p.oneTimePass (.live d.ddh (keys.sDenom counter)) = .ok (.live d.ddh (d.pass keys counter)) := by
  simp only [oneTimePass, GpScalar.inverse_live hs, ok_bind, gpPow, hp.uT, Element.combine_live,
    SetupData.pass]

theorem traceTag_live (hp : p.parameters.Live d) {keys : UserKeys r} {counter : UInt64}
    (ht : keys.tDenom counter ≠ 0) (ρ : ZMod ristrettoOrder) :
    p.traceTag (.live d.ddh keys.xGp) (.live d.ddh ρ) (.live d.ddh (keys.tDenom counter)) =
      .ok (.live d.ddh (d.tag keys counter ρ)) := by
  simp only [traceTag, GpScalar.inverse_live ht, ok_bind, gpPow, gpMul, GpScalar.mul, hp.u, hp.uT,
    Element.combine_live, SetupData.tag]

end Elements

end ClearProtocol

/-! ## Checks of a witness -/

/-- The disclosed secrets are live, with these values. -/
structure ClearWitness.HasKeys (d : SetupData r G₁ G₂ Gp) (keys : UserKeys r)
    (w : ClearWitness r G₁) : Prop where
  xPair : w.xPair = .live d.pairing keys.x
  sPair : w.sPair = .live d.pairing keys.s
  tPair : w.tPair = .live d.pairing keys.t
  xGp : w.xGp = .live d.ddh keys.xGp
  sGp : w.sGp = .live d.ddh keys.sGp
  tGp : w.tGp = .live d.ddh keys.tGp

/-- A record has one set of secrets. -/
theorem UserRecord.HasKeys.unique {d : SetupData r G₁ G₂ Gp} {owner : UserRecord r}
    {keys keys' : UserKeys r} (h : owner.HasKeys d keys) (h' : owner.HasKeys d keys') :
    keys = keys' := by
  have hx := (Element.live_inj.1 (h.xPair.symm.trans h'.xPair)).2
  have hs := (Element.live_inj.1 (h.sPair.symm.trans h'.sPair)).2
  have ht := (Element.live_inj.1 (h.tPair.symm.trans h'.tPair)).2
  have hxGp := (Element.live_inj.1 (h.xGp.symm.trans h'.xGp)).2
  have hsGp := (Element.live_inj.1 (h.sGp.symm.trans h'.sGp)).2
  have htGp := (Element.live_inj.1 (h.tGp.symm.trans h'.tGp)).2
  cases keys
  cases keys'
  simp only at hx hs ht hxGp hsGp htGp
  subst hx hs ht hxGp hsGp htGp
  rfl

theorem secretsMatch_eq_true {d : SetupData r G₁ G₂ Gp} {owner : UserRecord r} {keys : UserKeys r}
    (hkeys : owner.HasKeys d keys) {w : ClearWitness r G₁} :
    ClearProtocol.secretsMatch w owner = .ok true ↔ w.HasKeys d keys := by
  simp only [ClearProtocol.secretsMatch, andAlso_eq_true, hkeys.xPair, hkeys.sPair, hkeys.tPair,
    hkeys.xGp, hkeys.sGp, hkeys.tGp, equals_live_eq_true]
  constructor
  · rintro ⟨hx, hs, ht, hxGp, hsGp, htGp⟩
    exact ⟨hx, hs, ht, hxGp, hsGp, htGp⟩
  · rintro ⟨hx, hs, ht, hxGp, hsGp, htGp⟩
    exact ⟨hx, hs, ht, hxGp, hsGp, htGp⟩

/-- All elements of a key are live. -/
def AccountPublicKey.Live (key : AccountPublicKey r Gp) (d : SetupData r G₁ G₂ Gp) : Prop :=
  (∃ u, key.uI = .live d.ddh u) ∧ (∃ y, key.yI = .live d.ddh y) ∧
    ∃ m, key.member = .live d.pairing m

theorem AccountSecret.MadeFor.live [CommGroup G₁] [CommGroup G₂] [CommGroup GT] [CommGroup Gp]
    {lib : CryptoLibrary G₁ G₂ GT Gp} {params : Parameters G₁ G₂ Gp}
    {d : SetupData r G₁ G₂ Gp} {xGp δ : ZMod ristrettoOrder} {m : ZMod r}
    {secret : AccountSecret r Gp} (h : secret.MadeFor lib params d xGp δ m) :
    secret.publicKey.Live d :=
  ⟨⟨_, h.uI⟩, ⟨_, h.yI⟩, ⟨_, h.member⟩⟩

section Keys

variable {d : SetupData r G₁ G₂ Gp} {key : AccountPublicKey r Gp}
  {keys : List (AccountPublicKey r Gp)}

theorem findMember_eq_some {m : Scalar r} (h : findMember m keys = .ok (some key)) :
    key ∈ keys ∧ key.member = m := by
  induction keys with
  | nil => cases h
  | cons head keys ih =>
      rw [findMember, bind_eq_ok] at h
      obtain ⟨same, hsame, h⟩ := h
      cases same with
      | false =>
          obtain ⟨hmem, hmember⟩ := ih h
          exact ⟨List.mem_cons_of_mem _ hmem, hmember⟩
      | true =>
          obtain rfl := Option.some.inj (pure_eq_ok.1 h)
          obtain ⟨k, a, hhead, hm⟩ := equals_eq_true.1 hsame
          exact ⟨List.mem_cons_self, hhead.trans hm.symm⟩

/-- In a list of different handles a key is found by its handle. -/
theorem findMember_of_mem (hlive : ∀ key ∈ keys, key.Live d)
    (hnodup : (keys.map AccountPublicKey.member).Nodup) (hkey : key ∈ keys) :
    findMember key.member keys = .ok (some key) := by
  induction keys with
  | nil => cases hkey
  | cons head keys ih =>
      obtain ⟨hhead, htail⟩ := List.forall_mem_cons.1 hlive
      obtain ⟨hnew, hnodup⟩ := List.nodup_cons.1 hnodup
      obtain ⟨-, -, a, ha⟩ := hhead
      rcases List.mem_cons.1 hkey with rfl | hmem
      · simp [findMember, ha, pure, Except.pure]
      · obtain ⟨-, -, b, hb⟩ := htail key hmem
        have hab : a ≠ b := by
          rintro rfl
          exact hnew (ha.trans hb.symm ▸ List.mem_map_of_mem hmem)
        have hfound := ih htail hnodup hmem
        rw [hb] at hfound ⊢
        simp [findMember, ha, hab, hfound]

variable [DecidableEq Gp]

theorem sameAccount_self (h : key.Live d) : sameAccount key key = .ok true := by
  obtain ⟨⟨u, hu⟩, ⟨y, hy⟩, ⟨m, hm⟩⟩ := h
  simp [sameAccount, andAlso_eq_true, hu, hy, hm]

theorem sameAccounts_self (h : ∀ key ∈ keys, key.Live d) : sameAccounts keys keys = .ok true := by
  induction keys with
  | nil => rfl
  | cons key keys ih =>
      obtain ⟨hkey, hkeys⟩ := List.forall_mem_cons.1 h
      exact andAlso_eq_true.2 ⟨sameAccount_self hkey, ih hkeys⟩

end Keys

/-! ## What is accepted -/

namespace ClearProtocol

variable {d : SetupData r G₁ G₂ Gp} {p q : ClearProtocol r G₁ G₂ Gp} {message : List UInt8}
  {sig : ClearSignature r G₁ Gp} {key : AccountPublicKey r Gp} {keys : UserKeys r} {c : UInt64}
  {a : ZMod r}

/-- The current label fixes the ring. -/
theorem active_of_currentLabel (hlabel : q.currentLabel = p.currentLabel) {accountId : List UInt8}
    (hactive : p.Active accountId key) : ∃ accountId', q.Active accountId' key := by
  have hkeys : q.activeKeys = p.activeKeys := congrArg RingLabel.accounts hlabel
  rw [← mem_activeKeys, hkeys]
  exact mem_activeKeys.2 ⟨accountId, hactive⟩

variable [CommGroup G₁] [CommGroup G₂] [CommGroup GT] [CommGroup Gp]
  {lib : CryptoLibrary G₁ G₂ GT Gp} {params : Parameters G₁ G₂ Gp}

section Values

variable [DecidableEq G₁] [OrderEq r G₁] [Fact r.Prime]

/-- The value of the accumulator is that of the ring. -/
theorem Sound.value_eq (hlive : params.Live d) (hp : p.Sound lib params d)
    (hq : q.Sound lib params d) (hlabel : q.currentLabel = p.currentLabel) :
    q.accumulator.value = p.accumulator.value := by
  have hhandles : q.activeHandles = p.activeHandles :=
    congrArg (List.map AccountPublicKey.member) (congrArg RingLabel.accounts hlabel)
  have hvalue := hq.valueFor_activeHandles hlive
  obtain ⟨as, hholds, -⟩ := hp.ring
  obtain ⟨bs, hholds', -⟩ := hq.ring
  rw [hhandles, Accumulator.valueFor, hholds'.parameters, ← hholds.parameters] at hvalue
  exact Except.ok.inj (hvalue.symm.trans (hp.valueFor_activeHandles hlive))

end Values

/-- The account is in the ring and belongs to a user with these secrets. -/
structure Registered (lib : CryptoLibrary G₁ G₂ GT Gp) (d : SetupData r G₁ G₂ Gp)
    (p : ClearProtocol r G₁ G₂ Gp) (key : AccountPublicKey r Gp) (keys : UserKeys r) : Prop where
  record : ∃ record, p.accounts[key.accountId]? = some record ∧ record.active = true ∧
    record.secret.publicKey = key ∧ ∃ δ m, record.secret.MadeFor lib p.parameters d keys.xGp δ m
  owner : ∃ owner, p.users[key.userId]? = some owner ∧ owner.HasKeys d keys

theorem Registered.active (h : p.Registered lib d key keys) : p.Active key.accountId key := by
  obtain ⟨record, hrecord, hactive, hkey, -⟩ := h.record
  exact ⟨record, hrecord, hactive, hkey⟩

theorem Registered.live (h : p.Registered lib d key keys) : key.Live d := by
  obtain ⟨record, -, -, rfl, δ, m, hmade⟩ := h.record
  exact hmade.live

/-- Every account of the ring is registered. -/
theorem Sound.registered (hsound : p.Sound lib params d) {accountId : List UInt8}
    (hactive : p.Active accountId key) : ∃ keys, p.Registered lib d key keys := by
  obtain ⟨record, hrecord, hflag, rfl⟩ := hactive
  obtain ⟨rfl, owner, keys, δ, m, howner, hkeys, hmade⟩ := hsound.accounts accountId record hrecord
  refine ⟨keys, ⟨record, hrecord, hflag, rfl, δ, m, ?_⟩, owner, howner, hkeys⟩
  rw [hsound.parameters]
  exact hmade

theorem Sound.activeKeys_live (hsound : p.Sound lib params d) :
    ∀ key ∈ p.activeKeys, key.Live d := by
  intro key hkey
  obtain ⟨accountId, hactive⟩ := mem_activeKeys.1 hkey
  obtain ⟨keys, hregistered⟩ := hsound.registered hactive
  exact hregistered.live

theorem Sound.nodup_members (hsound : p.Sound lib params d) :
    (p.activeKeys.map AccountPublicKey.member).Nodup := by
  obtain ⟨as, -, hring⟩ := hsound.ring
  exact hring.nodup_activeHandles

section Checks

variable [DecidableEq Gp]

theorem keyMatches_eq_true (hregistered : p.Registered lib d key keys) {w : ClearWitness r G₁}
    (hw : w.HasKeys d keys) :
    p.keyMatches lib w key = .ok true ↔
      w.member = key.member ∧ gpPow p.parameters.u w.dI = .ok key.uI := by
  obtain ⟨record, -, -, rfl, δ, m, hmade⟩ := hregistered.record
  rw [keyMatches, hmade.handle, ok_bind, andAlso_eq_true, hmade.member, equals_live_eq_true,
    bind_eq_ok]
  refine and_congr_right fun _ => ?_
  constructor
  · rintro ⟨u, hu, hequal⟩
    obtain ⟨k, b, rfl, hkey⟩ := equals_eq_true.1 (andAlso_eq_true.1 hequal).1
    rw [hu, hkey]
  · intro hu
    refine ⟨_, hu, andAlso_eq_true.2 ⟨equals_eq_true.2 ⟨_, _, hmade.uI, hmade.uI⟩, ?_⟩⟩
    rw [hmade.uI, hw.xGp, hmade.yI, gpPow, Element.combine_live, ok_bind, equals_live_eq_true]

variable [DecidableEq G₁] [Fact r.Prime]

theorem tagsMatch_eq_true (hp : p.parameters.Live d) {owner : UserRecord r}
    (hkeys : owner.HasKeys d keys) (hw : sig.witness.HasKeys d keys)
    (ha : sig.challenge = .live d.pairing a) :
    p.tagsMatch lib sig owner c = .ok true ↔
      sig.nym = .live d.pairing (d.nym keys) ∧ keys.sDenom c ≠ 0 ∧ keys.tDenom c ≠ 0 ∧
        sig.oneTimePass = .live d.ddh (d.pass keys c) ∧
          sig.traceTag = .live d.ddh (d.tag keys c (gpChallengeOf lib a)) := by
  rw [tagsMatch, hw.sPair, hw.tPair, hw.xPair, pseudonym_live hp, ok_bind, andAlso_eq_true,
    equals_live_eq_true, denominators_live hp hkeys, ok_bind, anyZero_live.2 rfl, ok_bind]
  refine and_congr_right fun _ => ?_
  by_cases hzero : keys.sDenom c = 0 ∨ keys.tDenom c = 0
  · -- a zero denominator is refused
    rw [decide_eq_true hzero, if_pos rfl]
    constructor
    · intro h
      cases h
    · rintro ⟨hs, ht, -⟩
      exact absurd hzero (not_or.2 ⟨hs, ht⟩)
  · obtain ⟨hs, ht⟩ := not_or.1 hzero
    rw [decide_eq_false hzero, if_neg Bool.false_ne_true, ha, gpChallenge_live hp, ok_bind,
      oneTimePass_live hp hs, ok_bind, andAlso_eq_true, equals_live_eq_true, hkeys.xGp,
      traceTag_live hp ht, ok_bind, equals_live_eq_true]
    constructor
    · rintro ⟨hpass, htag⟩
      exact ⟨hs, ht, hpass, htag⟩
    · rintro ⟨-, -, hpass, htag⟩
      exact ⟨hpass, htag⟩

variable [OrderEq r G₁]

theorem ringMatches_eq_true (hlive : params.Live d) (hsound : p.Sound lib params d) :
    p.ringMatches p.currentLabel sig = .ok true ↔ sig.accumulatorValue = p.accumulator.value := by
  obtain ⟨as, hholds, -⟩ := hsound.ring
  have hkeys := sameAccounts_self hsound.activeKeys_live
  rw [ringMatches, hsound.valueFor_activeHandles hlive, ok_bind, andAlso_eq_true, andAlso_eq_true,
    hholds.value, equals_live_eq_true]
  simp [currentLabel, hkeys]

end Checks

variable [DecidableEq GT]

/-- What `verify_clear` asks of a signature under the current label: that it discloses the
secrets of the owner of an account of the ring and a counter below the limit, and that all
else was computed from them. -/
structure Accepted (lib : CryptoLibrary G₁ G₂ GT Gp) (d : SetupData r G₁ G₂ Gp)
    (p : ClearProtocol r G₁ G₂ Gp) (message : List UInt8) (sig : ClearSignature r G₁ Gp)
    (key : AccountPublicKey r Gp) (keys : UserKeys r) (c : UInt64) (a : ZMod r) : Prop where
  registered : p.Registered lib d key keys
  member : sig.witness.member = key.member
  secrets : sig.witness.HasKeys d keys
  exponent : gpPow p.parameters.u sig.witness.dI = .ok key.uI
  membership : p.accumulator.verifyValue lib.pairing key.member sig.witness.membershipWitness = true
  counter : smallCounter sig.witness.counter = .ok c
  below : c < p.parameters.limit
  value : sig.accumulatorValue = p.accumulator.value
  hashed : p.challenge lib p.currentLabel message sig.nym sig.timestamp = .ok sig.challenge
  challenge : sig.challenge = .live d.pairing a
  nym : sig.nym = .live d.pairing (d.nym keys)
  sDenom : keys.sDenom c ≠ 0
  tDenom : keys.tDenom c ≠ 0
  pass : sig.oneTimePass = .live d.ddh (d.pass keys c)
  tag : sig.traceTag = .live d.ddh (d.tag keys c (gpChallengeOf lib a))

section Accepting

variable [DecidableEq G₁] [DecidableEq Gp] [Fact r.Prime]

theorem accountMatches_eq_true (hp : p.parameters.Live d)
    (hregistered : p.Registered lib d key keys) (hmember : sig.witness.member = key.member)
    (ha : sig.challenge = .live d.pairing a) :
    p.accountMatches lib sig c key = .ok true ↔
      sig.witness.HasKeys d keys ∧ gpPow p.parameters.u sig.witness.dI = .ok key.uI ∧
        p.accumulator.verifyValue lib.pairing key.member sig.witness.membershipWitness = true ∧
          sig.nym = .live d.pairing (d.nym keys) ∧ keys.sDenom c ≠ 0 ∧ keys.tDenom c ≠ 0 ∧
            sig.oneTimePass = .live d.ddh (d.pass keys c) ∧
              sig.traceTag = .live d.ddh (d.tag keys c (gpChallengeOf lib a)) := by
  obtain ⟨record, hrecord, hactive, hkey, -⟩ := hregistered.record
  obtain ⟨owner, howner, hkeys⟩ := hregistered.owner
  rw [accountMatches, account_eq_ok.2 hrecord, ok_bind, andAlso_eq_true, pure_eq_true,
    andAlso_eq_true, hkey, user_eq_ok.2 howner, ok_bind, andAlso_eq_true, andAlso_eq_true,
    andAlso_eq_true, pure_eq_true, secretsMatch_eq_true hkeys, hmember]
  constructor
  · rintro ⟨-, -, hw, hmatches, hvalue, htags⟩
    obtain ⟨-, hexponent⟩ := (keyMatches_eq_true hregistered hw).1 hmatches
    exact ⟨hw, hexponent, hvalue, (tagsMatch_eq_true hp hkeys hw ha).1 htags⟩
  · rintro ⟨hw, hexponent, hvalue, htags⟩
    refine ⟨hactive, sameAccount_self hregistered.live, hw, ?_, hvalue, ?_⟩
    · exact (keyMatches_eq_true hregistered hw).2 ⟨hmember, hexponent⟩
    · exact (tagsMatch_eq_true hp hkeys hw ha).2 htags

variable [OrderEq r G₁]

/-- Under the current label exactly the accepted signatures verify. -/
theorem verifyClear_iff (hlive : params.Live d) (hsound : p.Sound lib params d) :
    p.verifyClear lib p.currentLabel message sig = true ↔
      ∃ key keys c a, p.Accepted lib d message sig key keys c a := by
  have hp : p.parameters.Live d := hsound.parameters ▸ hlive
  rw [verifyClear, orFalse_eq_true, andAlso_eq_true, andAlso_eq_true, andAlso_eq_true,
    challengeMatches_eq_true hp, ringMatches_eq_true hlive hsound, witnessMatches, bind_eq_ok]
  constructor
  · rintro ⟨-, hhashed, hvalue, c, hcounter, hwitness⟩
    obtain ⟨a, ha⟩ := challenge_live hp hhashed
    -- the checks of the witness in their order: the counter, the member, its account
    by_cases hbelow : p.parameters.limit ≤ c
    · rw [if_pos hbelow] at hwitness
      cases hwitness
    rw [if_neg hbelow, bind_eq_ok] at hwitness
    obtain ⟨found, hfound, hwitness⟩ := hwitness
    cases found with
    | none => cases hwitness
    | some key =>
        obtain ⟨hkey, hmember⟩ := findMember_eq_some hfound
        obtain ⟨accountId, hactive⟩ := mem_activeKeys.1 hkey
        obtain ⟨keys, hregistered⟩ := hsound.registered hactive
        obtain ⟨hw, hexponent, hmembership, hnym, hs, ht, hpass, htag⟩ :=
          (accountMatches_eq_true hp hregistered hmember.symm ha).1 hwitness
        exact ⟨key, keys, c, a, hregistered, hmember.symm, hw, hexponent, hmembership, hcounter,
          UInt64.not_le.1 hbelow, hvalue, hhashed, ha, hnym, hs, ht, hpass, htag⟩
  · rintro ⟨key, keys, c, a, h⟩
    have hkey : key ∈ p.activeKeys := mem_activeKeys.2 ⟨_, h.registered.active⟩
    refine ⟨?_, h.hashed, h.value, c, h.counter, ?_⟩
    · have hnonempty : p.activeKeys.isEmpty = false :=
        List.isEmpty_eq_false_iff.2 (List.ne_nil_of_mem hkey)
      rw [pure_eq_true]
      exact decide_eq_true ⟨rfl, hnonempty⟩
    · have hfound := findMember_of_mem hsound.activeKeys_live hsound.nodup_members hkey
      rw [if_neg (UInt64.not_le.2 h.below), h.member, currentLabel, hfound, ok_bind]
      exact (accountMatches_eq_true hp h.registered h.member h.challenge).2 ⟨h.secrets, h.exponent,
        h.membership, h.nym, h.sDenom, h.tDenom, h.pass, h.tag⟩

end Accepting

/-! ## What is signed -/

variable [DecidableEq G₁] [OrderEq r G₁] [Fact r.Prime]

/-- An accepted signature stays accepted as long as the ring is the same. -/
theorem Accepted.kept (hlive : params.Live d) (hsound : p.Sound lib params d)
    (hsound' : q.Sound lib params d) (hkeeps : p.Keeps q)
    (hlabel : q.currentLabel = p.currentLabel) (h : p.Accepted lib d message sig key keys c a) :
    q.Accepted lib d message sig key keys c a := by
  have hvalue := hsound.value_eq hlive hsound' hlabel
  obtain ⟨as, hholds, -⟩ := hsound.ring
  obtain ⟨bs, hholds', -⟩ := hsound'.ring
  obtain ⟨accountId, hactive⟩ := active_of_currentLabel hlabel h.registered.active
  obtain ⟨keys', hregistered⟩ := hsound'.registered hactive
  -- the owner is the one of before
  obtain ⟨owner, howner, hkeys⟩ := h.registered.owner
  obtain ⟨counter, howner'⟩ := hkeeps.users _ owner howner
  obtain ⟨owner', howner'', hkeys'⟩ := hregistered.owner
  obtain rfl := Option.some.inj (howner'.symm.trans howner'')
  obtain rfl : keys = keys' := (hkeys.counted counter).unique hkeys'
  refine
    { h with
      registered := hregistered, exponent := ?_, membership := ?_, below := ?_, value := ?_,
      hashed := ?_ }
  · rw [hkeeps.parameters]
    exact h.exponent
  · have hmembership := h.membership
    rw [Accumulator.verifyValue, hholds.parameters] at hmembership
    rw [Accumulator.verifyValue, hholds'.parameters, hvalue]
    exact hmembership
  · rw [hkeeps.parameters]
    exact h.below
  · rw [hvalue]
    exact h.value
  · have hhashed := h.hashed
    rw [ClearProtocol.challenge] at hhashed ⊢
    rw [hlabel, hkeeps.parameters]
    exact hhashed

variable [OrderEq r G₂] [OrderEq r GT]

/-- What `sign_clear` returns is accepted, under the counter of the user. -/
theorem accepted_of_sign (hlive : params.Live d) (hsound : p.Sound lib params d)
    (hlimit : params.limit.toNat ≤ r) {userId accountId : List UInt8} {timestamp : UInt64}
    (h : p.sign lib userId accountId message timestamp = .ok sig) :
    ∃ owner key keys a, p.users[userId]? = some owner ∧ key.userId = userId ∧
      key.accountId = accountId ∧ p.Accepted lib d message sig key keys owner.nextCounter a := by
  have hp : p.parameters.Live d := hsound.parameters ▸ hlive
  simp only [sign, bind_eq_ok, user_eq_ok, account_eq_ok, throwIf_eq_ok, not_not,
    Bool.not_eq_false, pure_eq_ok] at h
  obtain ⟨owner, howner, record, hrecord, -, huser, -, hactive, -, hbelow, -, hlong, membership,
    hmembership, counter, hcounter, denoms, hdenoms, zero, hzero, -, hnonzero, nym, hnym, challenge,
    hchallenge, challengeGp, hgp, pass, hpass, tag, htag, rfl⟩ := h
  -- the account is active, so its owner and the witness for its member are there
  obtain ⟨keys, hregistered⟩ := hsound.registered ⟨record, hrecord, hactive, rfl⟩
  obtain ⟨owner', howner', hkeys⟩ := hregistered.owner
  rw [huser] at howner'
  obtain rfl : owner = owner' := Option.some.inj (howner.symm.trans howner')
  obtain ⟨as, hholds, -⟩ := hsound.ring
  have hverified := Accumulator.verify_witness lib.pairing hlive.trapdoor hholds hmembership
  -- every value of the signature in the exponents, in the order it is computed
  rw [denominators_live hp hkeys] at hdenoms
  obtain rfl := Except.ok.inj hdenoms
  rw [anyZero_live] at hzero
  obtain ⟨hs, ht⟩ : keys.sDenom owner.nextCounter ≠ 0 ∧ keys.tDenom owner.nextCounter ≠ 0 := by
    simpa [hzero] using hnonzero
  rw [hkeys.sPair, hkeys.tPair, hkeys.xPair, pseudonym_live hp] at hnym
  obtain rfl := Except.ok.inj hnym
  obtain ⟨a, rfl⟩ := challenge_live hp hchallenge
  rw [gpChallenge_live hp] at hgp
  obtain rfl := Except.ok.inj hgp
  rw [oneTimePass_live hp hs] at hpass
  obtain rfl := Except.ok.inj hpass
  rw [hkeys.xGp, traceTag_live hp ht] at htag
  obtain rfl := Except.ok.inj htag
  obtain ⟨hid, _, _, δ, m, _, _, hmade⟩ := hsound.accounts accountId record hrecord
  refine ⟨owner, record.secret.publicKey, keys, a, howner, huser, hid, ?_⟩
  refine
    { registered := hregistered, member := rfl,
      secrets := ⟨hkeys.xPair, hkeys.sPair, hkeys.tPair, hkeys.xGp, hkeys.sGp, hkeys.tGp⟩,
      exponent := ?_, membership := ?_, counter := ?_, below := UInt64.not_le.1 hbelow,
      value := rfl, hashed := hchallenge, challenge := rfl, nym := rfl, sDenom := hs, tDenom := ht,
      pass := rfl, tag := rfl }
  · rw [gpPow, hp.u, hmade.dI, Element.combine_live, hmade.uI]
  · rw [Accumulator.verify, Bool.and_eq_true] at hverified
    exact hverified.2
  · exact smallCounter_of_scalar (hsound.parameters ▸ hlimit) (UInt64.not_le.1 hbelow)
      (UInt64.not_lt.1 hlong) hcounter

end ClearProtocol

end Lktrs.Protocol
