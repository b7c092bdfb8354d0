import Lktrs.Protocol.ClearMoves

/-!
# The registry over whole runs

The accumulator holds the handles of the accounts marked active and no others, so its
value is the one that `value_for` computes from them. A revoked user has no active
account, except when the accumulator has no further version: then an exit throws, and
a revocation stops between two accounts (`exitAll_cases`). A user whose revocation has
returned is out of the ring for good (`Barred`), since only `join` adds to the ring and
it asks for the revocation.
-/

set_option autoImplicit false

namespace Lktrs.Protocol

open Lktrs.Foundation
open Std (ExtTreeMap ExtTreeSet)

variable {r : ℕ} {G₁ G₂ GT Gp : Type}

namespace ClearProtocol

variable {d : SetupData r G₁ G₂ Gp} {p p' : ClearProtocol r G₁ G₂ Gp}

/-! ## The listing of the ring -/

theorem mem_activeKeys {key : AccountPublicKey r Gp} :
    key ∈ p.activeKeys ↔ ∃ accountId, p.Active accountId key := by
  simp only [activeKeys, List.mem_map, List.mem_filter, Prod.exists,
    ExtTreeMap.mem_toList_iff_getElem?_eq_some]
  constructor
  · rintro ⟨accountId, record, ⟨hrecord, hactive⟩, rfl⟩
    exact ⟨accountId, record, hrecord, hactive, rfl⟩
  · rintro ⟨accountId, record, hrecord, hactive, rfl⟩
    exact ⟨accountId, record, ⟨hrecord, hactive⟩, rfl⟩

theorem RingOf.nodup_activeHandles {as : List (ZMod r)} (h : p.RingOf d as) :
    p.activeHandles.Nodup := by
  rw [activeHandles, activeKeys, List.map_map]
  have hentries : (p.accounts.toList.filter fun entry => entry.2.active).Nodup :=
    ((nodup_keys_toList p.accounts).of_map Prod.fst).filter _
  refine hentries.map_on ?_
  -- two entries with one handle have one key, and a map stores one record there
  rintro ⟨id, record⟩ hentry ⟨id', record'⟩ hentry' hmember
  simp only [List.mem_filter, ExtTreeMap.mem_toList_iff_getElem?_eq_some] at hentry hentry'
  obtain rfl : id = id' := h.unique id id' _ _ ⟨record, hentry.1, hentry.2, rfl⟩
    ⟨record', hentry'.1, hentry'.2, rfl⟩ hmember
  obtain rfl : record = record' := Option.some.inj (hentry.1.symm.trans hentry'.1)
  rfl

/-- The handles of the ring are live and are those of the accumulator in another order. -/
theorem RingOf.activeHandles_eq {as : List (ZMod r)} (h : p.RingOf d as) (hnodup : as.Nodup)
    (hlive : ∀ accountId key, p.Active accountId key → ∃ a, key.member = .live d.pairing a) :
    ∃ bs, p.activeHandles = liveAll d.pairing bs ∧ bs.Nodup ∧ bs.Perm as := by
  have hrange : p.activeHandles ∈ Set.range (List.map (Element.live d.pairing (α := ZMod r))) := by
    rw [Set.range_list_map]
    intro handle hhandle
    obtain ⟨key, hkey, rfl⟩ := List.mem_map.1 hhandle
    obtain ⟨accountId, hactive⟩ := mem_activeKeys.1 hkey
    obtain ⟨a, ha⟩ := hlive accountId key hactive
    exact ⟨a, ha.symm⟩
  obtain ⟨bs, hbs⟩ := hrange
  have hbs' : bs.Nodup := List.Nodup.of_map (Element.live d.pairing) (hbs ▸ h.nodup_activeHandles)
  refine ⟨bs, hbs.symm, hbs', (List.perm_ext_iff_of_nodup hbs' hnodup).2 ?_⟩
  intro a
  rw [h.mem]
  have hmem : a ∈ bs ↔ Element.live d.pairing a ∈ p.activeHandles := by
    rw [← hbs]
    constructor
    · exact List.mem_map_of_mem
    · intro hlisted
      obtain ⟨b, hb, heq⟩ := List.mem_map.1 hlisted
      exact (Element.live_inj.1 heq).2 ▸ hb
  rw [hmem, activeHandles, List.mem_map]
  constructor
  · rintro ⟨key, hkey, hmember⟩
    obtain ⟨accountId, hactive⟩ := mem_activeKeys.1 hkey
    exact ⟨accountId, key, hactive, hmember⟩
  · rintro ⟨accountId, key, hactive, hmember⟩
    exact ⟨key, mem_activeKeys.2 ⟨accountId, hactive⟩, hmember⟩

theorem mem_owned {userId accountId : List UInt8} :
    accountId ∈ p.owned userId ↔ ∃ key, p.Active accountId key ∧ key.userId = userId := by
  simp only [owned, List.mem_map, List.mem_filter, Prod.exists, Bool.and_eq_true,
    decide_eq_true_eq, ExtTreeMap.mem_toList_iff_getElem?_eq_some]
  constructor
  · rintro ⟨_, record, ⟨hrecord, hactive, huser⟩, rfl⟩
    exact ⟨record.secret.publicKey, ⟨record, hrecord, hactive, rfl⟩, huser⟩
  · rintro ⟨key, ⟨record, hrecord, hactive, rfl⟩, huser⟩
    exact ⟨accountId, record, ⟨hrecord, hactive, huser⟩, rfl⟩

theorem nodup_owned (userId : List UInt8) : (p.owned userId).Nodup :=
  (nodup_keys_toList p.accounts).sublist (List.filter_sublist.map Prod.fst)

/-! ## Revoked users -/

/-- The user is revoked and has no account in the ring. -/
def Barred (userId : List UInt8) (p : ClearProtocol r G₁ G₂ Gp) : Prop :=
  userId ∈ p.revokedUsers ∧ ∀ accountId key, p.Active accountId key → key.userId ≠ userId

/-- The accumulator has no version left. -/
def Exhausted (p : ClearProtocol r G₁ G₂ Gp) : Prop :=
  p.accumulator.version = UInt64.ofNat (2 ^ 64 - 1)

/-- No account of a revoked user is in the ring, unless the accumulator is exhausted. -/
def Cleared (p : ClearProtocol r G₁ G₂ Gp) : Prop :=
  ¬ p.Exhausted → ∀ accountId key, p.Active accountId key → key.userId ∉ p.revokedUsers

section Joining

variable [CommGroup G₁] [DecidableEq G₁]

/-- A barred user can bring no account into the ring. -/
theorem Barred.join_throws {userId accountId : List UInt8} {record : AccountRecord r Gp}
    (h : p.Barred userId) (hrecord : p.accounts[accountId]? = some record)
    (huser : record.secret.publicKey.userId = userId) : ∃ e, p.join accountId = (.error e, p) := by
  refine ⟨⟨.invalidArgument, "user is revoked"⟩, ?_⟩
  have hjoinable : p.joinable accountId = .error ⟨.invalidArgument, "user is revoked"⟩ := by
    rw [joinable, account_eq_ok.2 hrecord, ok_bind, throwIf, if_pos (huser ▸ h.1)]
    rfl
  simp only [join, hjoinable]

end Joining

/-! ## The ring and the accumulator -/

variable [CommGroup G₁] [CommGroup G₂] [CommGroup GT] [CommGroup Gp]
  {lib : CryptoLibrary G₁ G₂ GT Gp} {params : Parameters G₁ G₂ Gp}

theorem Sound.active_live (h : p.Sound lib params d) {accountId : List UInt8}
    {key : AccountPublicKey r Gp} (hactive : p.Active accountId key) :
    ∃ a, key.member = .live d.pairing a := by
  obtain ⟨record, hrecord, -, rfl⟩ := hactive
  obtain ⟨-, owner, keys, δ, m, -, -, hmade⟩ := h.accounts accountId record hrecord
  exact ⟨m, hmade.member⟩

/-- The set of the accumulator is that of the ring. -/
theorem Sound.ring_listed (h : p.Sound lib params d) :
    ∃ as bs, Accumulator.Holds params.accumulatorParameters d.pairing d.generator d.τ as
        p.accumulator ∧ p.RingOf d as ∧ p.activeHandles = liveAll d.pairing bs ∧ bs.Nodup ∧
          bs.Perm as := by
  obtain ⟨as, hholds, hring⟩ := h.ring
  obtain ⟨bs, hbs, hnodup, hperm⟩ :=
    hring.activeHandles_eq hholds.nodup fun _ _ hactive => h.active_live hactive
  exact ⟨as, bs, hholds, hring, hbs, hnodup, hperm⟩

/-! ## Only joins add to the ring -/

variable [DecidableEq G₁] {change : Change} {changes : Set Change}

/-- Only an account whose user is not revoked comes into the ring. -/
theorem active_of_move (hmove : Move lib d p change p') {accountId : List UInt8}
    {key : AccountPublicKey r Gp} (h : p'.Active accountId key) :
    p.Active accountId key ∨ key.userId ∉ p.revokedUsers := by
  cases hmove with
  | addUser | revoke | count => exact Or.inl h
  | addAccount accountId' secret owner keys δ m hnew hid howner hkeys hmade =>
      exact Or.inl ((active_addAccount hnew).1 h)
  | join accountId' record snapshot acc hrecord hallowed hinactive hjoin =>
      have hrecord' : ({ p with accumulator := acc } : ClearProtocol r G₁ G₂ Gp).accounts[accountId']? =
          some record := hrecord
      rcases (active_join hrecord').1 h with hold | ⟨-, rfl⟩
      · exact Or.inl hold
      · exact Or.inr hallowed
  | exit accountId' record snapshot acc hrecord hactive hexit => exact Or.inl (active_exit.1 h).1

theorem barred_moves {userId : List UInt8} (hmoves : Moves lib d changes p p')
    (h : p.Barred userId) : p'.Barred userId := by
  induction hmoves with
  | refl => exact h
  | @tail q q' _ hmove ih =>
      obtain ⟨change, -, hmove⟩ := hmove
      refine ⟨(keeps_move hmove).revoked userId ih.1, ?_⟩
      intro accountId key hactive
      rcases active_of_move hmove hactive with hold | hallowed
      · exact ih.2 accountId key hold
      · rintro rfl
        exact hallowed ih.1

/-- No signature is made for a barred user. -/
theorem Barred.sign_throws {userId userId' accountId message : List UInt8} {timestamp : UInt64}
    (h : p.Barred userId)
    (hfor : userId' = userId ∨ ∃ record : AccountRecord r Gp,
      p.accounts[accountId]? = some record ∧ record.secret.publicKey.userId = userId) :
    ∃ e, p.signClear lib userId' accountId message timestamp = (.error e, p) := by
  cases hsign : p.sign lib userId' accountId message timestamp with
  | error e => exact ⟨e, by simp only [signClear, hsign]⟩
  | ok signature =>
      obtain ⟨owner, record, -, hrecord, huser, hactive, -⟩ := sign_allowed hsign
      have hbarred := h.2 accountId _ ⟨record, hrecord, hactive, rfl⟩
      rcases hfor with rfl | ⟨record', hrecord', huser'⟩
      · exact absurd huser hbarred
      · obtain rfl : record = record' := Option.some.inj (hrecord.symm.trans hrecord')
        exact absurd huser' hbarred

/-! ## Versions -/

variable [OrderEq r G₁] [Fact r.Prime]

/-- `value_for` of the ring is the value of the accumulator. -/
theorem Sound.valueFor_activeHandles (hlive : params.Live d) (h : p.Sound lib params d) :
    p.accumulator.valueFor p.activeHandles = .ok p.accumulator.value := by
  obtain ⟨as, bs, hholds, -, hbs, hnodup, hperm⟩ := h.ring_listed
  have hproduct : rootProduct d.τ bs = rootProduct d.τ as := rootProduct_perm d.τ hperm
  have hcontext : params.accumulatorParameters.context.state = some d.pairing := by
    rw [hlive.context, hlive.pairing]
  have hvalue := (accumulate_eq_ok hlive.trapdoor).2 ⟨bs, hcontext, rfl,
    hperm.length_eq.trans_le hholds.fits, hproduct ▸ hholds.ne_zero, rfl⟩
  rw [Accumulator.valueFor, hbs, collectDistinct_liveAll.2 ⟨hnodup, rfl⟩, ok_bind,
    hholds.parameters, hvalue, hholds.value, hproduct]

/-- An exhausted accumulator stays so. -/
theorem exhausted_move (hlive : params.Live d) (hsound : p.Sound lib params d)
    (hmove : Move lib d p change p') (h : p.Exhausted) : p'.Exhausted := by
  obtain ⟨as, hholds, -⟩ := hsound.ring
  cases hmove with
  | addUser | addAccount | revoke | count => exact h
  | join accountId record snapshot acc hrecord hallowed hinactive hjoin =>
      obtain ⟨a, -, -, hversion, -⟩ := Accumulator.join_ok hlive.trapdoor hholds hjoin
      exact absurd h hversion
  | exit accountId record snapshot acc hrecord hactive hexit =>
      obtain ⟨a, -, -, hversion, -⟩ := Accumulator.exit_ok hlive.trapdoor hholds hexit
      exact absurd h hversion

theorem exhausted_moves (hlive : params.Live d) (hsound : p.Sound lib params d)
    (hmoves : Moves lib d changes p p') (h : p.Exhausted) : p'.Exhausted := by
  induction hmoves with
  | refl => exact h
  | tail hmoves hmove ih =>
      obtain ⟨change, -, hmove⟩ := hmove
      exact exhausted_move hlive (sound_moves hlive hsound hmoves) hmove ih

/-! ## Leaving the ring -/

/-- An active account leaves the ring, unless the accumulator is exhausted. -/
theorem exit_active (hlive : params.Live d) (hsound : p.Sound lib params d)
    {accountId : List UInt8} {key : AccountPublicKey r Gp} (hactive : p.Active accountId key) :
    (p.Exhausted ∧ ∃ e, p.exit accountId = (.error e, p)) ∨
      ((p.exit accountId).1 = .ok () ∧ ∀ accountId' key',
        (p.exit accountId).2.Active accountId' key' ↔
          p.Active accountId' key' ∧ accountId' ≠ accountId) := by
  obtain ⟨as, hholds, hring⟩ := hsound.ring
  obtain ⟨a, ha⟩ := hsound.active_live hactive
  have hmem : a ∈ as := (hring.mem a).2 ⟨accountId, key, hactive, ha⟩
  obtain ⟨record, hrecord, hflag, rfl⟩ := hactive
  have hexitable : p.exitable accountId = .ok record := by
    simp [exitable, account_eq_ok.2 hrecord, throwIf, hflag, pure, Except.pure]
  by_cases hversion : p.Exhausted
  · refine Or.inl ⟨hversion, ?_⟩
    rcases Accumulator.exit_cases hlive.trapdoor hholds record.secret.publicKey.member with
      ⟨e, herror⟩ | ⟨b, -, -, hne, -⟩
    · exact ⟨e, by simp only [exit, hexitable, settle, herror]⟩
    · exact absurd hversion hne
  · have hexit := Accumulator.exit_eq hlive.trapdoor hholds hmem hversion
    rw [← ha] at hexit
    refine Or.inr ⟨by simp only [exit, hexitable, settle, hexit], ?_⟩
    intro accountId' key'
    simp only [exit, hexitable, settle, hexit]
    exact active_exit

/-- The loop of a revocation takes its accounts out of the ring, or ends at an exhausted
accumulator. -/
theorem exitAll_cases (hlive : params.Live d) (hsound : p.Sound lib params d)
    {accountIds : List (List UInt8)} (hnodup : accountIds.Nodup)
    (hactive : ∀ accountId ∈ accountIds, ∃ key, p.Active accountId key) :
    (∃ e, (p.exitAll accountIds).1 = .error e ∧ (p.exitAll accountIds).2.Exhausted) ∨
      ((p.exitAll accountIds).1 = .ok () ∧ ∀ accountId key,
        (p.exitAll accountIds).2.Active accountId key ↔
          p.Active accountId key ∧ accountId ∉ accountIds) := by
  induction accountIds generalizing p with
  | nil => exact Or.inr ⟨rfl, fun accountId key => by simp [exitAll]⟩
  | cons accountId accountIds ih =>
      obtain ⟨hnotmem, hnodup⟩ := List.nodup_cons.1 hnodup
      obtain ⟨key, hkey⟩ := hactive accountId List.mem_cons_self
      rcases exit_active hlive hsound hkey with ⟨hversion, e, herror⟩ | ⟨hok, hring⟩
      · refine Or.inl ⟨e, ?_⟩
        simp only [exitAll, herror]
        exact ⟨trivial, hversion⟩
      · have hsound' := sound_moves hlive hsound (exit_acts hlive hsound accountId).moves
        have hrest : ∀ id ∈ accountIds, ∃ key, (p.exit accountId).2.Active id key := by
          intro id hid
          obtain ⟨key', hkey'⟩ := hactive id (List.mem_cons_of_mem _ hid)
          exact ⟨key', (hring id key').2 ⟨hkey', fun heq => hnotmem (heq ▸ hid)⟩⟩
        simp only [exitAll, hok]
        rcases ih hsound' hnodup hrest with herror | ⟨hall, hactive'⟩
        · exact Or.inl herror
        · refine Or.inr ⟨hall, ?_⟩
          intro id key'
          rw [hactive', hring, List.mem_cons, not_or, and_assoc]

/-- A revocation changes nothing for an unknown user; otherwise it takes all accounts of
the user out of the ring, or ends at an exhausted accumulator. -/
theorem revokeUser_cases (hlive : params.Live d) (hsound : p.Sound lib params d)
    (userId : List UInt8) :
    (∃ e, p.revokeUser userId = (.error e, p)) ∨
      (∃ e, (p.revokeUser userId).1 = .error e ∧ (p.revokeUser userId).2.Exhausted) ∨
      ((p.revokeUser userId).1 = .ok () ∧
        (p.revokeUser userId).2.revokedUsers = p.revokedUsers.insert userId ∧
        ∀ accountId key, (p.revokeUser userId).2.Active accountId key →
          p.Active accountId key ∧ key.userId ≠ userId) := by
  cases huser : p.user userId with
  | error e => exact Or.inl ⟨e, by simp only [revokeUser, huser]⟩
  | ok owner =>
      have hrevoke : Move lib d p (.revoke userId)
          { p with revokedUsers := p.revokedUsers.insert userId } := .revoke userId
      have hsound' := sound_move hlive hsound hrevoke
      simp only [revokeUser, huser]
      refine Or.inr ?_
      rcases exitAll_cases hlive hsound' (nodup_owned userId) fun accountId hid =>
        (mem_owned.1 hid).imp fun key hkey => hkey.1 with herror | ⟨hok, hring⟩
      · exact Or.inl herror
      · refine Or.inr ⟨hok, revokedUsers_of_moves (exitAll_moves hlive hsound' _) ?_, ?_⟩
        · rintro userId' ⟨accountId, heq⟩
          cases heq
        · intro accountId key hactive
          obtain ⟨hold, hnot⟩ := (hring accountId key).1 hactive
          exact ⟨hold, fun huser => hnot (mem_owned.2 ⟨key, hold, huser⟩)⟩

/-- A revocation that returns bars the user. -/
theorem barred_revokeUser (hlive : params.Live d) (hsound : p.Sound lib params d)
    {userId : List UInt8} (h : (p.revokeUser userId).1 = .ok ()) :
    (p.revokeUser userId).2.Barred userId := by
  rcases revokeUser_cases hlive hsound userId with ⟨e, herror⟩ | ⟨e, herror, -⟩ | ⟨-, hset, hring⟩
  · rw [herror] at h
    cases h
  · rw [herror] at h
    cases h
  · exact ⟨hset ▸ mem_set_insert.2 (Or.inl rfl), fun accountId key hactive =>
      (hring accountId key hactive).2⟩

/-! ## The ring is cleared -/

theorem Acts.cleared {α : Type} {result : Except Thrown α × ClearProtocol r G₁ G₂ Gp}
    (hlive : params.Live d) (hsound : p.Sound lib params d) (hacts : Acts lib d changes p result)
    (hchanges : ∀ userId, .revoke userId ∉ changes) (h : p.Cleared) : result.2.Cleared := by
  rcases hacts with ⟨e, rfl⟩ | ⟨a, p', rfl, change, hchange, hmove⟩
  · exact h
  · intro hversion accountId key hactive
    have hbefore : ¬ p.Exhausted := fun hp => hversion (exhausted_move hlive hsound hmove hp)
    rw [revokedUsers_of_move hmove fun userId heq => hchanges userId (heq ▸ hchange)]
    rcases active_of_move hmove hactive with hold | hallowed
    · exact h hbefore accountId key hold
    · exact hallowed

theorem cleared_revokeUser (hlive : params.Live d) (hsound : p.Sound lib params d)
    (h : p.Cleared) (userId : List UInt8) : (p.revokeUser userId).2.Cleared := by
  rcases revokeUser_cases hlive hsound userId with
    ⟨e, herror⟩ | ⟨e, -, hversion⟩ | ⟨-, hset, hring⟩
  · rw [herror]
    exact h
  · exact fun hne => absurd hversion hne
  · intro hversion accountId key hactive
    have hbefore : ¬ p.Exhausted := fun hp =>
      hversion (exhausted_moves hlive hsound (revokeUser_moves hlive hsound userId) hp)
    obtain ⟨hold, hne⟩ := hring accountId key hactive
    rw [hset, mem_set_insert, not_or]
    exact ⟨hne, h hbefore accountId key hold⟩

theorem cleared_apply (hlive : params.Live d) (hsound : p.Sound lib params d) (h : p.Cleared)
    (call : ClearCall r) : (p.apply lib call).2.Cleared := by
  by_cases hcall : ∃ userId, call = .revokeUser userId
  · obtain ⟨userId, rfl⟩ := hcall
    exact cleared_revokeUser hlive hsound h userId
  · apply (apply_acts hlive hsound (not_exists.1 hcall)).cleared hlive hsound _ h
    intro userId hchange
    cases call with
    | revokeUser userId' => exact hcall ⟨userId', rfl⟩
    | createUser | createAccount | join | exit | signClear => cases hchange

theorem cleared_after (hlive : params.Live d) (hsound : p.Sound lib params d) (h : p.Cleared)
    (calls : List (ClearCall r)) : (p.after lib calls).Cleared := by
  induction calls generalizing p with
  | nil => exact h
  | cons call calls ih =>
      have hsound' := sound_moves hlive hsound (apply_moves hlive hsound call)
      exact ih hsound' (cleared_apply hlive hsound h call)

end ClearProtocol

/-! ## A small instance -/

/-- The residues modulo the order of `G_p`, written multiplicatively. -/
abbrev SampleGp : Type := Multiplicative (ZMod ristrettoOrder)

/-- A hash of two bytes: the sum of the bytes and a byte that keeps it from being zero. -/
def sampleHash (bytes : List UInt8) : List UInt8 := [bytes.foldl (· + ·) 0, 1]

theorem sampleHash_ne_zero (bytes : List UInt8) :
    (littleEndianValue (sampleHash bytes) : ZMod ristrettoOrder) ≠ 0 := by
  have hvalue : littleEndianValue (sampleHash bytes) = (bytes.foldl (· + ·) 0).toNat + 256 := by
    simp [littleEndianValue, bigEndianValue, sampleHash]
    omega
  have hbyte := (bytes.foldl (· + ·) (0 : UInt8)).toNat_lt
  rw [hvalue, ne_eq, ZMod.natCast_eq_zero_iff]
  apply Nat.not_dvd_of_pos_of_lt (Nat.succ_pos _)
  unfold ristrettoOrder
  omega

/-- A library over small groups. -/
def sampleLibrary : CryptoLibrary SampleGroup SampleGroup SampleGroup SampleGp where
  pairing := samplePairing
  encodeG1 g := [UInt8.ofNat g.toAdd.val]
  gpGenerator := .ofAdd 1
  encodeGp x := bigEndian 32 x.toAdd.val
  gpFromHash bytes := .ofAdd (littleEndianValue bytes : ZMod ristrettoOrder)
  generichash := sampleHash
  hash_nonzero _ _ := ⟨0, Nat.two_pow_pos 64, sampleHash_ne_zero _⟩

/-- The elements that the setup draws. -/
def sampleDraws : SetupDraws SampleGroup SampleGroup where
  g0 _ := .ofAdd 1
  g1 _ := .ofAdd (2 : ℕ)
  g2 _ := .ofAdd (3 : ℕ)
  generator _ := .ofAdd 1
  pairingBase _ := .ofAdd 1

/-- A setup for two signatures a user and rings of up to three accounts. -/
def sampleSetup : Except Thrown (Parameters SampleGroup SampleGroup SampleGp) :=
  Parameters.forTesting 11 sampleLibrary sampleDraws ⟨some 1, []⟩ ⟨some 2⟩ (textBytes "issue") 2 3 0

/-- Two users with an account each in the ring; the second account cannot join again. -/
def sampleClearCalls : List (ClearCall 11) :=
  [.createUser (textBytes "alice") (4 : ℕ), .createAccount (textBytes "alice") (textBytes "a"),
   .join (textBytes "a"), .createUser (textBytes "bob") (5 : ℕ),
   .createAccount (textBytes "bob") (textBytes "b"), .join (textBytes "b"), .join (textBytes "b")]

/-- The state after these calls. -/
def sampleState (params : Parameters SampleGroup SampleGroup SampleGp) :
    ClearProtocol 11 SampleGroup SampleGroup SampleGp :=
  (ClearProtocol.start params).after sampleLibrary sampleClearCalls

/-- The size of the ring, and whether a revocation of the first user returns. -/
def sampleOutcome (params : Parameters SampleGroup SampleGroup SampleGp) : ℕ × Bool :=
  ((sampleState params).activeHandles.length,
    ((sampleState params).revokeUser (textBytes "alice")).1.isOk)

theorem sampleOutcome_eq : sampleSetup.map sampleOutcome = .ok (2, true) := by decide +kernel

/-! ## The invariant of the registry -/

variable [CommGroup G₁] [CommGroup G₂] [CommGroup GT] [CommGroup Gp] [DecidableEq G₁]
  [DecidableEq G₂] [DecidableEq GT] [OrderEq r G₁] [OrderEq r G₂] [OrderEq r GT] [Fact r.Prime]

/-- Registry, ring and accumulator stay in step along every run of calls, whether they
return or throw, and a revocation that has returned holds for good. -/
theorem clear_registry_in_step {lib : CryptoLibrary G₁ G₂ GT Gp} {draws : SetupDraws G₁ G₂}
    {pairing : PairingContext} {ddh : DdhContext} {issue : List UInt8} {limit maxMembers : UInt64}
    {ownership : ℕ} {params : Parameters G₁ G₂ Gp}
    (hsetup : Parameters.forTesting r lib draws pairing ddh issue limit maxMembers ownership =
      .ok params) (calls : List (ClearCall r)) :
    let p := (ClearProtocol.start params : ClearProtocol r G₁ G₂ Gp).after lib calls
    -- the accumulator holds the handles of the active accounts
    (p.accumulator.members.Perm p.activeHandles ∧ p.activeHandles.Nodup ∧
      p.accumulator.valueFor p.activeHandles = .ok p.accumulator.value) ∧
    -- a revoked user has no active account
    (p.accumulator.version.toNat < 2 ^ 64 - 1 →
      ∀ (accountId : List UInt8) (record : AccountRecord r Gp),
        p.accounts[accountId]? = some record → record.active = true →
          record.secret.publicKey.userId ∉ p.revokedUsers) ∧
    -- a call that throws changes nothing
    (∀ call error, (∀ userId, call ≠ .revokeUser userId) →
      (p.apply lib call).1 = .error error → (p.apply lib call).2 = p) ∧
    -- a revocation that has returned holds in every later state
    ∀ userId, (p.revokeUser userId).1 = .ok () → ∀ later,
      let q := (p.revokeUser userId).2.after lib later
      (∀ (accountId : List UInt8) (record : AccountRecord r Gp),
        q.accounts[accountId]? = some record → record.secret.publicKey.userId = userId →
          record.active = false ∧ (∃ error, q.join accountId = (.error error, q)) ∧
            ∀ userId' message timestamp, ∃ error,
              q.signClear lib userId' accountId message timestamp = (.error error, q)) ∧
      ∀ accountId message timestamp, ∃ error,
        q.signClear lib userId accountId message timestamp = (.error error, q) := by
  obtain ⟨-, d, hlive⟩ := Parameters.forTesting_live (r := r) hsetup
  have hstart : (ClearProtocol.start params : ClearProtocol r G₁ G₂ Gp).Sound lib params d :=
    ClearProtocol.sound_start hlive
  intro p
  have hsound : p.Sound lib params d := ClearProtocol.sound_after hlive hstart calls
  refine ⟨⟨?_, ?_, hsound.valueFor_activeHandles hlive⟩, ?_, ?_, ?_⟩
  · obtain ⟨as, bs, hholds, -, hbs, -, hperm⟩ := hsound.ring_listed
    rw [hholds.members, hbs]
    exact hperm.symm.map _
  · obtain ⟨as, -, hring⟩ := hsound.ring
    exact hring.nodup_activeHandles
  · intro hversion accountId record hrecord hactive
    have hempty : (ClearProtocol.start params : ClearProtocol r G₁ G₂ Gp).Cleared := by
      rintro - id key ⟨record, hrecord, -⟩
      simp [ClearProtocol.start] at hrecord
    exact ClearProtocol.cleared_after hlive hstart hempty calls
      (Accumulator.version_ne_iff.2 hversion) accountId _ ⟨record, hrecord, hactive, rfl⟩
  · intro call error hcall herror
    exact (ClearProtocol.apply_acts hlive hsound hcall).eq_of_error herror
  · intro userId hrevoked later q
    have hrevocation := ClearProtocol.revokeUser_moves hlive hsound userId
    have hlater := ClearProtocol.moves_after hlive
      (ClearProtocol.sound_moves hlive hsound hrevocation) later
    have hbarred : q.Barred userId :=
      ClearProtocol.barred_moves hlater (ClearProtocol.barred_revokeUser hlive hsound hrevoked)
    refine ⟨?_, ?_⟩
    · intro accountId record hrecord huser
      refine ⟨?_, hbarred.join_throws hrecord huser, ?_⟩
      · apply Bool.eq_false_of_not_eq_true
        intro hactive
        exact hbarred.2 accountId _ ⟨record, hrecord, hactive, rfl⟩ huser
      · intro userId' message timestamp
        exact hbarred.sign_throws (Or.inr ⟨record, hrecord, huser⟩)
    · intro accountId message timestamp
      exact hbarred.sign_throws (Or.inl rfl)

theorem clear_registry_in_step_sample :
    ∃ params, sampleSetup = .ok params ∧ (sampleState params).activeHandles.length = 2 ∧
      (sampleState params).accumulator.members.Perm (sampleState params).activeHandles ∧
      ((sampleState params).revokeUser (textBytes "alice")).1 = .ok () ∧
      ∀ later accountId message timestamp, ∃ error,
        ((((sampleState params).revokeUser (textBytes "alice")).2.after sampleLibrary later).signClear
          sampleLibrary (textBytes "alice") accountId message timestamp).1 = .error error := by
  obtain ⟨params, hsetup, houtcome⟩ := map_eq_ok.1 sampleOutcome_eq
  obtain ⟨hlength, hok⟩ := Prod.mk.inj houtcome
  obtain ⟨⟨⟩, hrevoked⟩ := exists_ok_of_isOk hok
  obtain ⟨⟨hperm, -⟩, -, -, hlater⟩ := clear_registry_in_step hsetup sampleClearCalls
  refine ⟨params, hsetup, hlength, hperm, hrevoked, ?_⟩
  intro later accountId message timestamp
  obtain ⟨error, herror⟩ := (hlater _ hrevoked later).2 accountId message timestamp
  exact ⟨error, congrArg Prod.fst herror⟩

end Lktrs.Protocol
