import Lktrs.Protocol.ClearSigning

/-!
# Signatures over whole runs

Two facts about `sign_clear` along runs of the clear protocol. A signature verifies where
it was made and as long as no call changes the ring (`ChangesRing`), since then the label
stays what it was. And the signatures that a user has obtained form a ledger (`Ledger`):
the next counter is their number, the limit bounds it, and the counter of each is its
place, so that their one-time passes differ.
-/

set_option autoImplicit false

namespace Lktrs.Protocol

open Lktrs.Foundation
open Std (ExtTreeMap)

variable {r : ℕ} {G₁ G₂ GT Gp : Type}

namespace ClearProtocol

variable {d : SetupData r G₁ G₂ Gp} {p p' q : ClearProtocol r G₁ G₂ Gp}

/-! ## Calls that keep the ring -/

/-- The changes of the ring. -/
def Change.OnRing : Change → Prop
  | .join _ | .exit _ => True
  | .addUser _ | .addAccount _ | .revoke _ | .count _ => False

/-- A new account is not listed, since it has not joined. -/
theorem activeKeys_addAccount {accountId : List UInt8} {secret : AccountSecret r Gp}
    (hnew : p.accounts[accountId]? = none) :
    activeKeys { p with accounts := p.accounts.insertIfNew accountId ⟨secret, false⟩ } =
      p.activeKeys := by
  have hentries : ((p.accounts.insertIfNew accountId ⟨secret, false⟩).toList.filter
      fun entry => entry.2.active) = p.accounts.toList.filter fun entry => entry.2.active := by
    apply filter_toList_congr
    intro accountId' record hactive
    rw [getElem?_insertIfNew_of_new hnew]
    by_cases hid : accountId = accountId'
    · -- the new record is not active, and there was none before
      subst hid
      rw [if_pos rfl, hnew]
      constructor
      · rintro ⟨⟩
        cases hactive
      · rintro ⟨⟩
    · rw [if_neg hid]
  rw [activeKeys, hentries, activeKeys]

section Calls

variable [CommGroup G₁] [CommGroup G₂] [CommGroup GT] [CommGroup Gp] [DecidableEq G₁]
  {lib : CryptoLibrary G₁ G₂ GT Gp} {params : Parameters G₁ G₂ Gp} {change : Change}
  {changes : Set Change}

/-- The call changes the ring: a join or an exit that returns, or a revocation that takes
an account out of it. -/
def ChangesRing (p : ClearProtocol r G₁ G₂ Gp) : ClearCall r → Prop
  | .join accountId => (p.join accountId).1 = .ok ()
  | .exit accountId => (p.exit accountId).1 = .ok ()
  | .revokeUser userId => (p.revokeUser userId).2.currentLabel ≠ p.currentLabel
  | .createUser .. | .createAccount .. | .signClear .. => False

/-- No call of the list changes the ring. -/
def KeepsRing (lib : CryptoLibrary G₁ G₂ GT Gp) :
    ClearProtocol r G₁ G₂ Gp → List (ClearCall r) → Prop
  | _, [] => True
  | p, call :: calls => ¬ p.ChangesRing call ∧ KeepsRing lib (p.apply lib call).2 calls

/-- Only a join or an exit changes the label. -/
theorem currentLabel_move (h : Move lib d p change p') (hchange : ¬ change.OnRing) :
    p'.currentLabel = p.currentLabel := by
  cases h with
  | join | exit => exact absurd trivial hchange
  | addAccount accountId secret owner keys δ m hnew hid howner hkeys hmade =>
      rw [currentLabel, activeKeys_addAccount hnew, currentLabel]
  | addUser | revoke | count => rfl

theorem currentLabel_moves (h : Moves lib d changes p p')
    (hchanges : ∀ change ∈ changes, ¬ change.OnRing) : p'.currentLabel = p.currentLabel := by
  induction h with
  | refl => rfl
  | tail _ hmove ih =>
      obtain ⟨change, hchange, hmove⟩ := hmove
      rw [currentLabel_move hmove (hchanges change hchange), ih]

variable [OrderEq r G₁] [Fact r.Prime]

/-- A call that does not change the ring keeps the label. -/
theorem currentLabel_apply (hlive : params.Live d) (hsound : p.Sound lib params d)
    {call : ClearCall r} (h : ¬ p.ChangesRing call) :
    (p.apply lib call).2.currentLabel = p.currentLabel := by
  have hmoves := apply_moves hlive hsound call
  cases call with
  | createUser | createAccount | signClear =>
      apply currentLabel_moves hmoves
      rintro change rfl
      exact not_false
  -- a join or an exit that throws leaves the state as it was
  | join accountId => exact congrArg currentLabel ((join_acts hlive hsound accountId).eq_of_ne_ok h)
  | exit accountId => exact congrArg currentLabel ((exit_acts hlive hsound accountId).eq_of_ne_ok h)
  | revokeUser userId => exact not_not.1 h

theorem currentLabel_after (hlive : params.Live d) (hsound : p.Sound lib params d)
    {calls : List (ClearCall r)} (h : KeepsRing lib p calls) :
    (p.after lib calls).currentLabel = p.currentLabel := by
  induction calls generalizing p with
  | nil => rfl
  | cons call calls ih =>
      obtain ⟨hcall, hcalls⟩ := h
      have hsound' := sound_moves hlive hsound (apply_moves hlive hsound call)
      calc (p.after lib (call :: calls)).currentLabel
          = ((p.apply lib call).2.after lib calls).currentLabel := rfl
        _ = (p.apply lib call).2.currentLabel := ih hsound' hcalls
        _ = p.currentLabel := currentLabel_apply hlive hsound hcall

variable [DecidableEq GT] [DecidableEq Gp] [OrderEq r G₂] [OrderEq r GT]

/-- A signature verifies where it was made and wherever the label is the same later. -/
theorem verifyClear_of_sign (hlive : params.Live d) (hsound : p.Sound lib params d)
    (hlimit : params.limit.toNat ≤ r) {userId accountId message : List UInt8} {timestamp : UInt64}
    {sig : ClearSignature r G₁ Gp}
    (hsign : p.sign lib userId accountId message timestamp = .ok sig)
    (hmoves : Moves lib d changes p q) (hlabel : q.currentLabel = p.currentLabel) :
    q.verifyClear lib q.currentLabel message sig = true := by
  have hsound' := sound_moves hlive hsound hmoves
  obtain ⟨owner, key, keys, a, -, -, -, haccepted⟩ := accepted_of_sign hlive hsound hlimit hsign
  rw [verifyClear_iff hlive hsound']
  exact ⟨key, keys, _, a, haccepted.kept hlive hsound hsound' (keeps_moves hmoves) hlabel⟩

end Calls

/-! ## The signatures of a user -/

/-- The record of a user in a later state: it is the same, or it was made in between and
counts no signature. -/
def SameOrNew (userId : List UInt8) (p p' : ClearProtocol r G₁ G₂ Gp) : Prop :=
  p'.users[userId]? = p.users[userId]? ∨
    p.users[userId]? = none ∧ ∃ owner, p'.users[userId]? = some owner ∧ owner.nextCounter = 0

section Issued

variable [CommGroup G₁] [CommGroup G₂] [CommGroup GT] [CommGroup Gp] [DecidableEq G₁]
  {lib : CryptoLibrary G₁ G₂ GT Gp} {change : Change} {changes : Set Change}

/-- Only a count for the user changes their record. -/
theorem sameOrNew_move (h : Move lib d p change p') {userId : List UInt8}
    (hchange : change ≠ .count userId) : SameOrNew userId p p' := by
  cases h with
  | addAccount | join | exit | revoke => exact Or.inl rfl
  | addUser userId' owner keys hnew hkeys hzero =>
      by_cases hid : userId' = userId
      · subst hid
        exact Or.inr ⟨hnew, owner, by simp, hzero⟩
      · exact Or.inl (getElem?_insert_of_ne hid)
  | count userId' owner howner hlimit =>
      refine Or.inl ?_
      rw [getElem?_countSignature, if_neg]
      rintro rfl
      exact hchange rfl

theorem sameOrNew_moves (h : Moves lib d changes p p') {userId : List UInt8}
    (hchanges : .count userId ∉ changes) : SameOrNew userId p p' := by
  induction h with
  | refl => exact Or.inl rfl
  | tail _ hmove ih =>
      obtain ⟨change, hchange, hmove⟩ := hmove
      rcases sameOrNew_move hmove fun heq => hchanges (heq ▸ hchange) with
        hsame | ⟨hnew, owner, howner, hzero⟩
      · unfold SameOrNew
        rw [hsame]
        exact ih
      · rcases ih with hsame | ⟨-, owner', howner', -⟩
        · exact Or.inr ⟨hsame.symm.trans hnew, owner, howner, hzero⟩
        · -- a record is made once
          rw [hnew] at howner'
          cases howner'

/-- The signature that a call returns for the user. -/
def signatureFor (lib : CryptoLibrary G₁ G₂ GT Gp) (userId : List UInt8)
    (p : ClearProtocol r G₁ G₂ Gp) : ClearCall r → Option (ClearSignature r G₁ Gp)
  | .signClear userId' accountId message timestamp =>
      if userId' = userId then
        (p.signClear lib userId' accountId message timestamp).1.toOption
      else none
  | _ => none

/-- The signatures that a list of calls returns for the user, in order. -/
def issued (lib : CryptoLibrary G₁ G₂ GT Gp) (userId : List UInt8) :
    ClearProtocol r G₁ G₂ Gp → List (ClearCall r) → List (ClearSignature r G₁ Gp)
  | _, [] => []
  | p, call :: calls =>
      (p.signatureFor lib userId call).toList ++ issued lib userId (p.apply lib call).2 calls

/-- Only a call that counts for the user returns a signature for them. -/
theorem signatureFor_eq_none {userId : List UInt8} {call : ClearCall r}
    (h : .count userId ∉ Changes call) : p.signatureFor lib userId call = none := by
  cases call with
  | signClear userId' accountId message timestamp =>
      apply if_neg
      rintro rfl
      exact h rfl
  | createUser | createAccount | join | exit | revokeUser => rfl

end Issued

/-! ## The ledger -/

variable [CommGroup Gp] {params : Parameters G₁ G₂ Gp}

/-- The signature was made with these secrets under this counter. -/
structure Numbered (d : SetupData r G₁ G₂ Gp) (keys : UserKeys r) (c : UInt64)
    (sig : ClearSignature r G₁ Gp) : Prop where
  counter : smallCounter sig.witness.counter = .ok c
  pass : sig.oneTimePass = .live d.ddh (d.pass keys c)

/-- The signatures are those that the user has obtained: as many as the next counter says,
at most the limit, and each with its place as its counter. -/
structure Ledger (params : Parameters G₁ G₂ Gp) (d : SetupData r G₁ G₂ Gp) (userId : List UInt8)
    (sigs : List (ClearSignature r G₁ Gp)) (p : ClearProtocol r G₁ G₂ Gp) : Prop where
  absent : p.users[userId]? = none → sigs = []
  counted : ∀ owner, p.users[userId]? = some owner → owner.nextCounter.toNat = sigs.length
  bounded : sigs.length ≤ params.limit.toNat
  numbered : ∀ owner keys, p.users[userId]? = some owner → owner.HasKeys d keys →
    ∀ i sig, sigs[i]? = some sig → Numbered d keys (UInt64.ofNat i) sig

theorem ledger_start (userId : List UInt8) :
    Ledger params d userId [] (start params : ClearProtocol r G₁ G₂ Gp) where
  absent _ := rfl
  counted := by
    intro owner howner
    simp [start] at howner
  bounded := Nat.zero_le _
  numbered := by
    intro owner keys howner
    simp [start] at howner

/-- The ledger stays when the record of the user does. -/
theorem Ledger.kept {userId : List UInt8} {sigs : List (ClearSignature r G₁ Gp)}
    (h : Ledger params d userId sigs p) (huser : SameOrNew userId p q) :
    Ledger params d userId sigs q := by
  rcases huser with hsame | ⟨hnew, owner, howner, hzero⟩
  · refine ⟨?_, ?_, h.bounded, ?_⟩
    · rw [hsame]
      exact h.absent
    · rw [hsame]
      exact h.counted
    · rw [hsame]
      exact h.numbered
  · -- a user that is made now has signed nothing
    obtain rfl := h.absent hnew
    refine ⟨fun _ => rfl, ?_, Nat.zero_le _, ?_⟩
    · intro owner' howner'
      obtain rfl := Option.some.inj (howner.symm.trans howner')
      rw [hzero]
      rfl
    · rintro owner' keys - - i sig hsig
      cases hsig

/-- Passes for different counters differ. -/
theorem pass_equals [DecidableEq Gp] [OrderEq ristrettoOrder Gp] (huT : d.uT ≠ 1) (keys : UserKeys r) (k : ℕ)
    (c c' : UInt64) :
    (Element.live k (d.pass keys c)).equals gpElementTexts (.live k (d.pass keys c')) =
      .ok (decide (c = c')) := by
  have hiff : d.pass keys c = d.pass keys c' ↔ c = c' := by
    rw [SetupData.pass, SetupData.pass, residuePow_inj huT, inv_inj, UserKeys.sDenom_inj]
  rw [Element.equals_live]
  exact congrArg Except.ok (decide_eq_decide.2 hiff)

variable [CommGroup G₁] [CommGroup G₂] [CommGroup GT] {lib : CryptoLibrary G₁ G₂ GT Gp}
  [Fact r.Prime]

/-- The counter of each entry is its place. -/
theorem Ledger.counter {userId : List UInt8} {sigs : List (ClearSignature r G₁ Gp)}
    (h : Ledger params d userId sigs p) (hsound : p.Sound lib params d) :
    ∃ keys : UserKeys r, ∀ i sig, sigs[i]? = some sig → Numbered d keys (UInt64.ofNat i) sig := by
  cases howner : p.users[userId]? with
  | none =>
      obtain rfl := h.absent howner
      refine ⟨⟨0, 0, 0, 0, 0, 0⟩, ?_⟩
      intro i sig hsig
      cases hsig
  | some owner =>
      obtain ⟨keys, hkeys⟩ := hsound.users userId owner howner
      exact ⟨keys, h.numbered owner keys howner hkeys⟩

section Passes

variable [DecidableEq Gp]

/-- The one-time passes of the entries differ from each other. -/
theorem Ledger.passes_distinct [OrderEq ristrettoOrder Gp] (huT : d.uT ≠ 1) {userId : List UInt8}
    {sigs : List (ClearSignature r G₁ Gp)} (h : Ledger params d userId sigs p)
    (hsound : p.Sound lib params d) :
    sigs.Pairwise fun sig sig' =>
      sig.oneTimePass.equals gpElementTexts sig'.oneTimePass = .ok false := by
  obtain ⟨keys, hnumbered⟩ := h.counter hsound
  have hbound := h.bounded
  have hword := params.limit.toNat_lt
  rw [List.pairwise_iff_getElem]
  intro i j hi hj hij
  have hfirst := hnumbered i sigs[i] (List.getElem?_eq_getElem hi)
  have hsecond := hnumbered j sigs[j] (List.getElem?_eq_getElem hj)
  have hne : UInt64.ofNat i ≠ UInt64.ofNat j := by
    intro heq
    have hnat := congrArg UInt64.toNat heq
    rw [UInt64.toNat_ofNat', UInt64.toNat_ofNat'] at hnat
    omega
  rw [hfirst.pass, hsecond.pass, pass_equals huT, decide_eq_false hne]

end Passes

variable [DecidableEq G₁] [DecidableEq GT] [OrderEq r G₁] [OrderEq r G₂] [OrderEq r GT]

/-- A signature that is returned is entered under the next number. -/
theorem Ledger.sign {userId accountId message : List UInt8} {timestamp : UInt64}
    {sigs : List (ClearSignature r G₁ Gp)} {sig : ClearSignature r G₁ Gp} (hlive : params.Live d)
    (hsound : p.Sound lib params d) (hlimit : params.limit.toNat ≤ r)
    (h : Ledger params d userId sigs p)
    (hsign : p.sign lib userId accountId message timestamp = .ok sig) :
    Ledger params d userId (sigs ++ [sig]) (p.countSignature userId) := by
  obtain ⟨owner, key, keys, a, howner, rfl, -, haccepted⟩ :=
    accepted_of_sign hlive hsound hlimit hsign
  have hcounted := h.counted owner howner
  have hbelow : owner.nextCounter.toNat < params.limit.toNat := by
    rw [← hsound.parameters]
    exact UInt64.lt_iff_toNat_lt.1 haccepted.below
  have hword := params.limit.toNat_lt
  have hnext : (p.countSignature key.userId).users[key.userId]? =
      some { owner with nextCounter := owner.nextCounter + 1 } := by
    rw [getElem?_countSignature, if_pos rfl, howner, Option.map_some]
  refine ⟨?_, ?_, ?_, ?_⟩
  · intro hnone
    rw [hnext] at hnone
    cases hnone
  · intro owner' howner'
    obtain rfl := Option.some.inj (hnext.symm.trans howner')
    simp only [UInt64.toNat_add, UInt64.toNat_one, List.length_append, List.length_singleton]
    omega
  · rw [List.length_append, List.length_singleton]
    omega
  · intro owner' keys' howner' hkeys' i sig' hsig'
    obtain rfl := Option.some.inj (hnext.symm.trans howner')
    -- the secrets stay when a signature is counted
    obtain ⟨owner'', howner'', hkeys⟩ := haccepted.registered.owner
    obtain rfl := Option.some.inj (howner.symm.trans howner'')
    obtain rfl : keys = keys' := (hkeys.counted _).unique hkeys'
    rw [List.getElem?_append] at hsig'
    split at hsig'
    · exact h.numbered owner keys howner hkeys i sig' hsig'
    · -- the last entry has the number of those before it
      obtain ⟨hi, rfl⟩ := List.getElem?_eq_some_iff.1 hsig'
      have hplace : UInt64.ofNat i = owner.nextCounter := by
        rw [List.length_singleton] at hi
        obtain rfl : i = sigs.length := by omega
        rw [← hcounted, UInt64.ofNat_toNat]
      rw [hplace, List.getElem_singleton]
      exact ⟨haccepted.counter, haccepted.pass⟩

/-- So is what `sign_clear` does, whether it returns or throws. -/
theorem Ledger.signClear {userId accountId message : List UInt8} {timestamp : UInt64}
    {sigs : List (ClearSignature r G₁ Gp)} (hlive : params.Live d) (hsound : p.Sound lib params d)
    (hlimit : params.limit.toNat ≤ r) (h : Ledger params d userId sigs p) :
    Ledger params d userId
      (sigs ++ (p.signClear lib userId accountId message timestamp).1.toOption.toList)
      (p.signClear lib userId accountId message timestamp).2 := by
  cases hsign : p.sign lib userId accountId message timestamp with
  | error e =>
      simp only [ClearProtocol.signClear, hsign, Except.toOption, Option.toList_none,
        List.append_nil]
      exact h
  | ok sig =>
      simp only [ClearProtocol.signClear, hsign, Except.toOption, Option.toList_some]
      exact h.sign hlive hsound hlimit hsign

/-- Every call keeps the ledger, with the signature it returns entered. -/
theorem Ledger.apply {userId : List UInt8} {sigs : List (ClearSignature r G₁ Gp)}
    (hlive : params.Live d) (hsound : p.Sound lib params d) (hlimit : params.limit.toNat ≤ r)
    (h : Ledger params d userId sigs p) (call : ClearCall r) :
    Ledger params d userId (sigs ++ (p.signatureFor lib userId call).toList)
      (p.apply lib call).2 := by
  by_cases hcount : .count userId ∈ Changes call
  · cases call with
    | signClear userId' accountId message timestamp =>
        obtain rfl : userId = userId' := Change.count.inj hcount
        rw [signatureFor, if_pos rfl]
        exact h.signClear hlive hsound hlimit
    | revokeUser => simp [Changes] at hcount
    | createUser | createAccount | join | exit => cases hcount
  · rw [signatureFor_eq_none hcount, Option.toList_none, List.append_nil]
    exact h.kept (sameOrNew_moves (apply_moves hlive hsound call) hcount)

theorem Ledger.after {userId : List UInt8} {sigs : List (ClearSignature r G₁ Gp)}
    (hlive : params.Live d) (hsound : p.Sound lib params d) (hlimit : params.limit.toNat ≤ r)
    (h : Ledger params d userId sigs p) (calls : List (ClearCall r)) :
    Ledger params d userId (sigs ++ issued lib userId p calls) (p.after lib calls) := by
  induction calls generalizing p sigs with
  | nil =>
      rw [issued, List.append_nil]
      exact h
  | cons call calls ih =>
      have hsound' := sound_moves hlive hsound (apply_moves hlive hsound call)
      rw [issued, ← List.append_assoc]
      exact ih hsound' (h.apply hlive hsound hlimit call)

end ClearProtocol

/-! ## Two signatures of one counter -/

instance : OrderEq ristrettoOrder SampleGp :=
  ⟨by rw [Nat.card_eq_fintype_card, Fintype.card_multiplicative, ZMod.card]⟩

/-- Two signatures under one counter, as a user makes them who does not count the first. -/
def samplePair (params : Parameters SampleGroup SampleGroup SampleGp) :
    Except Thrown (ClearSignature 11 SampleGroup SampleGp × ClearSignature 11 SampleGroup SampleGp) := do
  let first ← (sampleState params).sign sampleLibrary (textBytes "alice") (textBytes "a")
    (textBytes "yes") 7
  let second ← (sampleState params).sign sampleLibrary (textBytes "alice") (textBytes "a")
    (textBytes "no") 8
  pure (first, second)

/-- The base for the issue, whether no two users share the secret of `G_p`, and whether the two
signatures have one challenge in it. -/
def sampleSigning (params : Parameters SampleGroup SampleGroup SampleGp) :
    Element SampleGp × Bool × Except Thrown Bool :=
  (params.uT, decide ((sampleState params).users.toList.map fun entry => entry.2.xGp).Nodup,
    (samplePair params).map fun pair => decide (
      (sampleState params).gpChallenge sampleLibrary pair.1.challenge =
        (sampleState params).gpChallenge sampleLibrary pair.2.challenge))

theorem sampleSigning_eq :
    sampleSetup.map sampleSigning = .ok (.live 2 (.ofAdd (410 : ℕ)), true, .ok false) := by
  decide +kernel

/-- The two signatures are made, under different challenges; the base is not the identity, and
the users have different secrets. -/
theorem sample_signs : ∃ params first second, sampleSetup = .ok params ∧
    (sampleState params).activeHandles.length = 2 ∧
    (∀ k, params.uT ≠ .live k 1) ∧
    ((sampleState params).users.toList.map fun entry => entry.2.xGp).Nodup ∧
    (sampleState params).sign sampleLibrary (textBytes "alice") (textBytes "a") (textBytes "yes") 7 =
      .ok first ∧
    (sampleState params).sign sampleLibrary (textBytes "alice") (textBytes "a") (textBytes "no") 8 =
      .ok second ∧
    (sampleState params).gpChallenge sampleLibrary first.challenge ≠
      (sampleState params).gpChallenge sampleLibrary second.challenge := by
  obtain ⟨params, hsetup, houtcome⟩ := map_eq_ok.1 sampleSigning_eq
  obtain ⟨hbase, hrest⟩ := Prod.mk.inj houtcome
  obtain ⟨hsecrets, hpair⟩ := Prod.mk.inj hrest
  obtain ⟨⟨first, second⟩, hsigned, hdiffer⟩ := map_eq_ok.1 hpair
  simp only [samplePair, bind_eq_ok, pure_eq_ok, Prod.mk.injEq] at hsigned
  obtain ⟨_, hfirst, _, hsecond, rfl, rfl⟩ := hsigned
  obtain ⟨_, hsetup', hrun⟩ := map_eq_ok.1 sampleOutcome_eq
  obtain rfl := Except.ok.inj (hsetup.symm.trans hsetup')
  refine ⟨params, _, _, hsetup, congrArg Prod.fst hrun, ?_, of_decide_eq_true hsecrets, hfirst, hsecond,
    of_decide_eq_false hdiffer⟩
  intro k hone
  rw [hbase, Element.live_inj] at hone
  exact absurd hone.2 (by decide)

/-! ## Completeness and the quota -/

variable [CommGroup G₁] [CommGroup G₂] [CommGroup GT] [CommGroup Gp] [DecidableEq G₁]
  [DecidableEq G₂] [DecidableEq GT] [DecidableEq Gp] [OrderEq r G₁] [OrderEq r G₂] [OrderEq r GT]
  [Fact r.Prime]

/-- A signature that `sign_clear` returns verifies in that state and in every later state
that is reached without a change of the ring, and over a run a user obtains at most `limit`
signatures, numbered in order and with different one-time passes. -/
theorem clear_signing_complete_bounded [OrderEq ristrettoOrder Gp]
    {lib : CryptoLibrary G₁ G₂ GT Gp} {draws : SetupDraws G₁ G₂} {pairing : PairingContext}
    {ddh : DdhContext} {issue : List UInt8} {limit maxMembers : UInt64} {ownership : ℕ}
    {params : Parameters G₁ G₂ Gp}
    (hsetup : Parameters.forTesting r lib draws pairing ddh issue limit maxMembers ownership =
      .ok params) (hlimit : limit.toNat ≤ r) (calls : List (ClearCall r)) :
    let p := (ClearProtocol.start params : ClearProtocol r G₁ G₂ Gp).after lib calls
    -- what is signed verifies
    (∀ userId accountId message timestamp sig,
      (p.signClear lib userId accountId message timestamp).1 = .ok sig →
        p.verifyClear lib p.currentLabel message sig = true ∧
        ∀ later, ClearProtocol.KeepsRing lib
            (p.signClear lib userId accountId message timestamp).2 later →
          let q := (p.signClear lib userId accountId message timestamp).2.after lib later
          q.currentLabel = p.currentLabel ∧
            q.verifyClear lib q.currentLabel message sig = true) ∧
    -- a user obtains at most `limit` signatures, with counters from zero on
    ∀ userId,
      let sigs := ClearProtocol.issued lib userId
        (ClearProtocol.start params : ClearProtocol r G₁ G₂ Gp) calls
      sigs.length ≤ limit.toNat ∧
      (∀ i sig, sigs[i]? = some sig →
        smallCounter sig.witness.counter = .ok (UInt64.ofNat i)) ∧
      ((∀ k, params.uT ≠ .live k 1) → sigs.Pairwise fun sig sig' =>
        sig.oneTimePass.equals gpElementTexts sig'.oneTimePass = .ok false) := by
  obtain ⟨rfl, d, hlive⟩ := Parameters.forTesting_live (r := r) hsetup
  have hstart : (ClearProtocol.start params : ClearProtocol r G₁ G₂ Gp).Sound lib params d :=
    ClearProtocol.sound_start hlive
  intro p
  have hsound : p.Sound lib params d := ClearProtocol.sound_after hlive hstart calls
  refine ⟨?_, ?_⟩
  · intro userId accountId message timestamp sig hreturned
    have hsign : p.sign lib userId accountId message timestamp = .ok sig := by
      rw [ClearProtocol.signClear] at hreturned
      split at hreturned
      · cases hreturned
      · next signature hsignature =>
          rw [hsignature]
          exact hreturned
    refine ⟨ClearProtocol.verifyClear_of_sign hlive hsound hlimit hsign
      (ClearProtocol.moves_after hlive hsound []) rfl, ?_⟩
    intro later hkeeps q
    have hmoves : ClearProtocol.Moves lib d {.count userId} p
        (p.signClear lib userId accountId message timestamp).2 :=
      (ClearProtocol.signClear_acts userId accountId message timestamp).moves
    have hsound' := ClearProtocol.sound_moves hlive hsound hmoves
    have hlabel : q.currentLabel = p.currentLabel := by
      rw [ClearProtocol.currentLabel_after hlive hsound' hkeeps]
      apply ClearProtocol.currentLabel_moves hmoves
      rintro change rfl
      exact not_false
    refine ⟨hlabel, ?_⟩
    have hlater := (hmoves.mono (Set.subset_univ _)).trans
      (ClearProtocol.moves_after hlive hsound' later)
    exact ClearProtocol.verifyClear_of_sign hlive hsound hlimit hsign hlater hlabel
  · intro userId sigs
    have hledger : ClearProtocol.Ledger params d userId sigs p := by
      have hrun := (ClearProtocol.ledger_start userId).after hlive hstart hlimit calls
      rwa [List.nil_append] at hrun
    refine ⟨hledger.bounded, ?_, ?_⟩
    · obtain ⟨keys, hnumbered⟩ := hledger.counter hsound
      intro i sig hsig
      exact (hnumbered i sig hsig).counter
    · intro huT
      have hne : d.uT ≠ 1 := by
        intro hone
        exact huT d.ddh (hone ▸ hlive.uT)
      exact hledger.passes_distinct hne hsound

theorem clear_signing_complete_bounded_sample :
    ∃ params sig, sampleSetup = .ok params ∧ (sampleState params).activeHandles.length = 2 ∧
      ((sampleState params).signClear sampleLibrary (textBytes "alice") (textBytes "a")
        (textBytes "yes") 7).1 = .ok sig ∧
      (((sampleState params).signClear sampleLibrary (textBytes "alice") (textBytes "a")
        (textBytes "yes") 7).2.after sampleLibrary
          [.createUser (textBytes "carol") 6, .signClear (textBytes "alice") (textBytes "a")
            (textBytes "no") 8]).verifyClear sampleLibrary (sampleState params).currentLabel
          (textBytes "yes") sig = true ∧
      ∀ calls, ((ClearProtocol.start params : ClearProtocol 11 SampleGroup SampleGroup
          SampleGp).issued sampleLibrary (textBytes "alice") calls).Pairwise fun sig sig' =>
        sig.oneTimePass.equals gpElementTexts sig'.oneTimePass = .ok false := by
  obtain ⟨params, sig, -, hsetup, hring, hbase, -, hsign, -⟩ := sample_signs
  have hreturned : ((sampleState params).signClear sampleLibrary (textBytes "alice") (textBytes "a")
      (textBytes "yes") 7).1 = .ok sig := by
    simp only [ClearProtocol.signClear, hsign]
  have hcomplete := (clear_signing_complete_bounded hsetup (by decide) sampleClearCalls).1 _ _ _ _ sig
    hreturned
  obtain ⟨hlabel, hverified⟩ := hcomplete.2 [.createUser (textBytes "carol") 6,
    .signClear (textBytes "alice") (textBytes "a") (textBytes "no") 8] ⟨not_false, not_false, trivial⟩
  refine ⟨params, sig, hsetup, hring, hreturned, ?_, ?_⟩
  · rw [hlabel] at hverified
    exact hverified
  · intro calls
    exact ((clear_signing_complete_bounded hsetup (by decide) calls).2 (textBytes "alice")).2.2 hbase

end Lktrs.Protocol
