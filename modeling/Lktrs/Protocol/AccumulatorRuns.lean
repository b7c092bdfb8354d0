import Lktrs.Foundation.Runs
import Lktrs.Protocol.AccumulatorSpec

/-!
# The accumulator over whole runs

`Accumulator.Holds` ties the four fields of a state to one list of residues: the
members are its scalars, the value is the generator to the product of its shifts
and the digest is that of the set. Every mutation either throws and changes
nothing, or commits another such list and the next version
(`Accumulator.apply_settles`); what holds along runs is read off this.
-/

set_option autoImplicit false

namespace Lktrs.Protocol

open Lktrs.Foundation

variable {r : ℕ} {G₁ G₂ GT : Type}

/-- A call of a mutating method. -/
inductive AccumulatorCall (r : ℕ) where
  | join (handle : Scalar r)
  | exit (handle : Scalar r)
  | update (handles : List (Scalar r))

namespace Accumulator

section Definitions

variable [CommGroup G₁] [CommGroup G₂] [DecidableEq G₁]

/-- Make a call. -/
def apply (acc : Accumulator r G₁ G₂) :
    AccumulatorCall r → Except Thrown (Snapshot G₁) × Accumulator r G₁ G₂
  | .join handle => acc.join handle
  | .exit handle => acc.exit handle
  | .update handles => acc.update handles

/-- The state after a list of calls, whatever they return or throw. -/
def after (acc : Accumulator r G₁ G₂) (calls : List (AccumulatorCall r)) : Accumulator r G₁ G₂ :=
  run (fun acc call => (acc.apply call).2) acc calls

/-- How many of the calls succeed. -/
def mutations (acc : Accumulator r G₁ G₂) : List (AccumulatorCall r) → ℕ
  | [] => 0
  | call :: calls =>
      (if (acc.apply call).1.isOk then 1 else 0) + mutations (acc.apply call).2 calls

/-- The state is that of the set of residues `as`. -/
structure Holds (p : AccumulatorParameters G₁ G₂) (k : ℕ) (g : G₁) (τ : ZMod r)
    (as : List (ZMod r)) (acc : Accumulator r G₁ G₂) : Prop where
  parameters : acc.parameters = p
  members : acc.members = liveAll k as
  value : acc.value = .live k (residuePow g (rootProduct τ as))
  setId : acc.setId = residueDigest as
  nodup : as.Nodup
  fits : as.length ≤ p.maxMembers
  ne_zero : rootProduct τ as ≠ 0
  context : as = [] ∨ p.context.state = some k

/-- The state that a successful mutation to the set `bs` leaves. -/
def committed (acc : Accumulator r G₁ G₂) (k : ℕ) (g : G₁) (τ : ZMod r) (bs : List (ZMod r)) :
    Accumulator r G₁ G₂ :=
  { acc with
    members := liveAll k bs
    value := .live k (residuePow g (rootProduct τ bs))
    setId := residueDigest bs
    version := acc.version + 1 }

/-- A set that a mutation can commit. -/
structure Admissible (p : AccumulatorParameters G₁ G₂) (k : ℕ) (τ : ZMod r)
    (bs : List (ZMod r)) : Prop where
  context : p.context.state = some k
  nodup : bs.Nodup
  fits : bs.length ≤ p.maxMembers
  ne_zero : rootProduct τ bs ≠ 0

end Definitions

variable {k : ℕ} {g : G₁} {h : G₂} {τ : ZMod r} {p : AccumulatorParameters G₁ G₂}
  {as bs : List (ZMod r)} {acc : Accumulator r G₁ G₂}

/-- The last version at which a mutation can still be committed. -/
theorem version_ne_iff {v : UInt64} : v ≠ UInt64.ofNat (2 ^ 64 - 1) ↔ v.toNat < 2 ^ 64 - 1 := by
  have hlt := v.toNat_lt
  constructor
  · intro hne
    by_contra hge
    apply hne
    apply UInt64.toNat_inj.1
    rw [UInt64.toNat_ofNat_of_lt' (by decide)]
    omega
  · rintro hv rfl
    rw [UInt64.toNat_ofNat_of_lt' (by decide)] at hv
    omega

theorem others_liveAll (k : ℕ) (a : ZMod r) (as : List (ZMod r)) :
    others (.live k a) (liveAll k as) = .ok (liveAll k (as.filter (· ≠ a))) := by
  induction as with
  | nil => rfl
  | cons b as ih =>
      simp only [liveAll_cons, others, Element.equals_live, ok_bind, ih]
      by_cases hab : b = a
      · simp [hab, pure, Except.pure]
      · simp [hab, pure, Except.pure]

theorem withoutFirst_liveAll (k : ℕ) (a : ZMod r) (as : List (ZMod r)) :
    withoutFirst (.live k a) (liveAll k as) = .ok (liveAll k (as.erase a)) := by
  induction as with
  | nil => rfl
  | cons b as ih =>
      simp only [liveAll_cons, withoutFirst, Element.equals_live, ok_bind, ih]
      by_cases hab : b = a
      · simp [hab, pure, Except.pure]
      · simp [hab, pure, Except.pure, List.erase_cons_tail]

section States

variable [CommGroup G₁]

/-- The assignments of `commit` all go through: the new value has the context of the
old one. -/
theorem commit_eq (hacc : Holds p k g τ as acc) (hversion : acc.version ≠ UInt64.ofNat (2 ^ 64 - 1)) :
    acc.commit (liveAll k bs) (.live k (residuePow g (rootProduct τ bs))) (residueDigest bs) =
      (.ok (acc.committed k g τ bs).snapshot, acc.committed k g τ bs) := by
  simp only [commit, if_neg hversion, hacc.value, assign_live]
  rfl

theorem contains_eq_true (hacc : Holds p k g τ as acc) {handle : Scalar r} :
    acc.contains handle = true ↔ ∃ a ∈ as, handle = .live k a := by
  rw [contains, hacc.members, orFalse_eq_true]
  constructor
  · exact anyEquals_eq_true
  · rintro ⟨a, ha, rfl⟩
    simp [anyEquals_liveAll, ha]

theorem holds_committed (hacc : Holds p k g τ as acc) (hbs : Admissible p k τ bs) :
    Holds p k g τ bs (acc.committed k g τ bs) where
  parameters := hacc.parameters
  members := rfl
  value := rfl
  setId := rfl
  nodup := hbs.nodup
  fits := hbs.fits
  ne_zero := hbs.ne_zero
  context := Or.inr hbs.context

variable [Fact r.Prime]

/-- What remains of a set can be committed. -/
theorem admissible_filter (hacc : Holds p k g τ as acc) {a : ZMod r} (ha : a ∈ as) :
    Admissible p k τ (as.filter (· ≠ a)) where
  context := hacc.context.resolve_left (List.ne_nil_of_mem ha)
  nodup := hacc.nodup.filter _
  fits := (List.length_filter_le _ _).trans hacc.fits
  ne_zero := rootProduct_ne_zero_of_subset (List.filter_subset_self _) hacc.ne_zero

end States

section Runs

variable [CommGroup G₁] [CommGroup G₂] [OrderEq r G₁] [Fact r.Prime]

theorem holds_start (hp : p.Trapdoor k g h τ) : Holds p k g τ [] (start p) where
  parameters := rfl
  members := rfl
  value := by simp [start, hp.generator]
  setId := rfl
  nodup := List.nodup_nil
  fits := Nat.zero_le _
  ne_zero := by simp
  context := Or.inl rfl

variable [DecidableEq G₁]

theorem prepare_eq_ok (hp : p.Trapdoor k g h τ) (hacc : acc.parameters = p)
    {handles : List (Scalar r)} {out : List (Scalar r) × Element G₁ × FixedBytes 32} :
    acc.prepare handles = .ok out ↔ ∃ bs, handles = liveAll k bs ∧ Admissible p k τ bs ∧
      out = (liveAll k bs, .live k (residuePow g (rootProduct τ bs)), residueDigest bs) := by
  simp only [prepare, bind_eq_ok, pure_eq_ok, hacc, accumulate_eq_ok hp]
  constructor
  · rintro ⟨candidate, hcollect, _, ⟨bs, hcontext, hbs, hfits, hne, rfl⟩, _, hdigest, rfl⟩
    obtain rfl := collectDistinct_eq hcollect
    subst hbs
    obtain ⟨hnodup, -⟩ := collectDistinct_liveAll.1 hcollect
    rw [setDigest_liveAll] at hdigest
    refine ⟨bs, rfl, ⟨hcontext, hnodup, hfits, hne⟩, ?_⟩
    rw [Except.ok.inj hdigest]
  · rintro ⟨bs, rfl, ⟨hcontext, hnodup, hfits, hne⟩, rfl⟩
    exact ⟨_, collectDistinct_liveAll.2 ⟨hnodup, rfl⟩, _, ⟨bs, hcontext, rfl, hfits, hne, rfl⟩, _,
      setDigest_liveAll k bs, rfl⟩

theorem update_eq (hp : p.Trapdoor k g h τ) (hacc : Holds p k g τ as acc)
    (hbs : Admissible p k τ bs) (hversion : acc.version ≠ UInt64.ofNat (2 ^ 64 - 1)) :
    acc.update (liveAll k bs) =
      (.ok (acc.committed k g τ bs).snapshot, acc.committed k g τ bs) := by
  have hprepare := (prepare_eq_ok hp hacc.parameters).2 ⟨bs, rfl, hbs, rfl⟩
  simp only [update, hprepare]
  exact commit_eq hacc hversion

/-- A call throws and changes nothing, or commits an admissible set. -/
def Settles (acc : Accumulator r G₁ G₂) (p : AccumulatorParameters G₁ G₂) (k : ℕ) (g : G₁)
    (τ : ZMod r) (result : Except Thrown (Snapshot G₁) × Accumulator r G₁ G₂) : Prop :=
  (∃ e, result = (.error e, acc)) ∨
    ∃ bs, Admissible p k τ bs ∧ acc.version ≠ UInt64.ofNat (2 ^ 64 - 1) ∧
      result = (.ok (acc.committed k g τ bs).snapshot, acc.committed k g τ bs)

/-- An update throws and changes nothing, or commits the handles it was given. -/
theorem update_cases (hp : p.Trapdoor k g h τ) (hacc : Holds p k g τ as acc)
    (handles : List (Scalar r)) :
    (∃ e, acc.update handles = (.error e, acc)) ∨
      ∃ bs, handles = liveAll k bs ∧ Admissible p k τ bs ∧
        acc.version ≠ UInt64.ofNat (2 ^ 64 - 1) ∧
        acc.update handles = (.ok (acc.committed k g τ bs).snapshot, acc.committed k g τ bs) := by
  cases hprepare : acc.prepare handles with
  | error e =>
      refine Or.inl ⟨e, ?_⟩
      simp only [update, hprepare]
  | ok out =>
      obtain ⟨bs, rfl, hbs, rfl⟩ := (prepare_eq_ok hp hacc.parameters).1 hprepare
      by_cases hversion : acc.version = UInt64.ofNat (2 ^ 64 - 1)
      · refine Or.inl ⟨⟨.overflowError, "accumulator version exhausted"⟩, ?_⟩
        simp only [update, hprepare, commit, if_pos hversion]
      · exact Or.inr ⟨bs, rfl, hbs, hversion, update_eq hp hacc hbs hversion⟩

theorem update_settles (hp : p.Trapdoor k g h τ) (hacc : Holds p k g τ as acc)
    (handles : List (Scalar r)) : acc.Settles p k g τ (acc.update handles) := by
  rcases update_cases hp hacc handles with herror | ⟨bs, -, hbs, hversion, hok⟩
  · exact Or.inl herror
  · exact Or.inr ⟨bs, hbs, hversion, hok⟩

/-- A join throws and changes nothing, or appends its handle. -/
theorem join_cases (hp : p.Trapdoor k g h τ) (hacc : Holds p k g τ as acc) (handle : Scalar r) :
    (∃ e, acc.join handle = (.error e, acc)) ∨
      ∃ a, handle = .live k a ∧ Admissible p k τ (as ++ [a]) ∧
        acc.version ≠ UInt64.ofNat (2 ^ 64 - 1) ∧
        acc.join handle = (.ok (acc.committed k g τ (as ++ [a])).snapshot,
          acc.committed k g τ (as ++ [a])) := by
  cases hjoined : acc.joined handle with
  | error e => exact Or.inl ⟨e, by simp only [join, hjoined]⟩
  | ok candidate =>
      have hcandidate := hjoined
      simp only [joined, bind_eq_ok, throwIf_eq_ok, pure_eq_ok, copy_eq_ok] at hcandidate
      obtain ⟨-, -, _, ⟨rfl, k', a, rfl⟩, rfl⟩ := hcandidate
      simp only [join, hjoined]
      rcases update_cases hp hacc (acc.members ++ [.live k' a]) with herror | ⟨bs, hbs, hok⟩
      · exact Or.inl herror
      · -- the appended handle is one of the committed ones, so it has their context
        have hlast : Element.live k' a ∈ liveAll k bs := hbs ▸ by simp
        obtain ⟨b, -, hb⟩ := List.mem_map.1 hlast
        obtain ⟨rfl, rfl⟩ := Element.live_inj.1 hb
        obtain rfl : as ++ [b] = bs := by
          apply liveAll_inj.1
          rw [← hbs, hacc.members, liveAll_append, liveAll_cons, liveAll_nil]
        exact Or.inr ⟨b, rfl, hok⟩

/-- A join that returns has appended its handle. -/
theorem join_ok (hp : p.Trapdoor k g h τ) (hacc : Holds p k g τ as acc) {handle : Scalar r}
    {snapshot : Snapshot G₁} {acc' : Accumulator r G₁ G₂}
    (hjoin : acc.join handle = (.ok snapshot, acc')) :
    ∃ a, handle = .live k a ∧ Admissible p k τ (as ++ [a]) ∧
      acc.version ≠ UInt64.ofNat (2 ^ 64 - 1) ∧ acc' = acc.committed k g τ (as ++ [a]) := by
  rcases join_cases hp hacc handle with ⟨e, herror⟩ | ⟨a, hmember, hadmissible, hversion, hok⟩
  · rw [herror] at hjoin
    cases hjoin
  · rw [hok] at hjoin
    exact ⟨a, hmember, hadmissible, hversion, (Prod.mk.inj hjoin).2.symm⟩

/-- Every mutating call settles. -/
theorem apply_settles (hp : p.Trapdoor k g h τ) (hacc : Holds p k g τ as acc)
    (call : AccumulatorCall r) : acc.Settles p k g τ (acc.apply call) := by
  cases call with
  | update handles => exact update_settles hp hacc handles
  | join handle =>
      rcases join_cases hp hacc handle with herror | ⟨a, -, hbs, hversion, hok⟩
      · exact Or.inl herror
      · exact Or.inr ⟨_, hbs, hversion, hok⟩
  | exit handle =>
      cases hremaining : acc.remaining handle with
      | error e => exact Or.inl ⟨e, by simp only [apply, exit, hremaining]⟩
      | ok candidate =>
          simp only [apply, exit, hremaining]
          exact update_settles hp hacc candidate

/-- One call keeps the invariant, and counts in the version exactly when it succeeds. -/
theorem holds_apply (hp : p.Trapdoor k g h τ) (hacc : Holds p k g τ as acc)
    (call : AccumulatorCall r) :
    (∃ bs, Holds p k g τ bs (acc.apply call).2) ∧
      (acc.apply call).2.version.toNat =
        acc.version.toNat + if (acc.apply call).1.isOk then 1 else 0 := by
  rcases apply_settles hp hacc call with ⟨e, he⟩ | ⟨bs, hbs, hversion, hok⟩
  · rw [he]
    exact ⟨⟨as, hacc⟩, rfl⟩
  · rw [hok]
    refine ⟨⟨bs, holds_committed hacc hbs⟩, ?_⟩
    have hlt := version_ne_iff.1 hversion
    simp only [committed, Except.isOk, Except.toBool, if_true]
    rw [UInt64.toNat_add, UInt64.toNat_one, Nat.mod_eq_of_lt (by omega)]

/-- The same along a run. -/
theorem holds_after (hp : p.Trapdoor k g h τ) (hacc : Holds p k g τ as acc)
    (calls : List (AccumulatorCall r)) :
    (∃ bs, Holds p k g τ bs (acc.after calls)) ∧
      (acc.after calls).version.toNat = acc.version.toNat + acc.mutations calls := by
  induction calls generalizing acc as with
  | nil => exact ⟨⟨as, hacc⟩, rfl⟩
  | cons call calls ih =>
      obtain ⟨⟨bs, hbs⟩, hversion⟩ := holds_apply hp hacc call
      obtain ⟨hholds, hcount⟩ := ih hbs
      refine ⟨hholds, ?_⟩
      rw [after, run_cons, mutations, ← Nat.add_assoc, ← hversion]
      exact hcount

/-- Calls that all throw leave the state. -/
theorem after_eq_of_mutations_eq_zero (hp : p.Trapdoor k g h τ) (hacc : Holds p k g τ as acc)
    (calls : List (AccumulatorCall r)) (hnone : acc.mutations calls = 0) :
    acc.after calls = acc := by
  induction calls with
  | nil => rfl
  | cons call calls ih =>
      rw [mutations, Nat.add_eq_zero_iff] at hnone
      rcases apply_settles hp hacc call with ⟨e, he⟩ | ⟨bs, hbs, hversion, hok⟩
      · rw [after, run_cons, he]
        rw [he] at hnone
        exact ih hnone.2
      · simp [hok, Except.isOk, Except.toBool] at hnone

/-! ## Leaving the set -/

/-- A current member leaves, as long as there is a next version. -/
theorem exit_eq (hp : p.Trapdoor k g h τ) (hacc : Holds p k g τ as acc) {a : ZMod r} (ha : a ∈ as)
    (hversion : acc.version ≠ UInt64.ofNat (2 ^ 64 - 1)) :
    acc.exit (.live k a) = (.ok (acc.committed k g τ (as.filter (· ≠ a))).snapshot,
      acc.committed k g τ (as.filter (· ≠ a))) := by
  have hremaining : acc.remaining (.live k a) = .ok (liveAll k (as.filter (· ≠ a))) := by
    simp [remaining, hacc.members, anyEquals_liveAll, ha, throwIf, others_liveAll]
  simp only [exit, hremaining]
  exact update_eq hp hacc (admissible_filter hacc ha) hversion

/-- An exit throws and changes nothing, or removes its handle. -/
theorem exit_cases (hp : p.Trapdoor k g h τ) (hacc : Holds p k g τ as acc) (handle : Scalar r) :
    (∃ e, acc.exit handle = (.error e, acc)) ∨
      ∃ a ∈ as, handle = .live k a ∧ acc.version ≠ UInt64.ofNat (2 ^ 64 - 1) ∧
        acc.exit handle = (.ok (acc.committed k g τ (as.filter (· ≠ a))).snapshot,
          acc.committed k g τ (as.filter (· ≠ a))) := by
  cases hremaining : acc.remaining handle with
  | error e => exact Or.inl ⟨e, by simp only [exit, hremaining]⟩
  | ok candidate =>
      have hcandidate := hremaining
      simp only [remaining, bind_eq_ok, throwIf_eq_ok, hacc.members] at hcandidate
      obtain ⟨found, hfound, -, htrue, -⟩ := hcandidate
      rw [Bool.eq_true_of_not_eq_false htrue] at hfound
      obtain ⟨a, ha, rfl⟩ := anyEquals_eq_true hfound
      by_cases hversion : acc.version = UInt64.ofNat (2 ^ 64 - 1)
      · simp only [exit, hremaining]
        rcases update_cases hp hacc candidate with herror | ⟨bs, -, -, hne, -⟩
        · exact Or.inl herror
        · exact absurd hversion hne
      · exact Or.inr ⟨a, ha, rfl, hversion, exit_eq hp hacc ha hversion⟩

/-- An exit that returns has removed its handle. -/
theorem exit_ok (hp : p.Trapdoor k g h τ) (hacc : Holds p k g τ as acc) {handle : Scalar r}
    {snapshot : Snapshot G₁} {acc' : Accumulator r G₁ G₂}
    (hexit : acc.exit handle = (.ok snapshot, acc')) :
    ∃ a ∈ as, handle = .live k a ∧ acc.version ≠ UInt64.ofNat (2 ^ 64 - 1) ∧
      acc' = acc.committed k g τ (as.filter (· ≠ a)) := by
  rcases exit_cases hp hacc handle with ⟨e, herror⟩ | ⟨a, ha, hmember, hversion, hok⟩
  · rw [herror] at hexit
    cases hexit
  · rw [hok] at hexit
    exact ⟨a, ha, hmember, hversion, (Prod.mk.inj hexit).2.symm⟩

/-! ## Witnesses -/

/-- A witness is made exactly for a member, and carries the state it was made in. -/
theorem witness_eq_ok (hp : p.Trapdoor k g h τ) (hacc : Holds p k g τ as acc) {handle : Scalar r}
    {w : MembershipWitness r G₁} :
    acc.witness handle = .ok w ↔ ∃ a ∈ as, handle = .live k a ∧
      w = ⟨.live k a, .live k (residuePow g (rootProduct τ (as.erase a))), acc.version, acc.setId,
        p.ownership⟩ := by
  simp only [witness, witnessValue, bind_eq_ok, throwIf_eq_ok, Bool.not_eq_false,
    contains_eq_true hacc, pure_eq_ok, copy_eq_ok, hacc.parameters]
  constructor
  · rintro ⟨v, ⟨-, ⟨a, ha, rfl⟩, rest, hrest, hvalue⟩, _, ⟨rfl, -⟩, rfl⟩
    rw [hacc.members, withoutFirst_liveAll] at hrest
    obtain rfl := Except.ok.inj hrest
    obtain ⟨bs, -, hbs, -, -, rfl⟩ := (accumulate_eq_ok hp).1 hvalue
    obtain rfl : as.erase a = bs := liveAll_inj.1 hbs
    exact ⟨a, ha, rfl, rfl⟩
  · rintro ⟨a, ha, rfl, rfl⟩
    have hcontext := hacc.context.resolve_left (List.ne_nil_of_mem ha)
    have hvalue := (accumulate_eq_ok hp).2 ⟨as.erase a, hcontext, rfl,
      (List.length_erase_le).trans hacc.fits,
      rootProduct_ne_zero_of_subset List.erase_subset hacc.ne_zero, rfl⟩
    refine ⟨_, ⟨⟨⟩, ⟨a, ha, rfl⟩, _, ?_, hvalue⟩, _, ⟨rfl, k, a, rfl⟩, rfl⟩
    rw [hacc.members, withoutFirst_liveAll]

end Runs

section Verification

variable [CommGroup G₁] [CommGroup G₂] [CommGroup GT] [DecidableEq GT]

/-- A witness of another version is rejected, whatever the set is. -/
theorem verify_of_version_ne (e : BilinearPairing G₁ G₂ GT) {handle : Scalar r}
    {w : MembershipWitness r G₁} (hw : w.version ≠ acc.version) : acc.verify e handle w = false := by
  simp [verify, current, hw, orFalse, pure, Except.pure]

variable [OrderEq r G₁] [OrderEq r G₂] [OrderEq r GT] [Fact r.Prime]

/-- The pairing relation compares exponents. -/
theorem verifyValue_live (e : BilinearPairing G₁ G₂ GT) (hp : p.Trapdoor k g h τ)
    (hacc : Holds p k g τ as acc) (a x : ZMod r) :
    acc.verifyValue e (.live k a) (.live k (residuePow g x)) = true ↔
      x * (a + τ) = rootProduct τ as := by
  have hpair : e.pair g h ≠ 1 := e.pair_ne_one r hp.g_ne hp.h_ne
  have hright : e.pair (residuePow g (rootProduct τ as)) h =
      residuePow (e.pair g h) (rootProduct τ as) := by
    have hone := e.pair_residuePow g h (rootProduct τ as) 1
    simpa using hone
  simp only [verifyValue, hacc.parameters, hp.pairingBase, hp.hTau, hacc.value, groupPow, groupMul,
    pairElements, Element.combine_live, ok_bind, Element.equals_live, orFalse_eq_true,
    Except.ok.injEq, decide_eq_true_eq]
  rw [← residuePow_add, e.pair_residuePow, hright, residuePow_inj hpair]

variable [DecidableEq G₁]

/-- A witness that was just made verifies. -/
theorem verify_witness (e : BilinearPairing G₁ G₂ GT) (hp : p.Trapdoor k g h τ)
    (hacc : Holds p k g τ as acc) {handle : Scalar r} {w : MembershipWitness r G₁}
    (hw : acc.witness handle = .ok w) : acc.verify e handle w = true := by
  obtain ⟨a, ha, rfl, rfl⟩ := (witness_eq_ok hp hacc).1 hw
  have hproduct : rootProduct τ (as.erase a) * (a + τ) = rootProduct τ as := by
    rw [rootProduct_perm τ (List.perm_cons_erase ha), rootProduct_cons, mul_comm, add_comm]
  have hvalue := (verifyValue_live e hp hacc a _).2 hproduct
  simp [verify, current, hacc.parameters, hvalue]

end Verification

end Accumulator

/-! ## A small instance -/

/-- The residues modulo eleven, written multiplicatively. -/
abbrev SampleGroup : Type := Multiplicative (ZMod 11)

instance fact_prime_eleven : Fact (Nat.Prime 11) := ⟨by norm_num⟩

instance : OrderEq 11 SampleGroup := ⟨by rw [Nat.card_eq_fintype_card]; rfl⟩

/-- Exponents multiply. -/
def samplePairing : BilinearPairing SampleGroup SampleGroup SampleGroup where
  pair x y := .ofAdd (x.toAdd * y.toAdd)
  pair_mul_left x x' y := by
    apply Multiplicative.toAdd.injective
    simp [add_mul]
  pair_mul_right x y y' := by
    apply Multiplicative.toAdd.injective
    simp [mul_add]
  nontrivial := ⟨.ofAdd 1, .ofAdd 1, by decide⟩

/-- Parameters with trapdoor two for sets of up to three handles. -/
def sampleParameters : AccumulatorParameters SampleGroup SampleGroup where
  context := ⟨some 1, []⟩
  generator := .live 1 (.ofAdd 1)
  pairingBase := .live 1 (.ofAdd 1)
  sdh := [.live 1 (.ofAdd 1), .live 1 (.ofAdd 2), .live 1 (.ofAdd 4), .live 1 (.ofAdd 8)]
  hTau := .live 1 (.ofAdd 2)
  ownership := 0

/-- Three mutations that succeed, and two that do not: a repeated handle and the
handle that cancels the trapdoor. -/
def sampleCalls : List (AccumulatorCall 11) :=
  [.join (.live 1 3), .join (.live 1 5), .join (.live 1 3), .join (.live 1 9), .exit (.live 1 3)]

/-! ## The invariant of the accumulator -/

variable [CommGroup G₁] [CommGroup G₂] [CommGroup GT] [DecidableEq G₁] [DecidableEq G₂]
  [DecidableEq GT]

/-- The accumulator keeps its four fields in step along every run of mutating calls,
its witnesses hold until the next mutation and never after it, and a member can
always leave. -/
theorem accumulator_consistent (e : BilinearPairing G₁ G₂ GT) [OrderEq r G₁] [OrderEq r G₂]
    [OrderEq r GT] [Fact r.Prime] {context : PairingContext} {generator : Element G₁}
    {pairingBase hTau : Element G₂} {sdh : List (Element G₁)} {ownership : ℕ}
    {p : AccumulatorParameters G₁ G₂}
    (hp : AccumulatorParameters.make e context generator pairingBase sdh hTau ownership = .ok p) :
    ∃ (k : ℕ) (g : G₁) (h : G₂) (τ : ZMod r),
      -- the tuple is that of the trapdoor
      (generator = .live k g ∧ pairingBase = .live k h ∧ hTau = .live k (residuePow h τ) ∧
        ∀ i, i < sdh.length → sdh[i]? = some (.live k (residuePow g (τ ^ i)))) ∧
      ∀ calls : List (AccumulatorCall r),
        let acc := (Accumulator.start p : Accumulator r G₁ G₂).after calls
        (∃ as : List (ZMod r), acc.members = as.map (.live k) ∧ as.Nodup ∧
          as.length ≤ p.maxMembers ∧
          acc.value = .live k (residuePow g (as.map (τ + ·)).prod) ∧
          ∀ bs : List (ZMod r), bs.Perm as → setDigest (bs.map (.live k)) = .ok acc.setId) ∧
        acc.version.toNat = (Accumulator.start p : Accumulator r G₁ G₂).mutations calls ∧
        (∀ call error, (acc.apply call).1 = .error error → (acc.apply call).2 = acc) ∧
        (∀ handle w, acc.witness handle = .ok w → ∀ later,
          (acc.mutations later = 0 → (acc.after later).verify e handle w = true) ∧
          (0 < acc.mutations later → ∀ handle', (acc.after later).verify e handle' w = false)) ∧
        (∀ handle ∈ acc.members, ∃ w, acc.witness handle = .ok w) ∧
        ∀ handle ∈ acc.members, acc.version.toNat < 2 ^ 64 - 1 →
          ∃ snapshot, (acc.exit handle).1 = .ok snapshot := by
  obtain ⟨rfl, k, g, h, τ, hp⟩ := AccumulatorParameters.make_eq_ok (r := r) e hp
  refine ⟨k, g, h, τ, ⟨hp.generator, hp.pairingBase, hp.hTau, ?_⟩, ?_⟩
  · intro i hi
    have hsdh : sdh = powerList k g τ sdh.length 1 := hp.sdh
    rw [hsdh, getElem?_powerList k g τ _ i 1 hi, one_mul]
  intro calls acc
  obtain ⟨⟨as, hacc⟩, hversion⟩ :=
    Accumulator.holds_after hp (Accumulator.holds_start (r := r) hp) calls
  refine ⟨⟨as, hacc.members, hacc.nodup, hacc.fits, hacc.value, ?_⟩, ?_, ?_, ?_, ?_, ?_⟩
  · intro bs hbs
    have hdigest := setDigest_liveAll k bs
    rw [residueDigest_perm hbs, ← hacc.setId] at hdigest
    exact hdigest
  · rw [hversion]
    exact Nat.zero_add _
  · intro call error herror
    rcases Accumulator.apply_settles hp hacc call with ⟨e', he⟩ | ⟨bs, -, -, hok⟩
    · rw [he]
    · rw [hok] at herror
      cases herror
  · intro handle w hw later
    obtain ⟨-, hcount⟩ := Accumulator.holds_after hp hacc later
    refine ⟨?_, ?_⟩
    · intro hnone
      rw [Accumulator.after_eq_of_mutations_eq_zero hp hacc later hnone]
      exact Accumulator.verify_witness e hp hacc hw
    · -- the version has moved on, and it never comes back
      intro hsome handle'
      apply Accumulator.verify_of_version_ne
      obtain ⟨a, -, -, rfl⟩ := (Accumulator.witness_eq_ok hp hacc).1 hw
      intro heq
      have hsame : acc.version.toNat = (acc.after later).version.toNat :=
        congrArg UInt64.toNat heq
      have hcount : (acc.after later).version.toNat = acc.version.toNat + acc.mutations later :=
        hcount
      omega
  · intro handle hmember
    rw [hacc.members] at hmember
    obtain ⟨a, ha, rfl⟩ := List.mem_map.1 hmember
    exact ⟨_, (Accumulator.witness_eq_ok hp hacc).2 ⟨a, ha, rfl, rfl⟩⟩
  · intro handle hmember hlt
    rw [hacc.members] at hmember
    obtain ⟨a, ha, rfl⟩ := List.mem_map.1 hmember
    refine ⟨(acc.committed k g τ (as.filter (· ≠ a))).snapshot, ?_⟩
    rw [Accumulator.exit_eq hp hacc ha (Accumulator.version_ne_iff.2 hlt)]

theorem accumulator_consistent_sample :
    AccumulatorParameters.make samplePairing sampleParameters.context sampleParameters.generator
        sampleParameters.pairingBase sampleParameters.sdh sampleParameters.hTau
        sampleParameters.ownership = .ok sampleParameters ∧
      (Accumulator.start sampleParameters : Accumulator 11 _ _).mutations sampleCalls = 3 ∧
      let acc := (Accumulator.start sampleParameters : Accumulator 11 _ _).after sampleCalls
      acc.members = [.live 1 5] ∧ acc.version.toNat = 3 ∧
        ∀ later w, acc.witness (.live 1 5) = .ok w → 0 < acc.mutations later →
          (acc.after later).verify samplePairing (.live 1 5) w = false := by
  have haccepted : AccumulatorParameters.make samplePairing sampleParameters.context
      sampleParameters.generator sampleParameters.pairingBase sampleParameters.sdh
      sampleParameters.hTau sampleParameters.ownership = .ok sampleParameters := rfl
  have hcount : (Accumulator.start sampleParameters : Accumulator 11 _ _).mutations sampleCalls =
      3 := rfl
  obtain ⟨k, g, h, τ, -, hrun⟩ := accumulator_consistent (r := 11) samplePairing haccepted
  obtain ⟨-, hversion, -, hwitness, -⟩ := hrun sampleCalls
  refine ⟨haccepted, hcount, rfl, hversion.trans hcount, ?_⟩
  intro later w hw hlater
  exact (hwitness _ w hw later).2 hlater _

end Lktrs.Protocol
