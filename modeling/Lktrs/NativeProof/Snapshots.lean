import Lktrs.NativeProof.Accumulator
import Lktrs.NativeProof.ExponentModel

/-!
# Membership witnesses and snapshots

Over valid parameters with trapdoor `tau` everything about a ring is arithmetic
of the exponents: its accumulator is the product of `tau + a` over the handles,
a witness is the product without one factor, and `verifyMembership` compares the
two through the pairing (`accumulator_correct`).

A snapshot that came out of `newSnapshot`, `join` and `exit` is the snapshot of
its own account list (`Snapshot.Reachable.rebuilt`). So its updates are those of
the list: `join` appends an account when the longer list has an accumulator, and
`exit` takes the account of a handle out, which never fails on a member
(`snapshot_updates_exact`).
-/

set_option autoImplicit false

namespace Lktrs.NativeProof

open Lktrs.Foundation

variable (lib : GnarkCrypto)

/-! ## The parameters of a trapdoor -/

/-- Valid parameters are determined by the trapdoor and the number of powers. -/
theorem eq_srs_of_valid {p : Params} {τ : ZMod bn254Fr} (hvalid : validateParams lib p = .ok ())
    (hτ : p.hTau = lib.bn2.exp τ) :
    p = srs lib τ p.powers.length ∧ τ ≠ 0 ∧ 2 ≤ p.powers.length ∧
      p.powers.length ≤ 2 ^ 16 + 1 := by
  obtain ⟨σ, n, hσ, hmin, hmax, rfl⟩ := (validateParams_eq_ok lib).1 hvalid
  obtain rfl : σ = τ := lib.bn2.exp_inj.1 hτ
  rw [length_powers_srs]
  exact ⟨rfl, hσ, hmin, hmax⟩

theorem powers_of_valid {p : Params} {τ : ZMod bn254Fr} (hvalid : validateParams lib p = .ok ())
    (hτ : p.hTau = lib.bn2.exp τ) {i : ℕ} (hi : i < p.powers.length) :
    p.powers[i]? = some (lib.bn.exp (τ ^ i)) := by
  obtain ⟨hp, _⟩ := eq_srs_of_valid lib hvalid hτ
  rw [hp]
  exact getElem?_powers_srs lib hi

/-- When a ring has an accumulator under valid parameters, and which one. -/
theorem accumulate_iff {p : Params} {τ : ZMod bn254Fr} (hvalid : validateParams lib p = .ok ())
    (hτ : p.hTau = lib.bn2.exp τ) {accounts : List Account} {v : Bn254G1} :
    accumulate lib p accounts = .ok v ↔
      accounts.length ≤ p.capacity ∧ (∀ a ∈ accounts, member lib a = .ok (handle a)) ∧
        (accounts.map handle).Nodup ∧ linearProduct τ (accounts.map handle) ≠ 0 ∧
        v = lib.bn.exp (linearProduct τ (accounts.map handle)) := by
  obtain ⟨hp, _, hmin, _⟩ := eq_srs_of_valid lib hvalid hτ
  have hlen : accounts.length ≤ p.capacity ↔ accounts.length < p.powers.length := by
    rw [Params.capacity]
    omega
  rw [hlen]
  generalize p.powers.length = n at hp
  subst hp
  exact accumulate_eq_product lib hvalid

/-! ## Witnesses -/

/-- Taking an account out of a ring leaves the handles of the others. -/
theorem map_handle_eraseIdx (accounts : List Account) (i : ℕ) :
    (accounts.eraseIdx i).map handle =
      (accounts.map handle).take i ++ (accounts.map handle).drop (i + 1) := by
  rw [List.eraseIdx_eq_take_drop_succ, List.map_append, List.map_take, List.map_drop]

/-- The witness of an index is the accumulator of the other accounts. -/
theorem membershipWitness_eq_accumulate {p : Params} {accounts : List Account} {v : Bn254G1}
    (hv : accumulate lib p accounts = .ok v) {i : ℕ} (hi : i < accounts.length) {w : Bn254G1} :
    membershipWitness lib p accounts i = .ok w ↔
      accumulate lib p (accounts.eraseIdx i) = .ok w := by
  have hvalid := validateParams_of_accumulate lib hv
  obtain ⟨τ, n, _, _, hmax, rfl⟩ := (validateParams_eq_ok lib).1 hvalid
  obtain ⟨hlen, hall, hnodup, hprod, _⟩ := (accumulate_eq_product lib hvalid).1 hv
  have hsub := List.eraseIdx_sublist accounts i
  have hne : accounts ≠ [] := by
    rintro rfl
    exact absurd hi (Nat.not_lt_zero i)
  have hms : membersOf lib accounts = .ok (accounts.map handle) :=
    (membersOf_eq_map lib).2 ⟨hne, by omega, hall, rfl, hnodup⟩
  rw [membershipWitness_srs lib hvalid, accumulate_eq_product lib hvalid, map_handle_eraseIdx,
    Int.toNat_natCast]
  constructor
  · rintro ⟨_, ms, hms', _, hne, hw⟩
    obtain rfl : accounts.map handle = ms := Except.ok.inj (hms.symm.trans hms')
    refine ⟨hsub.length_le.trans_lt hlen, fun a ha => hall a (hsub.subset ha), ?_, hne, hw⟩
    rw [← map_handle_eraseIdx]
    exact hnodup.sublist (hsub.map handle)
  · rintro ⟨_, _, _, hne, hw⟩
    exact ⟨⟨by omega, by omega⟩, _, hms, by rwa [List.length_map], hne, hw⟩

/-- The pairing check compares the accumulator with the witness raised to `tau + b`. -/
theorem verifyMembership_iff {p : Params} {τ : ZMod bn254Fr}
    (hvalid : validateParams lib p = .ok ()) (hτ : p.hTau = lib.bn2.exp τ) {v w : Bn254G1} {b : ℤ} :
    verifyMembership lib p v w b = true ↔
      (0 < b ∧ b < bn254Fr) ∧ goodBN lib v = true ∧ goodBN lib w = true ∧ τ + b ≠ 0 ∧
        w = lib.bn.scalarMultiplication v ((τ + (b : ZMod bn254Fr))⁻¹.cast : ℤ) := by
  have hh : p.h = lib.bn2.exp 1 := by
    obtain ⟨hp, _⟩ := eq_srs_of_valid lib hvalid hτ
    rw [hp]
    exact lib.bn2.generator_eq_exp
  have hhat : lib.bn2.add (lib.bn2.scalarMultiplication p.h b) p.hTau = lib.bn2.exp (τ + b) := by
    rw [hh, hτ, lib.bn2.scalarMultiplication_exp, lib.bn2.add_exp, mul_one, add_comm]
  -- the guards, then the product check on the logarithms
  by_cases hguard : canonicalNonzero b bn254Fr = false ∨ goodBN lib v = false ∨ goodBN lib w = false
  · have hfalse : verifyMembership lib p v w b = false := by
      rw [verifyMembership, if_pos]
      rcases hguard with h | h | h
      · exact .inl h
      · exact .inr (.inl h)
      · exact .inr (.inr (.inl h))
    rw [hfalse]
    simp only [Bool.false_eq_true, false_iff, not_and]
    intro hb hv hw
    rcases hguard with h | h | h
    · rw [canonicalNonzero_some.2 hb] at h
      cases h
    · rw [hv] at h
      cases h
    · rw [hw] at h
      cases h
  · simp only [not_or, Bool.not_eq_false] at hguard
    obtain ⟨hb, hv, hw⟩ := hguard
    obtain ⟨x, hx, rfl⟩ := (goodBN_iff lib).1 hv
    obtain ⟨y, hy, rfl⟩ := (goodBN_iff lib).1 hw
    have hcheck := lib.pairing.pairingCheck_exp [(y, τ + b), (-x, 1)]
    simp only [List.map_cons, List.map_nil, List.sum_cons, List.sum_nil] at hcheck
    have hequal : y * (τ + b) + (-x * 1 + 0) = 0 ∧ τ + b ≠ 0 ↔
        τ + b ≠ 0 ∧ y = (τ + (b : ZMod bn254Fr))⁻¹ * x := by
      constructor
      · rintro ⟨h, hne⟩
        refine ⟨hne, ?_⟩
        rw [eq_inv_mul_iff_mul_eq₀ hne]
        linear_combination h
      · rintro ⟨hne, h⟩
        rw [eq_inv_mul_iff_mul_eq₀ hne] at h
        exact ⟨by linear_combination h, hne⟩
    rw [verifyMembership, if_neg (by simp [hb, hv, hw, hvalid]), hhat, lib.bn.neg_exp, hh]
    dsimp only
    rw [hcheck]
    simp only [hv, hw, canonicalNonzero_some.1 hb, lib.bn.scalarMultiplication_exp, lib.bn.exp_inj,
      ZMod.intCast_cast, ZMod.cast_id', id_eq, true_and, and_self]
    rw [← hequal]
    by_cases hne : τ + (b : ZMod bn254Fr) = 0
    · simp [hne]
    · rw [if_neg (by simpa using hne)]
      simp [hne]

/-! ## Indices into the powers -/

theorem sumPowers_total (p : Params) :
    ∀ (cs : List ℤ) (i : ℕ) (sum : Bn254G1), i + cs.length ≤ p.powers.length →
      ∃ out, sumPowers lib p i cs sum = .ok out := by
  intro cs
  induction cs with
  | nil =>
      intro i sum _
      exact ⟨sum, rfl⟩
  | cons c cs ih =>
      intro i sum hlen
      rw [List.length_cons] at hlen
      rw [sumPowers, List.getElem?_eq_getElem (by omega : i < p.powers.length)]
      exact ih (i + 1) _ (by omega)

/-- The polynomial has one coefficient more than there are handles, so the check of the length
keeps every index inside the powers. -/
theorem combinePowers_index (p : Params) (members : List ℤ) :
    combinePowers lib p members ≠ .error "index out of range" := by
  unfold combinePowers
  by_cases hlen : members.length ≥ p.powers.length
  · rw [rejectIf_of hlen, error_bind]
    decide
  · obtain ⟨sum, hsum⟩ := sumPowers_total lib p (memberPolynomial members) 0 Affine.infinity
      (by rw [length_memberPolynomial]; omega)
    rw [rejectIf_of_not hlen, ok_bind, hsum, ok_bind]
    by_cases hgood : goodBN lib sum = false
    · rw [rejectIf_of hgood, error_bind]
      decide
    · rw [rejectIf_of_not hgood, ok_bind]
      nofun

/-! ## Correctness of the accumulator -/

/-- What the accumulator and the witnesses of an accepted ring are. -/
structure AccumulatorCorrect (p : Params) (τ : ZMod bn254Fr) (accounts : List Account)
    (v : Bn254G1) : Prop where
  handles : ∃ as : List ℤ, List.Forall₂ (fun a m => member lib a = .ok m) accounts as ∧
    v = lib.bn.exp (linearProduct τ as)
  perm : ∀ accounts' : List Account, accounts'.Perm accounts → accumulate lib p accounts' = .ok v
  witness : ∀ (i : ℕ) (a : Account), accounts[i]? = some a →
    ∃ (m : ℤ) (w : Bn254G1), member lib a = .ok m ∧ membershipWitness lib p accounts i = .ok w ∧
      accumulate lib p (accounts.eraseIdx i) = .ok w ∧ verifyMembership lib p v w m = true

theorem accumulate_perm {p : Params} {accounts accounts' : List Account} {v : Bn254G1}
    (hv : accumulate lib p accounts = .ok v) (hperm : accounts'.Perm accounts) :
    accumulate lib p accounts' = .ok v := by
  have hvalid := validateParams_of_accumulate lib hv
  obtain ⟨τ, n, _, _, _, rfl⟩ := (validateParams_eq_ok lib).1 hvalid
  obtain ⟨hlen, hall, hnodup, hprod, rfl⟩ := (accumulate_eq_product lib hvalid).1 hv
  have hmap := hperm.map handle
  refine (accumulate_eq_product lib hvalid).2 ⟨hperm.length_eq ▸ hlen, ?_, ?_, ?_, ?_⟩
  · intro a ha
    exact hall a (hperm.mem_iff.1 ha)
  · exact hmap.nodup_iff.2 hnodup
  · rwa [linearProduct_perm τ hmap]
  · rw [linearProduct_perm τ hmap]

/-- A handle is a canonical nonzero scalar. -/
theorem member_canonical {a : Account} {m : ℤ} (h : member lib a = .ok m) :
    canonicalNonzero (some m) bn254Fr = true := by
  rw [member, bind_eq_ok] at h
  obtain ⟨_, _, hm⟩ := h
  exact hashScalar_canonical hm

/-- Every index of an accepted ring has a witness that verifies. -/
theorem witness_verifies {p : Params} {accounts : List Account} {v : Bn254G1}
    (hv : accumulate lib p accounts = .ok v) {i : ℕ} {a : Account} (ha : accounts[i]? = some a) :
    ∃ (m : ℤ) (w : Bn254G1), member lib a = .ok m ∧ membershipWitness lib p accounts i = .ok w ∧
      accumulate lib p (accounts.eraseIdx i) = .ok w ∧ verifyMembership lib p v w m = true := by
  have hvalid := validateParams_of_accumulate lib hv
  obtain ⟨τ, n, m, w, rfl, hm, hw, hw0, hv0, rfl⟩ := membershipWitness_of_accumulate lib hv ha
  have hi := (List.getElem?_eq_some_iff.1 ha).1
  refine ⟨m, _, hm, hw, (membershipWitness_eq_accumulate lib hv hi).1 hw, ?_⟩
  have hne := left_ne_zero_of_mul hv0
  refine (verifyMembership_iff lib hvalid rfl).2
    ⟨canonicalNonzero_some.1 (member_canonical lib hm), (goodBN_exp lib).2 hv0,
      (goodBN_exp lib).2 hw0, hne, ?_⟩
  rw [lib.bn.scalarMultiplication_exp, lib.bn.exp_inj, ZMod.intCast_cast, ZMod.cast_id', id_eq,
    inv_mul_cancel_left₀ hne]

/-- Under valid parameters of trapdoor `tau`: the powers are those of `tau`; the accumulator of an
accepted ring is the product of its linear factors, whatever the order, and every index has a
witness, the accumulator of the others, that verifies; `verifyMembership` accepts exactly the point
`[1 / (tau + b)]V`, hence at most one for each `V` and `b`; and no index leaves the powers. -/
theorem accumulator_correct (p : Params) (τ : ZMod bn254Fr)
    (hvalid : validateParams lib p = .ok ()) (hτ : p.hTau = lib.bn2.exp τ) :
    (∀ i < p.powers.length, p.powers[i]? = some (lib.bn.exp (τ ^ i))) ∧
    (∀ (accounts : List Account) (v : Bn254G1), accumulate lib p accounts = .ok v →
      AccumulatorCorrect lib p τ accounts v) ∧
    (∀ (v w : Bn254G1) (b : ℤ), verifyMembership lib p v w b = true ↔
      (0 < b ∧ b < bn254Fr) ∧ goodBN lib v = true ∧ goodBN lib w = true ∧ τ + b ≠ 0 ∧
        w = lib.bn.scalarMultiplication v ((τ + (b : ZMod bn254Fr))⁻¹.cast : ℤ)) ∧
    (∀ (v w w' : Bn254G1) (b : ℤ), verifyMembership lib p v w b = true →
      verifyMembership lib p v w' b = true → w = w') ∧
    ∀ members : List ℤ, combinePowers lib p members ≠ .error "index out of range" := by
  refine ⟨fun i hi => powers_of_valid lib hvalid hτ hi, ?_,
    fun v w b => verifyMembership_iff lib hvalid hτ, ?_, combinePowers_index lib p⟩
  · intro accounts v hv
    obtain ⟨_, hall, _, _, hprod⟩ := (accumulate_iff lib hvalid hτ).1 hv
    refine ⟨⟨accounts.map handle, ?_, hprod⟩, fun _ hperm => accumulate_perm lib hv hperm,
      fun _ _ ha => witness_verifies lib hv ha⟩
    rw [List.forall₂_map_right_iff]
    exact List.forall₂_same.2 hall
  · intro v w w' b hw hw'
    obtain ⟨_, _, _, _, hw⟩ := (verifyMembership_iff lib hvalid hτ).1 hw
    obtain ⟨_, _, _, _, hw'⟩ := (verifyMembership_iff lib hvalid hτ).1 hw'
    rw [hw, hw']

/-! ## Snapshots -/

/-- The snapshots that come out of `newSnapshot`, `join` and `exit`. -/
inductive Snapshot.Reachable (p : Params) : Snapshot → Prop where
  | new {accounts : List Account} {s : Snapshot} (h : newSnapshot lib p accounts = .ok s) :
      Reachable p s
  | join {s s' : Snapshot} {a : Account} (hs : Reachable p s) (h : s.join lib a = .ok s') :
      Reachable p s'
  | exit {s s' : Snapshot} {m : ℤ} (hs : Reachable p s) (h : s.exit lib m = .ok s') :
      Reachable p s'

variable {lib}

theorem newSnapshot_fields {p : Params} {accounts : List Account} {s : Snapshot}
    (h : newSnapshot lib p accounts = .ok s) :
    s.params = p ∧ s.accounts = accounts ∧ newSnapshot lib p s.accounts = .ok s := by
  obtain ⟨v, _, rfl⟩ := (newSnapshot_eq_ok lib).1 h
  exact ⟨rfl, rfl, h⟩

theorem Snapshot.exit_eq_newSnapshot {s s' : Snapshot} {m : ℤ} (h : s.exit lib m = .ok s') :
    ∃ keep, newSnapshot lib s.params keep = .ok s' := by
  simp only [Snapshot.exit, bind_eq_ok, rejectIf_eq_ok, Prod.exists] at h
  obtain ⟨_, _, keep, _, _, _, _, h⟩ := h
  exact ⟨keep, h⟩

/-- A reachable snapshot is the snapshot of its accounts. -/
theorem Snapshot.Reachable.rebuilt {p : Params} {s : Snapshot} (h : s.Reachable lib p) :
    s.params = p ∧ newSnapshot lib p s.accounts = .ok s := by
  induction h with
  | new h =>
      obtain ⟨hp, _, hs⟩ := newSnapshot_fields h
      exact ⟨hp, hs⟩
  | join _ h ih =>
      obtain ⟨hp, _, hs⟩ := newSnapshot_fields h
      rw [ih.1] at hp hs
      exact ⟨hp, hs⟩
  | exit _ h ih =>
      obtain ⟨keep, h⟩ := Snapshot.exit_eq_newSnapshot h
      obtain ⟨hp, _, hs⟩ := newSnapshot_fields h
      rw [ih.1] at hp hs
      exact ⟨hp, hs⟩

/-- The loop of `exit` over accounts that all have handles. -/
theorem dropMember_eq (m : ℤ) : ∀ accounts : List Account,
    (∀ a ∈ accounts, member lib a = .ok (handle a)) →
      dropMember lib m accounts =
        .ok (accounts.filter (fun a => handle a ≠ m), decide (m ∈ accounts.map handle)) := by
  intro accounts
  induction accounts with
  | nil =>
      intro _
      rfl
  | cons a accounts ih =>
      intro hall
      obtain ⟨ha, hall⟩ := List.forall_mem_cons.1 hall
      rw [dropMember, ha, ok_bind, ih hall, ok_bind]
      by_cases hm : handle a = m
      · simp [hm]
      · simp [hm, Ne.symm hm]

/-- In a list of distinct handles the filter takes out one account. -/
theorem filter_handle_ne {pre post : List Account} {a : Account}
    (hnodup : ((pre ++ a :: post).map handle).Nodup) :
    (pre ++ a :: post).filter (fun b => handle b ≠ handle a) = pre ++ post := by
  simp only [List.map_append, List.map_cons, List.nodup_append, List.nodup_cons] at hnodup
  obtain ⟨_, ⟨hpost, _⟩, hpre⟩ := hnodup
  have hkeep : ∀ b ∈ pre ++ post, handle b ≠ handle a := by
    intro b hb heq
    rcases List.mem_append.1 hb with hb | hb
    · exact hpre _ (List.mem_map_of_mem hb) _ (List.mem_cons_self ..) heq
    · exact hpost (heq ▸ List.mem_map_of_mem hb)
  have hfilter : (pre ++ post).filter (fun b => handle b ≠ handle a) = pre ++ post := by
    apply List.filter_eq_self.2
    intro b hb
    exact decide_eq_true (hkeep b hb)
  rw [List.filter_append] at hfilter ⊢
  rw [List.filter_cons_of_neg (by simp), hfilter]

theorem newSnapshot_members {p : Params} {accounts : List Account} {s : Snapshot}
    (h : newSnapshot lib p accounts = .ok s) :
    (∀ a ∈ accounts, member lib a = .ok (handle a)) ∧ (accounts.map handle).Nodup ∧
      accounts.length ≤ p.capacity := by
  obtain ⟨v, hv, _⟩ := (newSnapshot_eq_ok lib).1 h
  exact accumulate_members lib hv

section Updates

variable {p : Params} {s : Snapshot}

/-- `exit` takes the account of a handle out, and succeeds on every handle of the snapshot. -/
theorem Snapshot.exit_iff (hp : s.params = p) (hs : newSnapshot lib p s.accounts = .ok s) {m : ℤ}
    {s' : Snapshot} :
    s.exit lib m = .ok s' ↔ ∃ pre a post, s.accounts = pre ++ a :: post ∧ member lib a = .ok m ∧
      newSnapshot lib p (pre ++ post) = .ok s' := by
  obtain ⟨hall, hnodup, _⟩ := newSnapshot_members hs
  simp only [Snapshot.exit, bind_eq_ok, rejectIf_eq_ok, dropMember_eq m _ hall, Except.ok.injEq,
    Prod.exists, Prod.mk.injEq, hp]
  constructor
  · rintro ⟨_, _, _, _, ⟨rfl, rfl⟩, _, hfound, hnew⟩
    obtain ⟨a, ha, rfl⟩ := List.mem_map.1 (by simpa using hfound : m ∈ s.accounts.map handle)
    obtain ⟨pre, post, hsplit⟩ := List.append_of_mem ha
    rw [hsplit] at hnodup
    rw [hsplit, filter_handle_ne hnodup] at hnew
    exact ⟨pre, a, post, hsplit, hall a ha, hnew⟩
  · rintro ⟨pre, a, post, hsplit, hm, hnew⟩
    have ha : a ∈ s.accounts := by simp [hsplit]
    obtain rfl := member_eq_handle lib hm
    refine ⟨(), ?_, _, _, ⟨rfl, rfl⟩, (), ?_, ?_⟩
    · rw [member_canonical lib hm]
      simp
    · simpa using ⟨a, ha, rfl⟩
    · rw [hsplit] at hnodup
      rw [hsplit, filter_handle_ne hnodup]
      exact hnew

theorem Snapshot.exit_total (hp : s.params = p) (hs : newSnapshot lib p s.accounts = .ok s)
    {a : Account} (ha : a ∈ s.accounts) : ∃ s', s.exit lib (handle a) = .ok s' := by
  obtain ⟨pre, post, hsplit⟩ := List.append_of_mem ha
  have hsub : (pre ++ post).Sublist s.accounts := by
    rw [hsplit]
    exact (List.Sublist.refl pre).append (List.sublist_cons_self a post)
  obtain ⟨s', hs'⟩ := newSnapshot_subperm lib hs hsub.subperm
  have hm := (newSnapshot_members hs).1 a ha
  exact ⟨s', (Snapshot.exit_iff hp hs).2 ⟨pre, a, post, hsplit, hm, hs'⟩⟩

/-- A longer ring has an accumulator when the new handle is good, new and not the negated trapdoor,
and there is room. -/
theorem Snapshot.join_iff {τ : ZMod bn254Fr} (hvalid : validateParams lib p = .ok ())
    (hτ : p.hTau = lib.bn2.exp τ) (hp : s.params = p) (hs : newSnapshot lib p s.accounts = .ok s)
    {a : Account} :
    (∃ s', s.join lib a = .ok s') ↔
      validateAccount lib a = .ok () ∧ handle a ≠ 0 ∧ handle a ∉ s.accounts.map handle ∧
        τ + handle a ≠ 0 ∧ s.accounts.length < p.capacity := by
  obtain ⟨v, hv, _⟩ := (newSnapshot_eq_ok lib).1 hs
  obtain ⟨_, hall, hnodup, hprod, _⟩ := (accumulate_iff lib hvalid hτ).1 hv
  have hmember : member lib a = .ok (handle a) ↔ validateAccount lib a = .ok () ∧ handle a ≠ 0 := by
    rw [member_eq_ok]
    exact ⟨fun h => ⟨h.1, h.2.1⟩, fun h => ⟨h.1, h.2, rfl⟩⟩
  simp only [Snapshot.join, hp, newSnapshot_eq_ok, accumulate_iff lib hvalid hτ, List.length_append,
    List.length_singleton, List.forall_mem_append, List.forall_mem_singleton, List.map_append,
    List.map_cons, List.map_nil, List.nodup_append, List.nodup_singleton, linearProduct_append,
    linearProduct_cons, linearProduct_nil, mul_one, hmember]
  constructor
  · rintro ⟨_, _, ⟨hroom, ⟨_, hgood, hne⟩, ⟨_, _, hnew⟩, hprod', _⟩, _⟩
    refine ⟨hgood, hne, ?_, right_ne_zero_of_mul hprod', by omega⟩
    intro hmem
    exact hnew _ hmem rfl
  · rintro ⟨hgood, hne, hnew, hτa, hroom⟩
    refine ⟨_, _, ⟨by omega, ⟨hall, hgood, hne⟩, ⟨hnodup, trivial, ?_⟩, mul_ne_zero hprod hτa, rfl⟩,
      rfl⟩
    intro m hm heq
    exact hnew (heq ▸ hm)

variable (lib) in
/-- Join accounts one after the other. -/
def Snapshot.joinAll (s : Snapshot) (accounts : List Account) : Except String Snapshot :=
  accounts.foldlM (Snapshot.join lib) s

/-- Joining accounts one after the other succeeds when the whole list has an accumulator. -/
theorem Snapshot.joinAll_eq_ok (accounts : List Account) : ∀ {s s' : Snapshot}, s.params = p →
    newSnapshot lib p s.accounts = .ok s →
      (s.joinAll lib accounts = .ok s' ↔ newSnapshot lib p (s.accounts ++ accounts) = .ok s') := by
  induction accounts with
  | nil =>
      intro s s' _ hs
      rw [List.append_nil, hs]
      rfl
  | cons a accounts ih =>
      intro s s' hp hs
      have hcons : s.joinAll lib (a :: accounts) =
          s.join lib a >>= fun s => s.joinAll lib accounts := rfl
      rw [hcons, bind_eq_ok]
      have hshift : s.accounts ++ a :: accounts = (s.accounts ++ [a]) ++ accounts := by simp
      constructor
      · rintro ⟨t, ht, hrest⟩
        rw [Snapshot.join, hp] at ht
        obtain ⟨htp, hta, hts⟩ := newSnapshot_fields ht
        rwa [ih htp hts, hta, ← hshift] at hrest
      · intro h
        rw [hshift] at h
        obtain ⟨t, ht⟩ := newSnapshot_subperm lib h (List.sublist_append_left _ _).subperm
        obtain ⟨htp, hta, hts⟩ := newSnapshot_fields ht
        refine ⟨t, by rw [Snapshot.join, hp]; exact ht, ?_⟩
        rwa [ih htp hts, hta]

/-- Snapshots of the same accounts in another order have the same value. -/
theorem newSnapshot_perm {accounts accounts' : List Account}
    (h : newSnapshot lib p accounts = .ok s) (hperm : accounts'.Perm accounts) :
    ∃ s', newSnapshot lib p accounts' = .ok s' ∧ s'.value = s.value := by
  obtain ⟨v, hv, rfl⟩ := (newSnapshot_eq_ok lib).1 h
  exact ⟨_, (newSnapshot_eq_ok lib).2 ⟨v, accumulate_perm lib hv hperm, rfl⟩, rfl⟩

end Updates

variable (lib) in
/-- A snapshot under parameters of trapdoor `τ`: what it holds, and when and how `join` and `exit`
change it. -/
structure Snapshot.Exact (p : Params) (τ : ZMod bn254Fr) (s : Snapshot) : Prop where
  handles : (∀ a ∈ s.accounts, member lib a = .ok (handle a)) ∧ (s.accounts.map handle).Nodup
  capacity : s.accounts.length ≤ p.capacity
  value : s.value = lib.bn.exp (linearProduct τ (s.accounts.map handle))
  exit_iff : ∀ m, (∃ s', s.exit lib m = .ok s') ↔ ∃ a ∈ s.accounts, member lib a = .ok m
  exit_effect : ∀ m s', s.exit lib m = .ok s' → ∃ pre a post, s.accounts = pre ++ a :: post ∧
    member lib a = .ok m ∧ s'.accounts = pre ++ post
  join_iff : ∀ a, (∃ s', s.join lib a = .ok s') ↔
    validateAccount lib a = .ok () ∧ handle a ≠ 0 ∧ handle a ∉ s.accounts.map handle ∧
      τ + handle a ≠ 0 ∧ s.accounts.length < p.capacity
  join_effect : ∀ a s', s.join lib a = .ok s' → s'.accounts = s.accounts ++ [a]
  join_exit : ∀ a s', s.join lib a = .ok s' →
    ∃ m s'', member lib a = .ok m ∧ s'.exit lib m = .ok s'' ∧ s''.accounts = s.accounts ∧
      s''.value = s.value
  order : ∀ as bs s', as.Perm bs → s.joinAll lib as = .ok s' →
    ∃ s'', s.joinAll lib bs = .ok s'' ∧ s''.value = s'.value

theorem Snapshot.exact_of_rebuilt {p : Params} {τ : ZMod bn254Fr} {s : Snapshot}
    (hvalid : validateParams lib p = .ok ()) (hτ : p.hTau = lib.bn2.exp τ) (hp : s.params = p)
    (hs : newSnapshot lib p s.accounts = .ok s) : s.Exact lib p τ := by
  obtain ⟨hall, hnodup, hcapacity⟩ := newSnapshot_members hs
  have hjoin : ∀ {a s'}, s.join lib a = .ok s' →
      s'.params = p ∧ s'.accounts = s.accounts ++ [a] ∧ newSnapshot lib p s'.accounts = .ok s' := by
    intro a s' h
    rw [Snapshot.join, hp] at h
    exact newSnapshot_fields h
  refine
    { handles := ⟨hall, hnodup⟩, capacity := hcapacity, value := ?_, exit_iff := ?_,
      exit_effect := ?_, join_iff := fun a => Snapshot.join_iff hvalid hτ hp hs,
      join_effect := fun a s' h => (hjoin h).2.1, join_exit := ?_, order := ?_ }
  · obtain ⟨v, hv, hsnap⟩ := (newSnapshot_eq_ok lib).1 hs
    rw [hsnap]
    exact ((accumulate_iff lib hvalid hτ).1 hv).2.2.2.2
  · intro m
    constructor
    · rintro ⟨s', h⟩
      obtain ⟨pre, a, post, hsplit, hm, _⟩ := (Snapshot.exit_iff hp hs).1 h
      exact ⟨a, by simp [hsplit], hm⟩
    · rintro ⟨a, ha, hm⟩
      rw [member_eq_handle lib hm]
      exact Snapshot.exit_total hp hs ha
  · intro m s' h
    obtain ⟨pre, a, post, hsplit, hm, hnew⟩ := (Snapshot.exit_iff hp hs).1 h
    exact ⟨pre, a, post, hsplit, hm, (newSnapshot_fields hnew).2.1⟩
  · intro a s' h
    obtain ⟨hp', haccounts, hs'⟩ := hjoin h
    -- the new account stands at the end, so leaving gives back the accounts as they were
    have hm := (newSnapshot_members hs').1 a (by simp [haccounts])
    refine ⟨handle a, s, hm, ?_, rfl, rfl⟩
    exact (Snapshot.exit_iff hp' hs').2 ⟨s.accounts, a, [], haccounts, hm, by simpa using hs⟩
  · intro as bs s' hperm h
    -- joining one by one builds the snapshot of the longer list, and its value is symmetric
    rw [Snapshot.joinAll_eq_ok as hp hs] at h
    obtain ⟨s'', hs'', hvalue⟩ := newSnapshot_perm h (hperm.symm.append_left s.accounts)
    exact ⟨s'', (Snapshot.joinAll_eq_ok bs hp hs).2 hs'', hvalue⟩

/-- Every snapshot reachable by `join` and `exit` under valid parameters of trapdoor `tau` has
distinct handles, fits, and has the product of its linear factors as value; its updates succeed and
change it exactly as `Snapshot.Exact` says. -/
theorem snapshot_updates_exact (p : Params) (τ : ZMod bn254Fr)
    (hvalid : validateParams lib p = .ok ()) (hτ : p.hTau = lib.bn2.exp τ) (s : Snapshot)
    (hs : s.Reachable lib p) : s.Exact lib p τ := by
  obtain ⟨hp, hrebuilt⟩ := hs.rebuilt
  exact Snapshot.exact_of_rebuilt hvalid hτ hp hrebuilt

/-! ## The sample ring -/

theorem sampleRing_accumulates :
    ∃ v, accumulate exponentLib sampleParams sampleRing = .ok v := by
  obtain ⟨ctx, hctx⟩ := sampleContext_ok
  simp only [sampleContext, newVerificationContext, bind_eq_ok] at hctx
  obtain ⟨_, _, _, _, v, hv, _⟩ := hctx
  exact ⟨v, hv⟩

/-- The handles differ, and none is opposite to the trapdoor. -/
theorem sampleRing_handles :
    handle otherAccount ≠ handle sampleAccount ∧
      ∀ a ∈ sampleRing, (5 : ZMod bn254Fr) + handle a ≠ 0 := by
  obtain ⟨v, hv⟩ := sampleRing_accumulates
  obtain ⟨-, -, hnodup, hproduct, -⟩ :=
    (accumulate_iff exponentLib sampleParams_valid sampleParams_hTau).1 hv
  simp only [sampleRing, List.map_cons, List.map_nil, List.nodup_cons, List.mem_singleton,
    linearProduct_cons] at hnodup hproduct
  refine ⟨hnodup.1, List.forall_mem_cons.2 ⟨left_ne_zero_of_mul hproduct, ?_⟩⟩
  exact List.forall_mem_singleton.2 (left_ne_zero_of_mul (right_ne_zero_of_mul hproduct))

theorem accumulator_correct_sample :
    ∃ v, accumulate exponentLib sampleParams sampleRing = .ok v ∧
      AccumulatorCorrect exponentLib sampleParams 5 sampleRing v := by
  obtain ⟨v, hv⟩ := sampleRing_accumulates
  exact ⟨v, hv, (accumulator_correct exponentLib sampleParams 5 sampleParams_valid
    sampleParams_hTau).2.1 _ v hv⟩

theorem snapshot_updates_exact_sample :
    ∃ s, newSnapshot exponentLib sampleParams sampleRing = .ok s ∧
      s.Exact exponentLib sampleParams 5 := by
  obtain ⟨v, hv⟩ := sampleRing_accumulates
  have hs := (newSnapshot_eq_ok exponentLib).2 ⟨v, hv, rfl⟩
  exact ⟨_, hs, snapshot_updates_exact sampleParams 5 sampleParams_valid sampleParams_hTau _
    (.new hs)⟩

end Lktrs.NativeProof
