import Lktrs.Protocol.Accumulator

/-!
# What the accumulator's operations compute

A tuple that the constructor accepts consists of the powers of one trapdoor
(`AccumulatorParameters.make_eq_ok`), so the value of a set is the generator to the
product of `τ + a` (`accumulate_eq_ok`): the operation succeeds exactly for handles
of the right context, as many as there are powers, without a factor zero. The
digest of a set does not depend on the order of its handles (`setDigest_perm`).
-/

set_option autoImplicit false

namespace Lktrs.Protocol

open Lktrs.Foundation

variable {r : ℕ} {G₁ G₂ GT : Type} [CommGroup G₁] [CommGroup G₂] [CommGroup GT] [DecidableEq G₁]
  [DecidableEq G₂] [DecidableEq GT]

/-- The scalars of one context with the given residues. -/
def liveAll (k : ℕ) (as : List (ZMod r)) : List (Scalar r) := as.map (Element.live k)

@[simp] theorem liveAll_nil (k : ℕ) : liveAll k ([] : List (ZMod r)) = [] := rfl

@[simp] theorem liveAll_cons (k : ℕ) (a : ZMod r) (as : List (ZMod r)) :
    liveAll k (a :: as) = .live k a :: liveAll k as := rfl

@[simp] theorem liveAll_append (k : ℕ) (as bs : List (ZMod r)) :
    liveAll k (as ++ bs) = liveAll k as ++ liveAll k bs :=
  List.map_append

@[simp] theorem length_liveAll (k : ℕ) (as : List (ZMod r)) : (liveAll k as).length = as.length :=
  List.length_map _

theorem liveAll_inj {k : ℕ} {as bs : List (ZMod r)} : liveAll k as = liveAll k bs ↔ as = bs := by
  refine (List.map_injective_iff.2 ?_).eq_iff
  intro a b hab
  exact (Element.live_inj.1 hab).2

/-! ## The set digest -/

theorem bytesLe_trans {a b c : List UInt8} (hab : bytesLe a b) (hbc : bytesLe b c) : bytesLe a c :=
  Std.TransCmp.isLE_trans hab hbc

theorem bytesLe_total (a b : List UInt8) : bytesLe a b ∨ bytesLe b a := by
  have hswap : compare b a = (compare a b).swap := Std.OrientedCmp.eq_swap
  unfold bytesLe
  rw [hswap]
  cases compare a b with
  | lt => exact Or.inl rfl
  | eq => exact Or.inl rfl
  | gt => exact Or.inr rfl

theorem bytesLe_antisymm {a b : List UInt8} (hab : bytesLe a b) (hba : bytesLe b a) : a = b :=
  Std.LawfulEqCmp.eq_of_compare (Std.OrientedCmp.isLE_antisymm hab hba)

instance : IsTrans (List UInt8) bytesLe := ⟨fun _ _ _ => bytesLe_trans⟩

instance : Std.Total bytesLe := ⟨bytesLe_total⟩

/-- The digest of a set of residues. -/
def residueDigest (as : List (ZMod r)) : FixedBytes 32 :=
  sha256 (setTranscript ((as.map residueBytes).insertionSort bytesLe))

/-- Sorting forgets the order. -/
theorem insertionSort_perm {l l' : List (List UInt8)} (h : l.Perm l') :
    l.insertionSort bytesLe = l'.insertionSort bytesLe := by
  refine @List.Perm.eq_of_pairwise _ bytesLe _ _ ?_ ?_ ?_ ?_
  · intro a b _ _ hab hba
    exact bytesLe_antisymm hab hba
  · exact List.pairwise_insertionSort bytesLe l
  · exact List.pairwise_insertionSort bytesLe l'
  · exact (List.perm_insertionSort bytesLe l).trans
      (h.trans (List.perm_insertionSort bytesLe l').symm)

theorem residueDigest_perm {as bs : List (ZMod r)} (h : as.Perm bs) :
    residueDigest as = residueDigest bs := by
  rw [residueDigest, residueDigest, insertionSort_perm (h.map residueBytes)]

theorem setDigest_liveAll (k : ℕ) (as : List (ZMod r)) :
    setDigest (liveAll k as) = .ok (residueDigest as) := by
  have hencoded : (liveAll k as).mapM Scalar.toBytes = .ok (as.map residueBytes) := by
    induction as with
    | nil => rfl
    | cons a as ih => simp [List.mapM_cons, Scalar.toBytes, ih, pure, Except.pure]
  simp [setDigest, hencoded, residueDigest, pure, Except.pure]

/-! ## Membership scans -/

theorem anyEquals_liveAll (k : ℕ) (a : ZMod r) (as : List (ZMod r)) :
    anyEquals (.live k a) (liveAll k as) = .ok (decide (a ∈ as)) := by
  induction as with
  | nil => rfl
  | cons b as ih =>
      simp only [liveAll_cons, anyEquals, Element.equals_live, ok_bind]
      by_cases hab : b = a
      · simp [hab, pure, Except.pure]
      · simp [hab, ih, Ne.symm hab]

/-- A scan that finds a match has compared two elements of one context. -/
theorem anyEquals_eq_true {k : ℕ} {handle : Scalar r} {as : List (ZMod r)}
    (h : anyEquals handle (liveAll k as) = .ok true) : ∃ a ∈ as, handle = .live k a := by
  induction as with
  | nil => simp [anyEquals] at h
  | cons b as ih =>
      simp only [liveAll_cons, anyEquals, bind_eq_ok, Element.equals_eq_ok] at h
      obtain ⟨same, ⟨k', b', a, hb, rfl, rfl⟩, h⟩ := h
      obtain ⟨rfl, rfl⟩ := Element.live_inj.1 hb
      by_cases hab : b = a
      · exact ⟨a, by simp [hab], rfl⟩
      · simp only [hab, decide_false, Bool.false_eq_true, if_false] at h
        obtain ⟨a', ha', heq⟩ := ih h
        exact ⟨a', List.mem_cons_of_mem _ ha', heq⟩

theorem copy_eq_ok {α : Type} {t : ElementTexts} {x y : Element α} :
    x.copy t = .ok y ↔ y = x ∧ ∃ k a, x = .live k a := by
  simp only [Element.copy, bind_eq_ok, pure_eq_ok, Element.get_eq_ok]
  constructor
  · rintro ⟨s, hx, rfl⟩
    exact ⟨rfl, s.state, s.raw, hx⟩
  · rintro ⟨rfl, k, a, hx⟩
    exact ⟨⟨k, a⟩, hx, rfl⟩

@[simp] theorem assign_live {α : Type} (t : ElementTexts) (k : ℕ) (a b : α) :
    (Element.live k a).assign t (.live k b) = .ok (.live k b) := by
  simp [Element.assign, Element.live, Element.get, throwIf, pure, Except.pure]

/-- One turn adds the handle. -/
theorem addDistinct_eq {candidate next : List (Scalar r)} {handle : Scalar r}
    (h : addDistinct candidate handle = .ok next) : next = candidate ++ [handle] := by
  simp only [addDistinct, bind_eq_ok, throwIf_eq_ok, pure_eq_ok, copy_eq_ok] at h
  obtain ⟨_, -, _, -, _, ⟨rfl, -⟩, rfl⟩ := h
  rfl

theorem addDistinct_liveAll {k : ℕ} {a : ZMod r} {as : List (ZMod r)}
    {next : List (Scalar r)} :
    addDistinct (liveAll k as) (.live k a) = .ok next ↔ a ∉ as ∧ next = liveAll k (as ++ [a]) := by
  simp only [addDistinct, anyEquals_liveAll, ok_bind, bind_eq_ok, throwIf_eq_ok, pure_eq_ok,
    copy_eq_ok, decide_eq_true_eq]
  constructor
  · rintro ⟨-, hmem, _, ⟨rfl, -⟩, rfl⟩
    exact ⟨hmem, by simp⟩
  · rintro ⟨hmem, rfl⟩
    exact ⟨⟨⟩, hmem, .live k a, ⟨rfl, k, a, rfl⟩, by simp⟩

/-- The copying loop gives back its input. -/
theorem collectDistinct_eq {handles candidate : List (Scalar r)}
    (h : collectDistinct handles = .ok candidate) : candidate = handles := by
  have hloop : ∀ (l acc : List (Scalar r)), l.foldlM addDistinct acc = .ok candidate →
      candidate = acc ++ l := by
    intro l
    induction l with
    | nil =>
        intro acc h
        cases h
        simp
    | cons handle l ih =>
        intro acc h
        rw [List.foldlM_cons] at h
        obtain ⟨next, hturn, h⟩ := bind_eq_ok.1 h
        rw [addDistinct_eq hturn] at h
        simpa using ih _ h
  simpa using hloop handles [] h

/-- Among handles of one context the loop succeeds exactly without a repetition. -/
theorem collectDistinct_liveAll {k : ℕ} {as : List (ZMod r)} {candidate : List (Scalar r)} :
    collectDistinct (liveAll k as) = .ok candidate ↔ as.Nodup ∧ candidate = liveAll k as := by
  -- from any handles collected so far: the rest is distinct and none of it was seen
  have hloop : ∀ (as bs : List (ZMod r)),
      (liveAll k as).foldlM addDistinct (liveAll k bs) = .ok candidate ↔
        as.Nodup ∧ (∀ a ∈ as, a ∉ bs) ∧ candidate = liveAll k (bs ++ as) := by
    intro as
    induction as with
    | nil =>
        intro bs
        simp [pure, Except.pure, eq_comm]
    | cons a as ih =>
        intro bs
        simp only [liveAll_cons, List.foldlM_cons, bind_eq_ok, addDistinct_liveAll]
        constructor
        · rintro ⟨_, ⟨hmem, rfl⟩, h⟩
          obtain ⟨hnodup, hdisjoint, hc⟩ := (ih _).1 h
          refine ⟨List.nodup_cons.2 ⟨fun h => hdisjoint a h (by simp), hnodup⟩, ?_, by simpa using hc⟩
          rintro b hb
          rcases List.mem_cons.1 hb with rfl | hb
          · exact hmem
          · exact fun h => hdisjoint b hb (by simp [h])
        · rintro ⟨hnodup, hdisjoint, hc⟩
          obtain ⟨ha, hnodup⟩ := List.nodup_cons.1 hnodup
          refine ⟨_, ⟨hdisjoint a (by simp), rfl⟩, (ih _).2 ⟨hnodup, ?_, by simpa using hc⟩⟩
          intro b hb hbs
          rcases List.mem_append.1 hbs with hbs | hbs
          · exact hdisjoint b (List.mem_cons_of_mem _ hb) hbs
          · exact ha (List.mem_singleton.1 hbs ▸ hb)
  have h := hloop as []
  simp only [liveAll_nil, List.nil_append, List.not_mem_nil, not_false_iff, implies_true,
    true_and] at h
  exact h

/-! ## The value of a set -/

/-- Multiply by `X + a` over the residues. -/
def mulLinear (a : ZMod r) : ZMod r → List (ZMod r) → List (ZMod r)
  | carried, [] => [carried]
  | carried, c :: cs => (carried + c * a) :: mulLinear a c cs

theorem length_mulLinear (a : ZMod r) (cs : List (ZMod r)) (carried : ZMod r) :
    (mulLinear a carried cs).length = cs.length + 1 := by
  induction cs generalizing carried with
  | nil => rfl
  | cons c cs ih => simp [mulLinear, ih]

theorem evalPowers_mulLinear (τ a : ZMod r) (cs : List (ZMod r)) (carried : ZMod r) :
    evalPowers τ (mulLinear a carried cs) = carried + (τ + a) * evalPowers τ cs := by
  induction cs generalizing carried with
  | nil => simp [mulLinear, evalPowers]
  | cons c cs ih =>
      rw [mulLinear, evalPowers, ih, evalPowers]
      ring

theorem timesLinear_liveAll (k : ℕ) (a : ZMod r) (cs : List (ZMod r)) (carried : ZMod r) :
    timesLinear (.live k 0) (.live k a) (.live k carried) (liveAll k cs) =
      .ok (liveAll k (mulLinear a carried cs)) := by
  induction cs generalizing carried with
  | nil => rfl
  | cons c cs ih =>
      simp only [liveAll_cons, timesLinear, Scalar.mul, Scalar.add, Element.combine_live, ok_bind,
        zero_add, ih, mulLinear]
      rfl

theorem scalar_eq_ok {context : PairingContext} {value : ℤ} {x : Scalar r} :
    scalar context value = .ok x ↔ ∃ k, context.state = some k ∧ x = .live k (value : ZMod r) := by
  obtain ⟨state, parameterId⟩ := context
  cases state with
  | none => simp [scalar, PairingContext.get]
  | some k => simp [scalar, PairingContext.get, eq_comm]

omit [DecidableEq G₁] in
theorem identity_eq_ok {context : PairingContext} {x : Element G₁} :
    identity context = .ok x ↔ ∃ k, context.state = some k ∧ x = .live k 1 := by
  obtain ⟨state, parameterId⟩ := context
  cases state with
  | none => simp [identity, PairingContext.get]
  | some k => simp [identity, PairingContext.get, eq_comm]

/-- A turn over a handle succeeds exactly for a handle of the coefficients' context. -/
theorem timesHandle_eq_ok {context : PairingContext} {k : ℕ} (hcontext : context.state = some k)
    {c : ZMod r} {cs : List (ZMod r)} {handle : Scalar r} {next : List (Scalar r)} :
    timesHandle context (liveAll k (c :: cs)) handle = .ok next ↔
      ∃ a, handle = .live k a ∧ next = liveAll k (mulLinear a 0 (c :: cs)) := by
  have hzero : scalar context 0 = .ok (.live k (0 : ZMod r)) :=
    scalar_eq_ok.2 ⟨k, hcontext, by simp⟩
  simp only [timesHandle, hzero, ok_bind]
  constructor
  · intro h
    -- the first product already compares the contexts
    have hfirst := h
    simp only [liveAll_cons, timesLinear, bind_eq_ok, Scalar.mul, Element.combine_eq_ok] at hfirst
    obtain ⟨_, ⟨k', c', a, hc, rfl, -⟩, -⟩ := hfirst
    obtain ⟨rfl, -⟩ := Element.live_inj.1 hc
    rw [timesLinear_liveAll] at h
    exact ⟨a, rfl, (Except.ok.inj h).symm⟩
  · rintro ⟨a, rfl, rfl⟩
    rw [timesLinear_liveAll]

/-- The coefficients of the product over the residues. -/
def rootCoefficients (as : List (ZMod r)) (cs : List (ZMod r)) : List (ZMod r) :=
  as.foldl (fun cs a => mulLinear a 0 cs) cs

theorem length_rootCoefficients (as cs : List (ZMod r)) :
    (rootCoefficients as cs).length = as.length + cs.length := by
  induction as generalizing cs with
  | nil => simp [rootCoefficients]
  | cons a as ih =>
      have hnext := ih (mulLinear a 0 cs)
      rw [length_mulLinear] at hnext
      rw [List.length_cons, rootCoefficients, List.foldl_cons]
      rw [rootCoefficients] at hnext
      rw [hnext]
      omega

theorem evalPowers_rootCoefficients (τ : ZMod r) (as cs : List (ZMod r)) :
    evalPowers τ (rootCoefficients as cs) = rootProduct τ as * evalPowers τ cs := by
  induction as generalizing cs with
  | nil => simp [rootCoefficients]
  | cons a as ih =>
      have hnext := ih (mulLinear a 0 cs)
      rw [evalPowers_mulLinear] at hnext
      rw [rootCoefficients, List.foldl_cons]
      rw [rootCoefficients] at hnext
      rw [hnext, rootProduct_cons]
      ring

theorem productCoefficients_eq_ok {context : PairingContext} {handles out : List (Scalar r)} :
    productCoefficients context handles = .ok out ↔ ∃ k as, context.state = some k ∧
      handles = liveAll k as ∧ out = liveAll k (rootCoefficients as [1]) := by
  -- from any coefficients of the context; they are never empty, since the product starts at one
  have hloop : ∀ (k : ℕ) (hs : List (Scalar r)) (c : ZMod r) (cs : List (ZMod r)),
      context.state = some k → (hs.foldlM (timesHandle context) (liveAll k (c :: cs)) = .ok out ↔
        ∃ as, hs = liveAll k as ∧ out = liveAll k (rootCoefficients as (c :: cs))) := by
    intro k hs c cs hcontext
    induction hs generalizing c cs with
    | nil =>
        constructor
        · intro h
          cases h
          exact ⟨[], rfl, rfl⟩
        · rintro ⟨as, has, rfl⟩
          obtain rfl : as = [] := by simpa [liveAll] using has.symm
          rfl
    | cons handle hs ih =>
        simp only [List.foldlM_cons, bind_eq_ok, timesHandle_eq_ok hcontext]
        constructor
        · rintro ⟨_, ⟨a, rfl, rfl⟩, h⟩
          obtain ⟨as, rfl, rfl⟩ := (ih _ _).1 h
          exact ⟨a :: as, rfl, rfl⟩
        · rintro ⟨as, has, rfl⟩
          cases as with
          | nil => simp at has
          | cons a as =>
              obtain ⟨rfl, rfl⟩ : handle = .live k a ∧ hs = liveAll k as := by simpa using has
              exact ⟨_, ⟨a, rfl, rfl⟩, (ih _ _).2 ⟨as, rfl, rfl⟩⟩
  simp only [productCoefficients, bind_eq_ok, scalar_eq_ok, Int.cast_one]
  constructor
  · rintro ⟨_, ⟨k, hcontext, rfl⟩, h⟩
    obtain ⟨as, hhandles, hout⟩ := (hloop k handles 1 [] hcontext).1 h
    exact ⟨k, as, hcontext, hhandles, hout⟩
  · rintro ⟨k, as, hcontext, hhandles, hout⟩
    exact ⟨.live k 1, ⟨k, hcontext, rfl⟩, (hloop k handles 1 [] hcontext).2 ⟨as, hhandles, hout⟩⟩

/-! ## Accepted parameters -/

/-- The elements `g ^ a`, `g ^ (a * τ)`, `g ^ (a * τ ^ 2)` and so on. -/
def powerList (k : ℕ) (g : G₁) (τ : ZMod r) : ℕ → ZMod r → List (Element G₁)
  | 0, _ => []
  | n + 1, a => .live k (residuePow g a) :: powerList k g τ n (a * τ)

omit [DecidableEq G₁] in
theorem getElem?_powerList (k : ℕ) (g : G₁) (τ : ZMod r) (n i : ℕ) (a : ZMod r) (hi : i < n) :
    (powerList k g τ n a)[i]? = some (.live k (residuePow g (a * τ ^ i))) := by
  induction n generalizing i a with
  | zero => omega
  | succ n ih =>
      cases i with
      | zero => simp [powerList]
      | succ i =>
          rw [powerList, List.getElem?_cons_succ, ih i (a * τ) (by omega), pow_succ']
          rw [mul_assoc]

variable [OrderEq r G₁] [OrderEq r G₂] [OrderEq r GT] [Fact r.Prime]

/-- Parameters with trapdoor `τ`: the tuple holds the powers of `τ`. -/
structure AccumulatorParameters.Trapdoor (p : AccumulatorParameters G₁ G₂) (k : ℕ) (g : G₁)
    (h : G₂) (τ : ZMod r) : Prop where
  generator : p.generator = .live k g
  pairingBase : p.pairingBase = .live k h
  hTau : p.hTau = .live k (residuePow h τ)
  sdh : p.sdh = powerList k g τ p.sdh.length 1
  nonempty : p.sdh ≠ []
  g_ne : g ≠ 1
  h_ne : h ≠ 1
  τ_ne : τ ≠ 0

theorem requireNonidentity_eq_ok {G : Type} [CommGroup G] [DecidableEq G] {x : Element G} {u : Unit} :
    requireNonidentity x = .ok u ↔ ∃ k g, x = .live k g ∧ g ≠ 1 := by
  simp only [requireNonidentity, bind_eq_ok, isIdentity, Element.test_eq_ok, throwIf_eq_ok]
  constructor
  · rintro ⟨_, ⟨k, g, rfl, rfl⟩, hg⟩
    exact ⟨k, g, rfl, by simpa using hg⟩
  · rintro ⟨k, g, rfl, hg⟩
    exact ⟨_, ⟨k, g, rfl, rfl⟩, by simpa using hg⟩

omit [DecidableEq G₁] [DecidableEq G₂] in
/-- The loop over neighbours makes the list a list of powers. -/
theorem checkPowers_eq_ok (e : BilinearPairing G₁ G₂ GT) {k : ℕ} {g : G₁} {h : G₂} {τ : ZMod r}
    (hg : g ≠ 1) (hh : h ≠ 1) {rest : List (Element G₁)} {a : ZMod r} {u : Unit}
    (hcheck : checkPowers e (.live k h) (.live k (residuePow h τ))
      (.live k (residuePow g a) :: rest) = .ok u) :
    .live k (residuePow g a) :: rest = powerList k g τ (rest.length + 1) a := by
  induction rest generalizing a with
  | nil => rfl
  | cons current rest ih =>
      simp only [checkPowers, bind_eq_ok, throwIf_eq_ok, pairElements, Element.combine_eq_ok,
        Element.equals_eq_ok] at hcheck
      obtain ⟨_, ⟨k₁, x, h₁, rfl, hbase, rfl⟩, _, ⟨k₂, y, h₂, hprevious, htau, rfl⟩, _,
        ⟨k₃, t, t', hleft, hright, rfl⟩, _, hsame, hcheck⟩ := hcheck
      obtain ⟨rfl, rfl⟩ := Element.live_inj.1 hbase
      obtain ⟨rfl, rfl⟩ := Element.live_inj.1 hprevious
      obtain ⟨-, rfl⟩ := Element.live_inj.1 htau
      obtain ⟨-, rfl⟩ := Element.live_inj.1 hleft
      obtain ⟨-, rfl⟩ := Element.live_inj.1 hright
      -- the pairing equation fixes the exponent of the next element
      obtain ⟨b, rfl⟩ := exists_residuePow (r := r) hg x
      have hequation : e.pair (residuePow g b) h = e.pair (residuePow g a) (residuePow h τ) := by
        simpa using hsame
      have hone : h = residuePow h (1 : ZMod r) := (residuePow_one h).symm
      rw [e.pair_residuePow] at hequation
      nth_rewrite 1 [hone] at hequation
      rw [e.pair_residuePow, residuePow_inj (e.pair_ne_one r hg hh), mul_one] at hequation
      subst hequation
      rw [List.length_cons, powerList, ← ih hcheck]

/-- The constructor accepts only the powers of a trapdoor. -/
theorem AccumulatorParameters.make_eq_ok (e : BilinearPairing G₁ G₂ GT) {context : PairingContext}
    {generator : Element G₁} {pairingBase : Element G₂} {sdh : List (Element G₁)}
    {hTau : Element G₂} {ownership : ℕ} {p : AccumulatorParameters G₁ G₂}
    (hp : AccumulatorParameters.make e context generator pairingBase sdh hTau ownership = .ok p) :
    p = ⟨context, generator, pairingBase, sdh, hTau, ownership⟩ ∧
      ∃ (k : ℕ) (g : G₁) (h : G₂) (τ : ZMod r), p.Trapdoor k g h τ := by
  cases sdh with
  | nil => simp [make] at hp
  | cons front rest =>
      simp only [make, bind_eq_ok, requireNonidentity_eq_ok, throwIf_eq_ok, pure_eq_ok,
        Element.equals_eq_ok, pairElements, Element.combine_eq_ok] at hp
      obtain ⟨_, ⟨k, g, rfl, hg⟩, _, ⟨k₁, h, rfl, hh⟩, _, ⟨k₂, hτ, rfl, hne⟩, _,
        ⟨k₃, x, y, rfl, hy, rfl⟩, _, hfront, _, -, _, ⟨k₄, _, _, hgen, hbase, -⟩, _,
        ⟨k₅, _, _, hgen', htau, -⟩, _, hcheck, rfl⟩ := hp
      refine ⟨rfl, ?_⟩
      -- the checks compare elements, so all of them are alive in one context
      obtain ⟨rfl, rfl⟩ := Element.live_inj.1 hy
      obtain ⟨rfl, -⟩ := Element.live_inj.1 hgen
      obtain ⟨rfl, -⟩ := Element.live_inj.1 hbase
      obtain ⟨rfl, -⟩ := Element.live_inj.1 hgen'
      obtain ⟨rfl, -⟩ := Element.live_inj.1 htau
      obtain rfl : x = g := by simpa using hfront
      -- the group has prime order, so the second pairing element is a power of the first
      obtain ⟨τ, rfl⟩ := exists_residuePow (r := r) hh hτ
      refine ⟨_, x, h, τ, rfl, rfl, rfl, ?_, by simp, hg, hh, ?_⟩
      · have hone : x = residuePow x (1 : ZMod r) := (residuePow_one x).symm
        nth_rewrite 1 [hone] at hcheck
        have hpowers := checkPowers_eq_ok e hg hh hcheck
        rwa [← hone] at hpowers
      · rintro rfl
        simp at hne

/-! ## The value of a set under a trapdoor -/

variable {k : ℕ} {g : G₁} {h : G₂} {τ : ZMod r}

omit [DecidableEq G₁] in
/-- Combining the published powers evaluates the polynomial at the trapdoor. -/
theorem foldlM_timesPower {n : ℕ} {cs : List (ZMod r)} (hcs : cs.length ≤ n) (a : ZMod r) (x : G₁) :
    ((powerList k g τ n a).zip (liveAll k cs)).foldlM timesPower (.live k x) =
      .ok (.live k (x * residuePow g (a * evalPowers τ cs))) := by
  induction cs generalizing n a x with
  | nil => simp [evalPowers, pure, Except.pure]
  | cons c cs ih =>
      cases n with
      | zero => simp at hcs
      | succ n =>
          rw [powerList, liveAll_cons, List.zip_cons_cons, List.foldlM_cons]
          simp only [timesPower, groupPow, groupMul, Element.combine_live, ok_bind]
          rw [ih (by simpa using hcs), evalPowers, ← residuePow_mul, mul_assoc, ← residuePow_add]
          congr 4
          ring

omit [DecidableEq G₁] [DecidableEq G₂] [OrderEq r G₁] [OrderEq r G₂] in
/-- Handles of another context than the tuple's do not get through. -/
theorem context_of_foldlM_timesPower {p : AccumulatorParameters G₁ G₂} (hp : p.Trapdoor k g h τ)
    {j : ℕ} {cs : List (ZMod r)} (hcs : cs ≠ []) {x : G₁} {v : Element G₁}
    (hfold : (p.sdh.zip (liveAll j cs)).foldlM timesPower (.live j x) = .ok v) : j = k := by
  obtain ⟨c, cs, rfl⟩ := List.exists_cons_of_ne_nil hcs
  rw [hp.sdh] at hfold
  obtain ⟨n, hn⟩ : ∃ n, p.sdh.length = n + 1 :=
    ⟨p.sdh.length - 1, by have := List.length_pos_iff.2 hp.nonempty; omega⟩
  rw [hn, powerList, liveAll_cons, List.zip_cons_cons, List.foldlM_cons] at hfold
  simp only [timesPower, groupPow, bind_eq_ok, Element.combine_eq_ok] at hfold
  obtain ⟨_, ⟨_, ⟨k', _, _, hg, hc, -⟩, -⟩, -⟩ := hfold
  exact (Element.live_inj.1 hc).1.trans (Element.live_inj.1 hg).1.symm

omit [DecidableEq G₂] [OrderEq r G₂] in
/-- `accumulate` succeeds exactly for handles of the tuple's context that fit and have
no factor zero, and gives the generator to the product of their shifts. -/
theorem accumulate_eq_ok {p : AccumulatorParameters G₁ G₂} (hp : p.Trapdoor k g h τ)
    {handles : List (Scalar r)} {v : Element G₁} :
    accumulate p handles = .ok v ↔ ∃ as, p.context.state = some k ∧ handles = liveAll k as ∧
      as.length ≤ p.maxMembers ∧ rootProduct τ as ≠ 0 ∧
      v = .live k (residuePow g (rootProduct τ as)) := by
  have hpos : 0 < p.sdh.length := List.length_pos_iff.2 hp.nonempty
  -- within the capacity there are enough published powers for all coefficients
  have hresult : ∀ as : List (ZMod r), as.length ≤ p.maxMembers →
      (p.sdh.zip (liveAll k (rootCoefficients as [1]))).foldlM timesPower (.live k 1) =
        .ok (.live k (residuePow g (rootProduct τ as))) := by
    intro as has
    have hlength : (rootCoefficients as [1]).length ≤ p.sdh.length := by
      rw [length_rootCoefficients]
      simp only [AccumulatorParameters.maxMembers] at has
      simp only [List.length_cons, List.length_nil]
      omega
    rw [hp.sdh, foldlM_timesPower hlength, one_mul, evalPowers_rootCoefficients]
    simp [evalPowers]
  simp only [accumulate, bind_eq_ok, throwIf_eq_ok, pure_eq_ok, not_lt,
    productCoefficients_eq_ok, identity_eq_ok, isIdentity, Element.test_eq_ok]
  constructor
  · rintro ⟨_, hfits, _, ⟨j, as, hcontext, rfl, rfl⟩, _, ⟨j', hcontext', rfl⟩, _, hfold, _,
      ⟨_, _, rfl, rfl⟩, _, hne, rfl⟩
    obtain rfl : j = j' := by simpa [hcontext] using hcontext'
    have hcs : rootCoefficients as [1] ≠ [] := by
      intro hnil
      have hlength := length_rootCoefficients as [1]
      simp [hnil] at hlength
    obtain rfl := context_of_foldlM_timesPower hp hcs hfold
    rw [length_liveAll] at hfits
    rw [hresult as hfits] at hfold
    obtain ⟨rfl, rfl⟩ := Element.live_inj.1 (Except.ok.inj hfold)
    refine ⟨as, hcontext, rfl, hfits, ?_, rfl⟩
    intro hzero
    simp [hzero] at hne
  · rintro ⟨as, hcontext, rfl, hfits, hne, rfl⟩
    refine ⟨⟨⟩, by simpa using hfits, _, ⟨k, as, hcontext, rfl, rfl⟩, _, ⟨k, hcontext, rfl⟩, _,
      hresult as hfits, _, ⟨k, _, rfl, rfl⟩, ⟨⟩, ?_, rfl⟩
    rw [decide_eq_true_eq, residuePow_eq_one hp.g_ne]
    exact hne

end Lktrs.Protocol
