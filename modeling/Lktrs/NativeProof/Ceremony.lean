import Lktrs.Foundation.Scan
import Lktrs.NativeProof.Setup
import Mathlib.Order.Bounds.Basic

/-!
# The contribution chain for the public powers

`ceremony.go`: participants add to a chain of contributions, each of which holds the powers
of a combined trapdoor over a domain that the capacity fixes. The protocol itself is the
library's; the code around it bounds the number and the size of the contributions, scans a
contribution before the library decodes it, and takes the powers it needs from the end of
the chain.

The bounds fit together (`ceremony_bounds_fit`): the domain is the least one that holds the
powers, the scan ends where the recorded challenge begins, honest chains pass every check,
and no limit stops a chain before its second contribution.
-/

set_option autoImplicit false

namespace Lktrs.NativeProof

open Lktrs.Foundation

def maxQSDHContributions : ℕ := 64
def maxQSDHTranscriptBytes : ℕ := 64 * 2 ^ 20

/-! ## The domain -/

/-- The loop of `ceremonyDomain`, for a bounded number of turns. -/
def doubleUntil (target : UInt64) : ℕ → UInt64 → UInt64
  | 0, n => n
  | turns + 1, n => if 2 * n - 1 < target then doubleUntil target turns (n * 2) else n

def ceremonyDomain (capacity : ℤ) : Except String UInt64 := do
  rejectIf (capacity < 1 ∨ capacity > 65536) "ceremony capacity must be in [1,65536]"
  return doubleUntil (UInt64.ofNat (capacity + 1).toNat) 64 2

/-- The sizes that a domain may have for a number of powers. -/
def domainSizes (powers : ℕ) : Set ℕ := {m | (∃ k, m = 2 ^ k) ∧ 2 ≤ m ∧ powers ≤ 2 * m - 1}

/-- One turn of the loop on a power of two below the target, which does not wrap. -/
theorem toNat_double (target : UInt64) {n : UInt64} {k : ℕ} (hn : n.toNat = 2 ^ k) (hk : k < 63)
    (hk' : 0 < k) :
    (2 * n - 1 < target ↔ 2 * 2 ^ k - 1 < target.toNat) ∧ (n * 2).toNat = 2 ^ (k + 1) := by
  have hpos : 0 < 2 ^ k := Nat.two_pow_pos k
  have hlt : 2 ^ k * 2 < 2 ^ 64 := by
    calc 2 ^ k * 2 = 2 ^ (k + 1) := (pow_succ 2 k).symm
      _ < 2 ^ 64 := Nat.pow_lt_pow_right (by decide) (by omega)
  have htwice : (2 * n).toNat = 2 * 2 ^ k := by
    rw [UInt64.toNat_mul, hn]
    exact Nat.mod_eq_of_lt (by rw [Nat.mul_comm]; exact hlt)
  have hsub : (2 * n - 1).toNat = 2 * 2 ^ k - 1 := by
    rw [UInt64.toNat_sub_of_le, htwice]
    · rfl
    · rw [UInt64.le_iff_toNat_le, htwice]
      show 1 ≤ _
      omega
  refine ⟨by rw [UInt64.lt_iff_toNat_lt, hsub], ?_⟩
  rw [UInt64.toNat_mul, hn, pow_succ]
  exact Nat.mod_eq_of_lt hlt

/-- A power of two that is large enough is the least size when the smaller ones are not. -/
theorem isLeast_domainSizes {powers k : ℕ} (hk : 0 < k) (hfits : powers ≤ 2 * 2 ^ k - 1)
    (hsmall : ∀ i, 0 < i → i < k → 2 * 2 ^ i - 1 < powers) :
    IsLeast (domainSizes powers) (2 ^ k) := by
  refine ⟨⟨⟨k, rfl⟩, Nat.le_self_pow hk.ne' 2, hfits⟩, ?_⟩
  rintro _ ⟨⟨i, rfl⟩, htwo, hi⟩
  apply Nat.pow_le_pow_right (by decide)
  by_contra hlt
  have hpos : 0 < i := by
    rcases Nat.eq_zero_or_pos i with rfl | hpos
    · exact absurd htwo (by decide)
    · exact hpos
  exact absurd hi (not_le.2 (hsmall i hpos (not_le.1 hlt)))

/-- The loop stops at the least size. The powers of two that it has left behind are too
small, and it cannot go past the sixteenth. -/
theorem doubleUntil_isLeast {target : UInt64} (htarget : target.toNat < 2 ^ 17) (turns : ℕ) {k : ℕ}
    {n : UInt64} (hn : n.toNat = 2 ^ k) (hk : 0 < k) (hturns : 16 ≤ k + turns) (hmax : k ≤ 16)
    (hsmall : ∀ i, 0 < i → i < k → 2 * 2 ^ i - 1 < target.toNat) :
    IsLeast (domainSizes target.toNat) (doubleUntil target turns n).toNat := by
  induction turns generalizing k n with
  | zero =>
      obtain rfl : k = 16 := by omega
      rw [doubleUntil, hn]
      exact isLeast_domainSizes hk (by omega) hsmall
  | succ turns ih =>
      obtain ⟨hcond, hnext⟩ := toNat_double target hn (by omega) hk
      rw [doubleUntil]
      split_ifs with hless
      · rw [hcond] at hless
        have hk16 : k ≠ 16 := by
          rintro rfl
          omega
        apply ih hnext k.succ_pos (by omega) (by omega)
        intro i hi hik
        rcases Nat.lt_succ_iff_lt_or_eq.1 hik with hik | rfl
        · exact hsmall i hi hik
        · exact hless
      · rw [hcond, not_lt] at hless
        rw [hn]
        exact isLeast_domainSizes hk hless hsmall

/-- The capacities of a ceremony have a domain, the least one with room for their powers. -/
theorem ceremonyDomain_of_range {capacity : ℤ} (hmin : 1 ≤ capacity) (hmax : capacity ≤ 65536) :
    ∃ n, ceremonyDomain capacity = .ok n ∧
      IsLeast (domainSizes (capacity + 1).toNat) n.toNat := by
  have htarget : (UInt64.ofNat (capacity + 1).toNat).toNat = (capacity + 1).toNat :=
    UInt64.toNat_ofNat_of_lt' (by show _ < 2 ^ 64; omega)
  have hbound : (UInt64.ofNat (capacity + 1).toNat).toNat < 2 ^ 17 := by
    rw [htarget]
    omega
  refine ⟨doubleUntil (UInt64.ofNat (capacity + 1).toNat) 64 2, ?_, ?_⟩
  · rw [ceremonyDomain, rejectIf_of_not (by omega)]
    rfl
  · have hleast := doubleUntil_isLeast hbound 64 (k := 1) (n := 2) rfl Nat.one_pos (by omega)
      (by omega) (by intro i hi hi'; omega)
    rwa [htarget] at hleast

/-- Other capacities have none. -/
theorem ceremonyDomain_eq_ok {capacity : ℤ} {n : UInt64} (h : ceremonyDomain capacity = .ok n) :
    (1 ≤ capacity ∧ capacity ≤ 65536) ∧ IsLeast (domainSizes (capacity + 1).toNat) n.toNat := by
  have hrange : 1 ≤ capacity ∧ capacity ≤ 65536 := by
    simp only [ceremonyDomain, bind_eq_ok, rejectIf_eq_ok] at h
    obtain ⟨_, hrange, -⟩ := h
    omega
  obtain ⟨n', hn', hleast⟩ := ceremonyDomain_of_range hrange.1 hrange.2
  rw [h] at hn'
  cases hn'
  exact ⟨hrange, hleast⟩

/-- Every domain is between the smallest and the one for the largest capacity. -/
theorem ceremonyDomain_bounds {capacity : ℤ} {n : UInt64} (h : ceremonyDomain capacity = .ok n) :
    2 ≤ n.toNat ∧ n.toNat ≤ 65536 ∧ (capacity + 1).toNat ≤ 2 * n.toNat - 1 := by
  obtain ⟨hrange, ⟨-, htwo, hfits⟩, hleast⟩ := ceremonyDomain_eq_ok h
  exact ⟨htwo, hleast ⟨⟨16, rfl⟩, by decide, by omega⟩, hfits⟩

/-! ## Contributions -/

/-- The powers at the end of a chain, as far as they are used. -/
structure SealedPowers where
  g1Tau : List Bn254G1
  g2Tau : List Bn254G2

/-- The library's protocol for one chain of contributions. -/
structure Phase1Library where
  Phase1 : Type
  Entropy : Type
  newPhase1 : UInt64 → Phase1
  /-- Add a contribution with fresh entropy. -/
  contribute : Phase1 → Entropy → Phase1
  writeTo : Phase1 → Except String (List UInt8)
  /-- Decode a state; the second component is what was left unread. -/
  readFrom : List UInt8 → Except String (Phase1 × List UInt8)
  /-- Check a state against the one before it. -/
  verify : Phase1 → Phase1 → Except String Unit
  /-- Apply the beacon. -/
  applyBeacon : Phase1 → List UInt8 → SealedPowers

section Scan

variable (raw : List UInt8)

/-- The local function `point`. -/
def contributionPoint (size : ℕ) : Scan String Unit := do
  let pos ← get
  Scan.check (pos + size > raw.length) "contribution requires compressed points"
  let first ← Scan.byteAt raw pos
  Scan.check (first &&& 0xc0 = 0) "contribution requires compressed points"
  set (pos + size)

/-- The comparison of the recorded domain with the expected one. -/
def contributionDomain (n : UInt64) : Scan String Unit := do
  let pos ← get
  let field ← Scan.slice raw pos (pos + 8)
  Scan.check (bigEndianValue field ≠ n.toNat) "contribution domain differs from trusted capacity"
  set (pos + 8)

/-- The scan up to the recorded challenge. -/
def contributionPoints (n : UInt64) : Scan String Unit := do
  Scan.loop (do contributionPoint raw 32; contributionPoint raw 64) 3
  contributionDomain raw n
  contributionPoint raw 64
  Scan.loop (contributionPoint raw 32) (2 * n - 2).toNat
  Scan.loop (contributionPoint raw 64) (n - 1).toNat
  Scan.loop (contributionPoint raw 32) (2 * n).toNat

/-- The check of the recorded challenge. -/
def contributionChallenge : Scan String Unit := do
  let pos ← get
  Scan.check (pos + 33 ≠ raw.length) "contribution must contain a complete predecessor challenge"
  let size ← Scan.byteAt raw pos
  Scan.check (size ≠ 32) "contribution must contain a complete predecessor challenge"

end Scan

/-! ### The layout of a contribution -/

/-- The points of a contribution over a domain of `n` and its record of the domain, with their
positions: three proofs, the domain, one point, and the powers. -/
structure ContributionMarks (n : ℕ) (raw : List UInt8) : Prop where
  proofs : ∀ i < 3, compressedAt raw (96 * i) = true ∧ compressedAt raw (96 * i + 32) = true
  domain : fieldValue raw 288 8 = n
  beta : compressedAt raw 296 = true
  tau : ∀ i < 2 * n - 2, compressedAt raw (360 + 32 * i) = true
  tau2 : ∀ i < n - 1, compressedAt raw (296 + 64 * n + 64 * i) = true
  alphaBeta : ∀ i < 2 * n, compressedAt raw (232 + 128 * n + 32 * i) = true

/-- The compressed layout of a contribution: the marked points and a challenge of 32 bytes
behind its length. -/
structure ContributionLayout (n : ℕ) (raw : List UInt8) : Prop extends ContributionMarks n raw where
  length : raw.length = 192 * n + 265
  challenge : raw.getD (192 * n + 232) 0 = 32

/-- The errors that the scan of the points may stop with. -/
def PointsError (e : String) : Prop :=
  e = "contribution requires compressed points" ∨
    e = "contribution domain differs from trusted capacity"

section Strides

variable (raw : List UInt8)

theorem strides_point {size : ℕ} (hsize : 0 < size) :
    Strides raw (contributionPoint raw size) size (fun pos => compressedAt raw pos = true)
      PointsError := by
  have hrun : ∀ {pos}, pos + size ≤ raw.length → (contributionPoint raw size).run pos =
      if compressedAt raw pos = true then .ok ((), pos + size)
      else .error (.error "contribution requires compressed points") := by
    intro pos hroom
    have hlt : pos < raw.length := by omega
    have hbyte : compressedAt raw pos = (raw[pos] &&& 0xc0 != 0) := by
      rw [compressedAt, List.getD_eq_getElem?_getD, List.getElem?_eq_getElem hlt, Option.getD_some]
    rw [contributionPoint, Scan.run_get_bind, Scan.run_check_bind, if_neg (by omega),
      Scan.run_bind_of_ok (Scan.run_byteAt_of_lt hlt pos), Scan.run_check_bind, hbyte]
    by_cases hzero : raw[pos] &&& 0xc0 = 0
    · rw [if_pos hzero, if_neg (by simp [hzero])]
    · rw [if_neg hzero, if_pos (by simp [hzero])]
      rfl
  refine ⟨?_, ?_⟩
  · intro pos hroom hmark
    rw [hrun hroom, if_pos hmark]
  · intro pos hroom hmark
    exact ⟨_, .inl rfl, by rw [hrun hroom, if_neg hmark]⟩

theorem strides_domain (n : UInt64) :
    Strides raw (contributionDomain raw n) 8 (fun pos => fieldValue raw pos 8 = n.toNat)
      PointsError := by
  have hrun : ∀ {pos}, pos + 8 ≤ raw.length → (contributionDomain raw n).run pos =
      if fieldValue raw pos 8 = n.toNat then .ok ((), pos + 8)
      else .error (.error "contribution domain differs from trusted capacity") := by
    intro pos hroom
    have hslice := Scan.run_slice_of_le (ε := String) (Nat.le_add_right pos 8) hroom pos
    rw [contributionDomain, Scan.run_get_bind, Scan.run_bind_of_ok hslice, Scan.run_check_bind,
      Nat.add_sub_cancel_left, fieldValue]
    by_cases hfield : bigEndianValue ((raw.drop pos).take 8) = n.toNat
    · rw [if_neg (not_not.2 hfield), if_pos hfield]
      rfl
    · rw [if_pos hfield, if_neg hfield]
  refine ⟨?_, ?_⟩
  · intro pos hroom hfield
    rw [hrun hroom, if_pos hfield]
  · intro pos hroom hfield
    exact ⟨_, .inr rfl, by rw [hrun hroom, if_neg hfield]⟩

/-- The loop bounds of the scan do not wrap for a domain that a byte string can hold. -/
theorem toNat_loopBounds {n : UInt64} (hn : 2 ≤ n.toNat) (hmax : n.toNat < 2 ^ 63) :
    (2 * n).toNat = 2 * n.toNat ∧ (2 * n - 2).toNat = 2 * n.toNat - 2 ∧
      (n - 1).toNat = n.toNat - 1 := by
  have htwice : (2 * n).toNat = 2 * n.toNat := by
    rw [UInt64.toNat_mul]
    exact Nat.mod_eq_of_lt (by show 2 * n.toNat < 2 ^ 64; omega)
  refine ⟨htwice, ?_, ?_⟩
  · rw [UInt64.toNat_sub_of_le, htwice]
    · rfl
    · rw [UInt64.le_iff_toNat_le, htwice]
      show 2 ≤ _
      omega
  · rw [UInt64.toNat_sub_of_le]
    · rfl
    · rw [UInt64.le_iff_toNat_le]
      show 1 ≤ _
      omega

/-- The conditions of the strides, from the start of a contribution, are its marks. -/
theorem contributionMarks_iff {n : ℕ} (hn : 2 ≤ n) :
    ContributionMarks n raw ↔
      (∀ i < 3, compressedAt raw (0 + i * (32 + 64)) = true ∧
        compressedAt raw (0 + i * (32 + 64) + 32) = true) ∧
      fieldValue raw (0 + 3 * (32 + 64)) 8 = n ∧
      compressedAt raw (0 + 3 * (32 + 64) + 8) = true ∧
      (∀ i < 2 * n - 2, compressedAt raw (0 + 3 * (32 + 64) + 8 + 64 + i * 32) = true) ∧
      (∀ i < n - 1, compressedAt raw
        (0 + 3 * (32 + 64) + 8 + 64 + (2 * n - 2) * 32 + i * 64) = true) ∧
      ∀ i < 2 * n, compressedAt raw
        (0 + 3 * (32 + 64) + 8 + 64 + (2 * n - 2) * 32 + (n - 1) * 64 + i * 32) = true := by
  have h1 : ∀ i, 0 + i * (32 + 64) = 96 * i := by omega
  have h2 : ∀ i, 0 + 3 * (32 + 64) + 8 + 64 + i * 32 = 360 + 32 * i := by omega
  have h3 : ∀ i, 0 + 3 * (32 + 64) + 8 + 64 + (2 * n - 2) * 32 + i * 64 =
    296 + 64 * n + 64 * i := by omega
  have h4 : ∀ i, 0 + 3 * (32 + 64) + 8 + 64 + (2 * n - 2) * 32 + (n - 1) * 64 + i * 32 =
    232 + 128 * n + 32 * i := by omega
  -- the later positions contain the earlier ones
  simp only [h4]
  simp only [h3]
  simp only [h1, h2]
  constructor
  · intro h
    exact ⟨h.proofs, h.domain, h.beta, h.tau, h.tau2, h.alphaBeta⟩
  · rintro ⟨hproofs, hdomain, hbeta, htau, htau2, halphaBeta⟩
    exact ⟨hproofs, hdomain, hbeta, htau, htau2, halphaBeta⟩

/-- The scan of a contribution of the right length stays inside of it, whatever the bytes are.
With its marks it ends where the challenge begins; without them a marker or the domain is
rejected. -/
theorem run_contributionPoints {n : UInt64} (hn : 2 ≤ n.toNat) (hint : raw.length < 2 ^ 63)
    (hlength : raw.length = 192 * n.toNat + 265) :
    (ContributionMarks n.toNat raw →
      (contributionPoints raw n).run 0 = .ok ((), raw.length - 33)) ∧
    (¬ ContributionMarks n.toNat raw →
      ∃ e, PointsError e ∧ (contributionPoints raw n).run 0 = .error (.error e)) := by
  obtain ⟨htwice, hless, hpred⟩ := toNat_loopBounds hn (by omega)
  have h32 := strides_point raw (by decide : 0 < 32)
  have h64 := strides_point raw (by decide : 0 < 64)
  have hscan := ((h32.bind h64).loop 3).bind ((strides_domain raw n).bind (h64.bind
    ((h32.loop (2 * n - 2).toNat).bind ((h64.loop (n - 1).toNat).bind (h32.loop (2 * n).toNat)))))
  rw [hless, hpred, htwice] at hscan
  have hend : 0 + (3 * (32 + 64) + (8 + (64 + ((2 * n.toNat - 2) * 32 + ((n.toNat - 1) * 64 +
      2 * n.toNat * 32))))) = raw.length - 33 := by omega
  rw [contributionMarks_iff raw hn]
  constructor
  · intro hmarks
    rw [← hend, contributionPoints, hless, hpred, htwice]
    exact hscan.run_of (by omega) hmarks
  · intro hmarks
    rw [contributionPoints, hless, hpred, htwice]
    exact hscan.run_of_not (by omega) hmarks

end Strides

section Chain

variable (ceremony : Phase1Library)

/-- The part of `decodeQSDHContribution` behind the scan. -/
def readContribution (raw : List UInt8) : Except String ceremony.Phase1 := do
  let (p, rest) ← ceremony.readFrom raw
  rejectIf (rest.length ≠ 0) "trailing contribution"
  let canonical ← ceremony.writeTo p
  rejectIf (raw ≠ canonical) "noncanonical contribution"
  return p

def decodeQSDHContribution (raw : List UInt8) (n : UInt64) :
    Except (Fault String) ceremony.Phase1 :=
  Scan.result do
    Scan.check (UInt64.ofNat raw.length ≠ 192 * n + 265) "invalid compressed contribution length"
    contributionPoints raw n
    contributionChallenge raw
    Scan.lift (readContribution ceremony raw)

/-- The text that a chain puts in front of the errors of a contribution. -/
def atContribution {α : Type} (i : ℕ) (x : Except (Fault String) α) : Except (Fault String) α :=
  x.mapError fun
    | .error e => .error (s!"contribution {i}: " ++ e)
    | .outOfRange => .outOfRange

/-- The loop of `checkedQSDHChain` from contribution `i` on. -/
def checkContributions (n : UInt64) :
    ℕ → ceremony.Phase1 → List (List UInt8) → Except (Fault String) ceremony.Phase1
  | _, previous, [] => .ok previous
  | i, previous, raw :: contributions => do
      let next ← atContribution i (decodeQSDHContribution ceremony raw n)
      atContribution i ((ceremony.verify previous next).mapError .error)
      checkContributions n (i + 1) next contributions

def checkedQSDHChain (capacity : ℤ) (contributions : List (List UInt8)) :
    Except (Fault String) (ceremony.Phase1 × UInt64) := do
  let n ← (ceremonyDomain capacity).mapError .error
  (rejectIf (contributions.length > maxQSDHContributions) "too many contributions").mapError .error
  (rejectIf ((contributions.map List.length).sum > maxQSDHTranscriptBytes)
    "oversized ceremony transcript").mapError .error
  let state ← checkContributions ceremony n 0 (ceremony.newPhase1 n) contributions
  return (state, n)

/-- `ContributeQSDH` with the entropy that the library draws. -/
def contributeQSDH (capacity : ℤ) (previous : List (List UInt8)) (entropy : ceremony.Entropy) :
    Except (Fault String) (List UInt8) := do
  (rejectIf (previous.length ≥ maxQSDHContributions) "contribution limit reached").mapError .error
  let n ← (ceremonyDomain capacity).mapError .error
  (rejectIf (UInt64.ofNat (previous.length + 1) * (192 * n + 265) >
    UInt64.ofNat maxQSDHTranscriptBytes)
    "next contribution would exceed transcript budget").mapError .error
  let (state, _) ← checkedQSDHChain ceremony capacity previous
  (ceremony.writeTo (ceremony.contribute state entropy)).mapError .error

structure QSDHCeremonyReceipt where
  format : String
  gnark : String
  gnarkCrypto : String
  capacity : ℤ
  domain : UInt64
  contributionSHA256 : List String
  beacon : String
  parametersSHA256 : String

variable {lib : GnarkCrypto} (codec : SetupCodec lib)

/-- The parameters from the end of a chain: the second power in the second group, and the
powers up to the capacity in the first. -/
def sealedParams (lib : GnarkCrypto) (capacity : ℤ) (commons : SealedPowers) :
    Except (Fault String) Params :=
  match commons.g2Tau[1]? with
  | none => .error .outOfRange
  | some hTau =>
      if (capacity + 1).toNat ≤ commons.g1Tau.length then
        .ok { g := lib.bn.generator, h := lib.bn2.generator, hTau,
              powers := commons.g1Tau.take (capacity + 1).toNat }
      else .error .outOfRange

def finalizeQSDHCeremony (capacity : ℤ) (contributions : List (List UInt8))
    (beacon : FixedBytes 32) : Except (Fault String) (Params × QSDHCeremonyReceipt) := do
  (rejectIf (contributions.length < 2 ∨ beacon = FixedBytes.zero 32)
    "need at least two contributions and an externally authenticated beacon").mapError .error
  let (state, n) ← checkedQSDHChain ceremony capacity contributions
  let params ← sealedParams lib capacity (ceremony.applyBeacon state beacon.toList)
  (validateParams lib params).mapError .error
  let raw ← (marshalParams codec params).mapError .error
  return (params, {
    format := "lktrs/qsdh-ceremony-receipt/v1"
    gnark := gnarkVersion
    gnarkCrypto := cryptoVersion
    capacity
    domain := n
    contributionSHA256 := contributions.map fun b => hexDigest (sha256 b)
    beacon := hexDigest beacon
    parametersSHA256 := hexDigest (sha256 raw) })

end Chain

/-! ### Decoding -/

section Decoding

variable (ceremony : Phase1Library) (raw : List UInt8)

/-- The expected length does not wrap for a domain that a byte string can hold. -/
theorem toNat_contributionLength {n : UInt64} (h : 192 * n.toNat + 265 < 2 ^ 64) :
    (192 * n + 265).toNat = 192 * n.toNat + 265 := by
  rw [UInt64.toNat_add, UInt64.toNat_mul]
  show (192 * n.toNat % 2 ^ 64 + 265) % 2 ^ 64 = _
  omega

theorem contributionLength_iff {n : UInt64} (hint : raw.length < 2 ^ 63)
    (h : 192 * n.toNat + 265 < 2 ^ 64) :
    UInt64.ofNat raw.length ≠ 192 * n + 265 ↔ raw.length ≠ 192 * n.toNat + 265 := by
  have hlength : (UInt64.ofNat raw.length).toNat = raw.length :=
    UInt64.toNat_ofNat_of_lt' (by show _ < 2 ^ 64; omega)
  rw [ne_eq, ne_eq, ← UInt64.toNat_inj, hlength, toNat_contributionLength h]

theorem run_contributionChallenge (h : 33 ≤ raw.length) :
    (contributionChallenge raw).run (raw.length - 33) =
      if raw.getD (raw.length - 33) 0 = 32 then .ok ((), raw.length - 33)
      else .error (.error "contribution must contain a complete predecessor challenge") := by
  have hlt : raw.length - 33 < raw.length := by omega
  have hbyte : raw.getD (raw.length - 33) 0 = raw[raw.length - 33] := by
    rw [List.getD_eq_getElem?_getD, List.getElem?_eq_getElem hlt, Option.getD_some]
  rw [contributionChallenge, Scan.run_get_bind, Scan.run_check_bind, if_neg (by omega),
    Scan.run_bind_of_ok (Scan.run_byteAt_of_lt hlt _), Scan.run_check, hbyte]
  by_cases hsize : raw[raw.length - 33] = 32
  · rw [if_neg (not_not.2 hsize), if_pos hsize]
  · rw [if_pos hsize, if_neg hsize]

/-- A contribution of the right length is handed to the library exactly when it has the
layout, and is rejected with an error otherwise. -/
theorem decodeQSDHContribution_eq {n : UInt64} (hn : 2 ≤ n.toNat) (hint : raw.length < 2 ^ 63)
    (hlength : raw.length = 192 * n.toNat + 265) :
    (ContributionLayout n.toNat raw → decodeQSDHContribution ceremony raw n =
      (readContribution ceremony raw).mapError .error) ∧
    (¬ ContributionLayout n.toNat raw →
      ∃ e, decodeQSDHContribution ceremony raw n = .error (.error e)) := by
  have hcheck := contributionLength_iff raw (n := n) hint (by omega)
  obtain ⟨hmarked, hunmarked⟩ := run_contributionPoints raw hn hint hlength
  have hchallenge := run_contributionChallenge raw (by omega)
  have hplace : raw.length - 33 = 192 * n.toNat + 232 := by omega
  rw [decodeQSDHContribution, Scan.result, Scan.run_check_bind,
    if_neg (by rw [hcheck, not_not]; exact hlength)]
  constructor
  · intro h
    rw [if_pos (by rw [hplace]; exact h.challenge)] at hchallenge
    rw [Scan.run_bind_of_ok (hmarked h.toContributionMarks), Scan.run_bind_of_ok hchallenge]
    cases readContribution ceremony raw with
    | error e => rfl
    | ok p => rfl
  · intro h
    by_cases hmarks : ContributionMarks n.toNat raw
    · -- the points are fine, so the challenge is not
      have hbad : ¬ raw.getD (raw.length - 33) 0 = 32 := by
        intro hgood
        exact h ⟨hmarks, hlength, by rwa [← hplace]⟩
      rw [if_neg hbad] at hchallenge
      rw [Scan.run_bind_of_ok (hmarked hmarks), Scan.run_bind_of_error hchallenge]
      exact ⟨_, rfl⟩
    · obtain ⟨e, -, hrun⟩ := hunmarked hmarks
      rw [Scan.run_bind_of_error hrun]
      exact ⟨e, rfl⟩

/-- No byte outside of a contribution is read. -/
theorem decodeQSDHContribution_ne_outOfRange {n : UInt64} (hn : 2 ≤ n.toNat)
    (hmax : 192 * n.toNat + 265 < 2 ^ 64) (hint : raw.length < 2 ^ 63) :
    decodeQSDHContribution ceremony raw n ≠ .error .outOfRange := by
  by_cases hlength : raw.length = 192 * n.toNat + 265
  · obtain ⟨hlayout, hother⟩ := decodeQSDHContribution_eq ceremony raw hn hint hlength
    by_cases h : ContributionLayout n.toNat raw
    · rw [hlayout h]
      exact mapError_ne_outOfRange _
    · obtain ⟨e, he⟩ := hother h
      simp [he]
  · rw [decodeQSDHContribution, Scan.result, Scan.run_check_bind,
      if_pos ((contributionLength_iff raw hint hmax).2 hlength)]
    intro h
    cases h

end Decoding

/-! ## Chains -/

theorem atContribution_eq_ok {α : Type} {i : ℕ} {x : Except (Fault String) α} {a : α} :
    atContribution i x = .ok a ↔ x = .ok a :=
  mapError_eq_ok

theorem atContribution_ne_outOfRange {α : Type} {i : ℕ} {x : Except (Fault String) α}
    (h : x ≠ .error .outOfRange) : atContribution i x ≠ .error .outOfRange := by
  intro hfault
  rcases x with ⟨_ | _⟩ | a
  · cases hfault
  · exact h rfl
  · cases hfault

section Checks

variable (ceremony : Phase1Library) (n : UInt64)

/-- The first contribution passes, and the rest is checked against it. -/
theorem checkContributions_cons_eq_ok {i : ℕ} {p q : ceremony.Phase1} {raw : List UInt8}
    {rest : List (List UInt8)} :
    checkContributions ceremony n i p (raw :: rest) = .ok q ↔
      ∃ next, decodeQSDHContribution ceremony raw n = .ok next ∧ ceremony.verify p next = .ok () ∧
        checkContributions ceremony n (i + 1) next rest = .ok q := by
  simp only [checkContributions, bind_eq_ok, atContribution_eq_ok, mapError_eq_ok]
  constructor
  · rintro ⟨next, hdecode, _, hverify, hrest⟩
    exact ⟨next, hdecode, hverify, hrest⟩
  · rintro ⟨next, hdecode, hverify, hrest⟩
    exact ⟨next, hdecode, (), hverify, hrest⟩

/-- A longer chain is checked from where the shorter one ended. -/
theorem checkContributions_append (i : ℕ) (p : ceremony.Phase1) (xs ys : List (List UInt8)) :
    checkContributions ceremony n i p (xs ++ ys) =
      checkContributions ceremony n i p xs >>= fun q =>
        checkContributions ceremony n (i + xs.length) q ys := by
  induction xs generalizing i p with
  | nil => rfl
  | cons x xs ih =>
      simp only [List.cons_append, checkContributions, bind_assoc, ih, List.length_cons,
        Nat.add_assoc, Nat.add_comm 1]

theorem checkContributions_ne_outOfRange (hn : 2 ≤ n.toNat) (hmax : 192 * n.toNat + 265 < 2 ^ 64)
    (i : ℕ) (p : ceremony.Phase1) {xs : List (List UInt8)} (hint : ∀ x ∈ xs, x.length < 2 ^ 63) :
    checkContributions ceremony n i p xs ≠ .error .outOfRange := by
  induction xs generalizing i p with
  | nil =>
      intro h
      cases h
  | cons x xs ih =>
      rw [List.forall_mem_cons] at hint
      have hdecode := decodeQSDHContribution_ne_outOfRange ceremony x hn hmax hint.1
      exact bind_ne_outOfRange (atContribution_ne_outOfRange hdecode) fun next _ =>
        bind_ne_outOfRange (atContribution_ne_outOfRange (mapError_ne_outOfRange _)) fun _ _ =>
          ih (i + 1) next hint.2

/-- The states at which a checked chain over the domain can end. -/
def Reached (p : ceremony.Phase1) : Prop :=
  ∃ chain, checkContributions ceremony n 0 (ceremony.newPhase1 n) chain = .ok p

/-- What is assumed of the library: it writes the compressed layout and reads it back, its
verification accepts an honest contribution to a checked chain, and the end of a chain has
as many powers as the domain says. -/
structure Phase1Library.Honest : Prop where
  writes : ∀ p, Reached ceremony n p → ∀ entropy,
    ∃ raw, ceremony.writeTo (ceremony.contribute p entropy) = .ok raw ∧
      ContributionLayout n.toNat raw
  accepts : ∀ p, Reached ceremony n p → ∀ entropy raw,
    ceremony.writeTo (ceremony.contribute p entropy) = .ok raw →
      ∃ q, ceremony.readFrom raw = .ok (q, []) ∧ ceremony.writeTo q = .ok raw ∧
        ceremony.verify p q = .ok ()
  powers : ∀ p, Reached ceremony n p → ∀ beacon,
    (ceremony.applyBeacon p beacon).g1Tau.length = 2 * n.toNat - 1 ∧
      (ceremony.applyBeacon p beacon).g2Tau.length = n.toNat

end Checks

section Honest

variable {ceremony : Phase1Library} {n : UInt64}

/-- An honest contribution is decoded to a state that the verification accepts. -/
theorem Phase1Library.Honest.decode (h : ceremony.Honest n) (hn : 2 ≤ n.toNat)
    (hmax : n.toNat ≤ 65536) {p : ceremony.Phase1} (hp : Reached ceremony n p)
    {entropy : ceremony.Entropy} {raw : List UInt8}
    (hraw : ceremony.writeTo (ceremony.contribute p entropy) = .ok raw) :
    raw.length = 192 * n.toNat + 265 ∧
      ∃ q, decodeQSDHContribution ceremony raw n = .ok q ∧ ceremony.verify p q = .ok () := by
  obtain ⟨raw', hraw', hlayout⟩ := h.writes p hp entropy
  obtain rfl := Except.ok.inj (hraw.symm.trans hraw')
  obtain ⟨q, hread, hwrite, hverify⟩ := h.accepts p hp entropy raw hraw
  have hlength := hlayout.length
  refine ⟨hlength, q, ?_, hverify⟩
  rw [(decodeQSDHContribution_eq ceremony raw hn (by omega) hlength).1 hlayout, mapError_eq_ok,
    readContribution, hread, ok_bind]
  dsimp only
  rw [rejectIf_of_not (by simp), ok_bind, hwrite, ok_bind, rejectIf_of_not (by simp)]
  rfl

/-- A chain passes when it respects the two limits and its contributions pass in turn. -/
theorem checkedQSDHChain_eq_ok {capacity : ℤ} {contributions : List (List UInt8)}
    {p : ceremony.Phase1} :
    checkedQSDHChain ceremony capacity contributions = .ok (p, n) ↔
      ceremonyDomain capacity = .ok n ∧ contributions.length ≤ maxQSDHContributions ∧
      (contributions.map List.length).sum ≤ maxQSDHTranscriptBytes ∧
      checkContributions ceremony n 0 (ceremony.newPhase1 n) contributions = .ok p := by
  simp only [checkedQSDHChain, bind_eq_ok, mapError_eq_ok, rejectIf_eq_ok, pure_eq_ok,
    Prod.mk.injEq, not_lt, gt_iff_lt]
  constructor
  · rintro ⟨_, hn, _, hcount, _, hsize, _, hcheck, rfl, rfl⟩
    exact ⟨hn, hcount, hsize, hcheck⟩
  · rintro ⟨hn, hcount, hsize, hcheck⟩
    exact ⟨n, hn, (), hcount, (), hsize, p, hcheck, rfl, rfl⟩

/-- The size of a transcript does not wrap while a contribution may still be added. -/
theorem budget_iff {count : ℕ} (hcount : count ≤ maxQSDHContributions) (hmax : n.toNat ≤ 65536) :
    UInt64.ofNat count * (192 * n + 265) > UInt64.ofNat maxQSDHTranscriptBytes ↔
      maxQSDHTranscriptBytes < count * (192 * n.toNat + 265) := by
  have hcount64 : count ≤ 64 := hcount
  have hproduct : count * (192 * n.toNat + 265) ≤ 64 * (192 * 65536 + 265) :=
    Nat.mul_le_mul hcount64 (by omega)
  have hfactor : (UInt64.ofNat count).toNat = count :=
    UInt64.toNat_ofNat_of_lt' (by show _ < 2 ^ 64; omega)
  rw [gt_iff_lt, UInt64.lt_iff_toNat_lt, UInt64.toNat_mul, hfactor,
    toNat_contributionLength (by omega), Nat.mod_eq_of_lt (by omega)]
  rfl

/-- What a successful contribution has checked. -/
theorem contributeQSDH_eq_ok {capacity : ℤ} {previous : List (List UInt8)}
    {entropy : ceremony.Entropy} {raw : List UInt8} (hn : ceremonyDomain capacity = .ok n) :
    contributeQSDH ceremony capacity previous entropy = .ok raw ↔
      previous.length < maxQSDHContributions ∧
      (previous.length + 1) * (192 * n.toNat + 265) ≤ maxQSDHTranscriptBytes ∧
      ∃ p, checkedQSDHChain ceremony capacity previous = .ok (p, n) ∧
        ceremony.writeTo (ceremony.contribute p entropy) = .ok raw := by
  obtain ⟨-, hmax, -⟩ := ceremonyDomain_bounds hn
  simp only [contributeQSDH, bind_eq_ok, mapError_eq_ok, rejectIf_eq_ok, ge_iff_le, not_le]
  constructor
  · rintro ⟨_, hcount, n', hn', _, hbudget, ⟨p, n''⟩, hcheck, hwrite⟩
    obtain rfl := Except.ok.inj (hn.symm.trans hn')
    obtain rfl : n'' = n := by
      have hdomain := (checkedQSDHChain_eq_ok.1 hcheck).1
      exact Except.ok.inj (hdomain.symm.trans hn)
    rw [budget_iff (Nat.succ_le_of_lt hcount) hmax, not_lt] at hbudget
    exact ⟨hcount, hbudget, p, hcheck, hwrite⟩
  · rintro ⟨hcount, hbudget, p, hcheck, hwrite⟩
    refine ⟨(), hcount, n, hn, (), ?_, (p, n), hcheck, hwrite⟩
    rw [budget_iff (Nat.succ_le_of_lt hcount) hmax, not_lt]
    exact hbudget

end Honest

section Built

variable (ceremony : Phase1Library) (capacity : ℤ)

/-- The chains that successive contributions build, each made from all that came before. -/
inductive Built : List (List UInt8) → Prop
  | nil : Built []
  | snoc {chain : List (List UInt8)} {entropy : ceremony.Entropy} {raw : List UInt8} :
      Built chain → contributeQSDH ceremony capacity chain entropy = .ok raw →
      Built (chain ++ [raw])

variable {ceremony capacity} {n : UInt64}

/-- A chain of honest contributions respects both limits, its contributions have one length, and
they pass in turn. -/
theorem Built.checked (h : ceremony.Honest n) (hn : ceremonyDomain capacity = .ok n)
    {chain : List (List UInt8)} (hchain : Built ceremony capacity chain) :
    (∀ raw ∈ chain, raw.length = 192 * n.toNat + 265) ∧
      ∃ p, checkedQSDHChain ceremony capacity chain = .ok (p, n) := by
  obtain ⟨htwo, hmax, -⟩ := ceremonyDomain_bounds hn
  induction hchain with
  | nil =>
      refine ⟨by simp, ceremony.newPhase1 n, checkedQSDHChain_eq_ok.2 ⟨hn, ?_, ?_, rfl⟩⟩
      · exact Nat.zero_le _
      · exact Nat.zero_le _
  | @snoc chain entropy raw _ hraw ih =>
      obtain ⟨hlengths, -⟩ := ih
      obtain ⟨hcount, hbudget, p, hcheck, hwrite⟩ := (contributeQSDH_eq_ok hn).1 hraw
      obtain ⟨-, -, -, hpassed⟩ := checkedQSDHChain_eq_ok.1 hcheck
      obtain ⟨hlength, q, hdecode, hverify⟩ := h.decode htwo hmax ⟨chain, hpassed⟩ hwrite
      have hall : ∀ x ∈ chain ++ [raw], x.length = 192 * n.toNat + 265 := by
        intro x hx
        rcases List.mem_append.1 hx with hx | hx
        · exact hlengths x hx
        · rw [List.mem_singleton.1 hx]
          exact hlength
      refine ⟨hall, q, checkedQSDHChain_eq_ok.2 ⟨hn, ?_, ?_, ?_⟩⟩
      · rw [List.length_append]
        exact hcount
      · -- the size is the number of contributions times their length
        have hsum : ((chain ++ [raw]).map List.length).sum =
            (chain ++ [raw]).length * (192 * n.toNat + 265) := by
          rw [List.sum_eq_card_nsmul _ (192 * n.toNat + 265), List.length_map, smul_eq_mul]
          intro m hm
          obtain ⟨x, hx, rfl⟩ := List.mem_map.1 hm
          exact hall x hx
        rw [hsum, List.length_append]
        exact hbudget
      · rw [checkContributions_append, hpassed, ok_bind]
        exact (checkContributions_cons_eq_ok ceremony n).2 ⟨q, hdecode, hverify, rfl⟩

/-- No limit stops a chain before its second contribution. -/
theorem Built.extends (h : ceremony.Honest n) (hn : ceremonyDomain capacity = .ok n)
    {chain : List (List UInt8)} (hchain : Built ceremony capacity chain) (hshort : chain.length < 2)
    (entropy : ceremony.Entropy) : ∃ raw, contributeQSDH ceremony capacity chain entropy = .ok raw := by
  obtain ⟨-, hmax, -⟩ := ceremonyDomain_bounds hn
  obtain ⟨-, p, hcheck⟩ := hchain.checked h hn
  obtain ⟨-, -, -, hpassed⟩ := checkedQSDHChain_eq_ok.1 hcheck
  obtain ⟨raw, hraw, -⟩ := h.writes p ⟨chain, hpassed⟩ entropy
  refine ⟨raw, (contributeQSDH_eq_ok hn).2 ⟨hshort.trans (by decide), ?_, p, hcheck, hraw⟩⟩
  calc (chain.length + 1) * (192 * n.toNat + 265) ≤ 2 * (192 * 65536 + 265) :=
        Nat.mul_le_mul (by omega) (by omega)
    _ ≤ maxQSDHTranscriptBytes := by decide

end Built

/-! ## The end of a ceremony -/

section Final

variable {ceremony : Phase1Library} {capacity : ℤ} {n : UInt64}

/-- Within the budget, the check of a chain reads no byte outside of a contribution. -/
theorem checkedQSDHChain_ne_outOfRange (contributions : List (List UInt8)) :
    checkedQSDHChain ceremony capacity contributions ≠ .error .outOfRange := by
  apply bind_ne_outOfRange (mapError_ne_outOfRange _)
  intro n hn
  obtain ⟨htwo, hmax, -⟩ := ceremonyDomain_bounds (mapError_eq_ok.1 hn)
  apply bind_ne_outOfRange (mapError_ne_outOfRange _)
  intro _ _
  apply bind_ne_outOfRange (mapError_ne_outOfRange _)
  intro _ hsize
  rw [mapError_eq_ok, rejectIf_eq_ok, not_lt] at hsize
  have hint : ∀ raw ∈ contributions, raw.length < 2 ^ 63 := by
    intro raw hraw
    have hle := List.single_le_sum (by simp) _ (List.mem_map_of_mem (f := List.length) hraw)
    have hbudget : maxQSDHTranscriptBytes < 2 ^ 63 := by decide
    omega
  apply bind_ne_outOfRange (checkContributions_ne_outOfRange ceremony n htwo (by omega) 0 _ hint)
  intro p _ h
  cases h

/-- The powers that the parameters are made from exist. -/
theorem sealedParams_ok (lib : GnarkCrypto) (h : ceremony.Honest n)
    (hn : ceremonyDomain capacity = .ok n) {p : ceremony.Phase1} (hp : Reached ceremony n p)
    (beacon : List UInt8) :
    ∃ params, sealedParams lib capacity (ceremony.applyBeacon p beacon) = .ok params ∧
      params.powers.length = (capacity + 1).toNat := by
  obtain ⟨htwo, -, hfits⟩ := ceremonyDomain_bounds hn
  obtain ⟨hg1, hg2⟩ := h.powers p hp beacon
  have hlt : 1 < (ceremony.applyBeacon p beacon).g2Tau.length := by omega
  have hle : (capacity + 1).toNat ≤ (ceremony.applyBeacon p beacon).g1Tau.length := by omega
  rw [sealedParams, List.getElem?_eq_getElem hlt]
  dsimp only
  rw [if_pos hle]
  refine ⟨_, rfl, ?_⟩
  rw [List.length_take, Nat.min_eq_left hle]

theorem finalizeQSDHCeremony_ne_outOfRange {lib : GnarkCrypto} (codec : SetupCodec lib)
    (h : ceremony.Honest n) (hn : ceremonyDomain capacity = .ok n)
    (contributions : List (List UInt8)) (beacon : FixedBytes 32) :
    finalizeQSDHCeremony ceremony codec capacity contributions beacon ≠ .error .outOfRange := by
  apply bind_ne_outOfRange (mapError_ne_outOfRange _)
  intro _ _
  apply bind_ne_outOfRange (checkedQSDHChain_ne_outOfRange _)
  rintro ⟨p, n'⟩ hcheck
  obtain ⟨hn', -, -, hpassed⟩ := checkedQSDHChain_eq_ok.1 hcheck
  obtain rfl := Except.ok.inj (hn.symm.trans hn')
  obtain ⟨params, hparams, -⟩ := sealedParams_ok lib h hn ⟨contributions, hpassed⟩ beacon.toList
  dsimp only
  rw [hparams, ok_bind]
  apply bind_ne_outOfRange (mapError_ne_outOfRange _)
  intro _ _
  apply bind_ne_outOfRange (mapError_ne_outOfRange _)
  intro raw _ hfault
  cases hfault

end Final

/-! ## A sample library -/

/-- A contribution with every point at infinity and a challenge of zeros. -/
def sampleContribution (n : ℕ) : List UInt8 :=
  List.replicate 288 0xc0 ++ (bigEndian 8 n ++ (List.replicate (192 * n - 64) 0xc0 ++
    32 :: List.replicate 32 0))

/-- A protocol whose states are the sizes of their domains, with powers at infinity. -/
def sampleCeremony : Phase1Library where
  Phase1 := UInt64
  Entropy := Unit
  newPhase1 n := n
  contribute p _ := p
  writeTo p := .ok (sampleContribution p.toNat)
  readFrom raw := .ok (UInt64.ofNat (fieldValue raw 288 8), [])
  verify p q := rejectIf (p ≠ q) "different domains"
  applyBeacon p _ := ⟨List.replicate (2 * p.toNat - 1) Affine.infinity,
    List.replicate p.toNat Bn254G2.infinity⟩

section Sample

variable {n : ℕ}

theorem fieldValue_sampleContribution (hn : n < 2 ^ 64) :
    fieldValue (sampleContribution n) 288 8 = n := by
  rw [fieldValue, sampleContribution, List.drop_left' List.length_replicate,
    List.take_left' (length_bigEndian 8 n)]
  exact bigEndianValue_bigEndian_of_lt hn

/-- The points before the record of the domain are compressed, -/
theorem compressedAt_sampleContribution_head {i : ℕ} (hi : i < 288) :
    compressedAt (sampleContribution n) i = true := by
  rw [compressedAt, sampleContribution, List.getD_eq_getElem?_getD,
    List.getElem?_append_left (by rw [List.length_replicate]; exact hi), List.getElem?_replicate,
    if_pos hi]
  rfl

/-- and so are those behind it. -/
theorem compressedAt_sampleContribution_tail {i : ℕ} (hi : 296 ≤ i) (hlt : i < 192 * n + 232) :
    compressedAt (sampleContribution n) i = true := by
  rw [compressedAt, sampleContribution, List.getD_eq_getElem?_getD,
    List.getElem?_append_right (by rw [List.length_replicate]; omega),
    List.getElem?_append_right (by rw [List.length_replicate, length_bigEndian]; omega),
    List.getElem?_append_left (by
      rw [List.length_replicate, List.length_replicate, length_bigEndian]; omega),
    List.getElem?_replicate,
    if_pos (by rw [List.length_replicate, length_bigEndian]; omega)]
  rfl

theorem sampleContribution_layout (hn : 2 ≤ n) (hmax : n < 2 ^ 64) :
    ContributionLayout n (sampleContribution n) where
  proofs := by
    intro i hi
    exact ⟨compressedAt_sampleContribution_head (by omega),
      compressedAt_sampleContribution_head (by omega)⟩
  domain := fieldValue_sampleContribution hmax
  beta := compressedAt_sampleContribution_tail (by omega) (by omega)
  tau := by
    intro i hi
    exact compressedAt_sampleContribution_tail (by omega) (by omega)
  tau2 := by
    intro i hi
    exact compressedAt_sampleContribution_tail (by omega) (by omega)
  alphaBeta := by
    intro i hi
    exact compressedAt_sampleContribution_tail (by omega) (by omega)
  length := by
    simp only [sampleContribution, List.length_append, List.length_replicate, length_bigEndian,
      List.length_cons]
    omega
  challenge := by
    have hplace : 192 * n + 232 - 288 - 8 - (192 * n - 64) = 0 := by omega
    rw [sampleContribution, List.getD_eq_getElem?_getD,
      List.getElem?_append_right (by rw [List.length_replicate]; omega),
      List.getElem?_append_right (by rw [List.length_replicate, length_bigEndian]; omega),
      List.getElem?_append_right (by
        rw [List.length_replicate, List.length_replicate, length_bigEndian]; omega),
      List.length_replicate, List.length_replicate, length_bigEndian, hplace]
    rfl

theorem sampleCeremony_verify {p q : UInt64} (h : sampleCeremony.verify p q = .ok ()) : p = q := by
  change rejectIf (p ≠ q) "different domains" = .ok () at h
  exact not_not.1 (rejectIf_eq_ok.1 h)

/-- A chain of the sample protocol stays at the state it started from. -/
theorem sampleCeremony_reached {n p : UInt64} (h : Reached sampleCeremony n p) : p = n := by
  obtain ⟨chain, hchain⟩ := h
  have hstay : ∀ i (q : sampleCeremony.Phase1),
      checkContributions sampleCeremony n i q chain = .ok p → p = q := by
    clear hchain
    induction chain with
    | nil =>
        intro i q hq
        exact (Except.ok.inj hq).symm
    | cons raw chain ih =>
        intro i q hq
        obtain ⟨next, -, hverify, hrest⟩ := (checkContributions_cons_eq_ok _ _).1 hq
        rw [ih _ _ hrest, sampleCeremony_verify hverify]
  exact hstay 0 _ hchain

theorem sampleCeremony_honest {n : UInt64} (hn : 2 ≤ n.toNat) : sampleCeremony.Honest n where
  writes := by
    intro p hp entropy
    rw [sampleCeremony_reached hp]
    exact ⟨_, rfl, sampleContribution_layout hn n.toNat_lt⟩
  accepts := by
    intro p hp entropy raw hraw
    rw [sampleCeremony_reached hp] at hraw ⊢
    obtain rfl : sampleContribution n.toNat = raw := Except.ok.inj hraw
    have hread : UInt64.ofNat (fieldValue (sampleContribution n.toNat) 288 8) = n := by
      rw [fieldValue_sampleContribution n.toNat_lt, UInt64.ofNat_toNat]
    refine ⟨n, ?_, rfl, rejectIf_of_not (not_not.2 rfl)⟩
    exact congrArg (fun q => Except.ok (q, [])) hread
  powers := by
    intro p hp beacon
    rw [sampleCeremony_reached hp]
    exact ⟨List.length_replicate, List.length_replicate⟩

end Sample

/-! ## The bounds together -/

/-- The bounds of a ceremony fit together. For every capacity the domain is the least power of
two with room for the powers, which then exist at the end of every chain; chains of honest
contributions pass, and no limit stops them before the second. The scan of a contribution of
the right length ends 33 bytes before its end unless it rejects a marker or the domain. -/
theorem ceremony_bounds_fit (ceremony : Phase1Library) {lib : GnarkCrypto} (codec : SetupCodec lib)
    (h : ∀ capacity n, ceremonyDomain capacity = .ok n → ceremony.Honest n) :
    (∀ capacity : ℤ, 1 ≤ capacity → capacity ≤ 65536 → ∃ n, ceremonyDomain capacity = .ok n ∧
      IsLeast (domainSizes (capacity + 1).toNat) n.toNat ∧
      (∀ p, Reached ceremony n p → ∀ beacon, ∃ params,
        sealedParams lib capacity (ceremony.applyBeacon p beacon) = .ok params ∧
          params.powers.length = (capacity + 1).toNat) ∧
      (∀ contributions beacon,
        finalizeQSDHCeremony ceremony codec capacity contributions beacon ≠ .error .outOfRange) ∧
      ∀ chain, Built ceremony capacity chain →
        (∃ p, checkedQSDHChain ceremony capacity chain = .ok (p, n)) ∧
        (chain.length < 2 → ∀ entropy,
          ∃ raw, contributeQSDH ceremony capacity chain entropy = .ok raw)) ∧
    ∀ (n : UInt64) (raw : List UInt8), 2 ≤ n.toNat → raw.length < 2 ^ 63 →
      raw.length = 192 * n.toNat + 265 →
      (ContributionMarks n.toNat raw →
        (contributionPoints raw n).run 0 = .ok ((), raw.length - 33)) ∧
      (¬ ContributionMarks n.toNat raw →
        ∃ e, PointsError e ∧ (contributionPoints raw n).run 0 = .error (.error e)) := by
  refine ⟨?_, fun n raw hn hint hlength => run_contributionPoints raw hn hint hlength⟩
  intro capacity hmin hmax
  obtain ⟨n, hn, hleast⟩ := ceremonyDomain_of_range hmin hmax
  have hhonest := h capacity n hn
  refine ⟨n, hn, hleast, ?_, ?_, ?_⟩
  · intro p hp beacon
    exact sealedParams_ok lib hhonest hn hp beacon
  · intro contributions beacon
    exact finalizeQSDHCeremony_ne_outOfRange codec hhonest hn contributions beacon
  · intro chain hchain
    exact ⟨(hchain.checked hhonest hn).2, hchain.extends hhonest hn⟩

theorem ceremony_bounds_fit_sample :
    (∀ capacity n, ceremonyDomain capacity = .ok n → sampleCeremony.Honest n) ∧
    (∃ n, ceremonyDomain 4 = .ok n ∧ ∃ raw, contributeQSDH sampleCeremony 4 [] () = .ok raw) ∧
    (contributionPoints (sampleContribution 4) 4).run 0 =
      .ok ((), (sampleContribution 4).length - 33) := by
  have hhonest : ∀ capacity n, ceremonyDomain capacity = .ok n → sampleCeremony.Honest n := by
    intro capacity n hn
    exact sampleCeremony_honest (ceremonyDomain_bounds hn).1
  obtain ⟨hcapacity, hscan⟩ := ceremony_bounds_fit sampleCeremony sampleCodec hhonest
  have hlayout := sampleContribution_layout (n := 4) (by decide) (by decide)
  have hlength := hlayout.length
  refine ⟨hhonest, ?_, (hscan 4 _ (by decide) (by omega) hlength).1 hlayout.toContributionMarks⟩
  obtain ⟨n, hn, -, -, -, hbuilt⟩ := hcapacity 4 (by decide) (by decide)
  exact ⟨n, hn, (hbuilt [] .nil).2 (by decide) ()⟩

end Lktrs.NativeProof
