import Lktrs.NativeProof.Accumulator
import Lktrs.NativeProof.Trust

/-!
# Enrollments as proofs of possession

An enrollment carries the two points of an account, its public exponent and a
Schnorr proof that its maker knows the logarithm of the second point to the base
of the first. `Enrolled` is what an accepted one has been checked for. Proofs made
by the holder of the secret are accepted whatever the nonce
(`verifyEnrollment_createEnrollment`), and two accepted proofs with one
commitment but different challenges give up the secret
(`enrollment_proofs_exact`).
-/

set_option autoImplicit false

namespace Lktrs.NativeProof

open Lktrs.Foundation

variable {lib : GnarkCrypto}

/-- A point is read from the lowercase hexadecimal text of its coordinates. -/
theorem trustPoint_eq_ok {encoded : String} {p : Secp256k1G1} :
    trustPoint lib encoded = .ok p ↔
      encoded = hexEncode (encodeSecpPoint p) ∧ goodSecp lib p = true := by
  have hparts : trustPoint lib encoded = (do
      rejectIf (encoded.utf8ByteSize ≠ 128) "invalid enrollment point length"
      decodePointHex lib "noncanonical enrollment point" encoded) := rfl
  rw [hparts, bind_eq_ok]
  constructor
  · rintro ⟨_, _, hpoint⟩
    exact (decodePointHex_eq_ok lib).1 hpoint
  · rintro ⟨rfl, hgood⟩
    refine ⟨(), ?_, (decodePointHex_eq_ok lib).2 ⟨rfl, hgood⟩⟩
    rw [utf8ByteSize_hexEncode, length_encodeSecpPoint, rejectIf_of_not (by decide)]

/-- The registration an enrollment stands for: its points, exponent and user are those of the
texts, and the Schnorr equation holds for the challenge of its own labels. -/
structure Enrolled (lib : GnarkCrypto) (namespaceID : String) (pin : FixedBytes 32)
    (key : List UInt8) (e : Enrollment) (reg : Registration) : Prop where
  user_eq : reg.userID = e.userID
  u_eq : e.u = hexEncode (encodeSecpPoint reg.account.u)
  y_eq : e.y = hexEncode (encodeSecpPoint reg.account.y)
  d_eq : ∃ d, trustScalar e.d true = .ok d ∧ reg.account.d = some d
  account_valid : validateAccount lib reg.account = .ok ()
  possession : ∃ r z c, trustPoint lib e.commitment = .ok r ∧
    trustScalar e.response false = .ok z ∧ enrollmentChallenge e namespaceID pin key = .ok c ∧
    lib.secp.scalarMultiplication reg.account.u z =
      lib.secp.add r (lib.secp.scalarMultiplication reg.account.y c)

theorem verifyEnrollment_sound {e : Enrollment} {namespaceID : String} {pin : FixedBytes 32}
    {key : List UInt8} {expected : FixedBytes 32} {reg : Registration}
    (h : verifyEnrollment lib e namespaceID pin key expected = .ok reg) :
    Enrolled lib namespaceID pin key e reg := by
  simp only [verifyEnrollment, bind_eq_ok, rejectIf_eq_ok, pure_eq_ok] at h
  obtain ⟨_, _, u, hu, y, hy, d, hd, _, hvalid, r, hr, z, hz, c, hc, _, hproof, rfl⟩ := h
  obtain ⟨hu, _⟩ := trustPoint_eq_ok.1 hu
  obtain ⟨hy, _⟩ := trustPoint_eq_ok.1 hy
  refine ⟨rfl, hu, hy, ⟨d, hd, rfl⟩, hvalid, r, z, c, hr, hz, hc, ?_⟩
  simpa [schnorrHolds] using hproof

/-- An enrollment made by the holder of an account's secret is accepted under the labels it was
made for. -/
theorem verifyEnrollment_createEnrollment {x : Option ℤ} {a : Account}
    {user account namespaceID : String} {pin : FixedBytes 32} {key : List UInt8}
    {challenge : FixedBytes 32} {draw : Except String ℕ} {e : Enrollment}
    (h : createEnrollment lib x a user account namespaceID pin key challenge draw = .ok e) :
    e.accountID = account ∧ e.challenge = hexDigest challenge ∧
      verifyEnrollment lib e namespaceID pin key challenge = .ok ⟨user, a⟩ := by
  simp only [createEnrollment, bind_eq_ok, rejectIf_eq_ok, pure_eq_ok, not_or, not_not,
    Bool.not_eq_false] at h
  obtain ⟨_, ⟨hx, hvalid, hd, huser, haccount, hnamespace, hpin, hkey, hchallenge⟩, _, howner, r, hr,
    c, hc, rfl⟩ := h
  obtain ⟨_, hvalid⟩ := exists_ok_of_isOk hvalid
  obtain ⟨hu, hy, hmeta⟩ := (validateAccount_eq_ok lib).1 hvalid
  obtain ⟨d, hd⟩ := Option.ne_none_iff_exists'.1 hd
  obtain ⟨hdcanonical, _⟩ := hmeta d hd
  obtain ⟨hdpos, hdlt⟩ := canonicalNonzero_some.1 hdcanonical
  obtain ⟨υ, hυ, hexp⟩ := (goodSecp_iff lib).1 hu
  have hr0 := cast_ne_zero_of_canonicalNonzero (randomNonzero_canonical (by decide) hr)
  have hcommit : goodSecp lib (lib.secp.scalarMultiplication a.u r) = true := by
    rw [hexp, lib.secp.scalarMultiplication_exp]
    exact (goodSecp_exp lib).2 (mul_ne_zero hr0 hυ)
  have hz := Int.emod_nonneg (c * x.getD 0 + r) (b := (secp256k1Fr : ℤ)) (by decide)
  have hzlt := Int.emod_lt_of_pos (c * x.getD 0 + r) (b := (secp256k1Fr : ℤ)) (by decide)
  -- both sides of the Schnorr equation are multiples of the account's first point
  have hproof : schnorrHolds lib a.u a.y (lib.secp.scalarMultiplication a.u r) c
      ((c * x.getD 0 + r) % secp256k1Fr) = true := by
    rw [schnorrHolds, decide_eq_true_eq, ← howner, hexp]
    simp only [lib.secp.scalarMultiplication_exp, lib.secp.add_exp, lib.secp.exp_inj, intCast_emod]
    push_cast
    ring
  refine ⟨rfl, rfl, ?_⟩
  simp only [verifyEnrollment, bind_eq_ok, rejectIf_eq_ok, pure_eq_ok, not_or, not_not,
    Bool.not_eq_false, hd, Option.getD_some]
  refine ⟨(), ⟨huser, haccount, hnamespace, hkey, hpin, hchallenge, trivial⟩, a.u,
    trustPoint_eq_ok.2 ⟨rfl, hu⟩, a.y, trustPoint_eq_ok.2 ⟨rfl, hy⟩, d,
    trustScalar_eq_ok.2 ⟨rfl, hdpos.le, hdlt, fun _ => hdpos.ne'⟩, (), ?_, _,
    trustPoint_eq_ok.2 ⟨rfl, hcommit⟩, _,
    trustScalar_eq_ok.2 ⟨rfl, hz, hzlt, fun h => absurd h Bool.false_ne_true⟩, c, ?_, (),
    hproof, ?_⟩
  · rw [← hd]
    exact hvalid
  · rw [← hc, hd]
    rfl
  · rw [← hd]

/-- The challenge of an enrollment is a canonical scalar. -/
theorem enrollmentChallenge_canonical {e : Enrollment} {namespaceID : String} {pin : FixedBytes 32}
    {key : List UInt8} {c : ℤ} (h : enrollmentChallenge e namespaceID pin key = .ok c) :
    0 ≤ c ∧ c < secp256k1Fr := by
  obtain ⟨hpos, hlt⟩ := canonicalNonzero_some.1 (hashScalar_canonical h)
  exact ⟨hpos.le, hlt⟩

/-- **Enrollment proofs are complete and specially sound.** Whatever `CreateEnrollment` returns is
accepted by `VerifyEnrollment` under the same labels as that user and account, for every nonce; a
response of zero is read like any other. Two accepted enrollments with the same points and the same
commitment whose challenges differ give up a nonzero secret of the account,
`(z₁ - z₂) / (c₁ - c₂)`, whatever their labels, namespaces, pins and keys. -/
theorem enrollment_proofs_exact (lib : GnarkCrypto) :
    (∀ x a user account namespaceID pin key challenge draw e,
      createEnrollment lib x a user account namespaceID pin key challenge draw = .ok e →
        verifyEnrollment lib e namespaceID pin key challenge = .ok ⟨user, a⟩) ∧
    ∀ e₁ namespace₁ pin₁ key₁ expected₁ reg₁ e₂ namespace₂ pin₂ key₂ expected₂ reg₂,
      verifyEnrollment lib e₁ namespace₁ pin₁ key₁ expected₁ = .ok reg₁ →
      verifyEnrollment lib e₂ namespace₂ pin₂ key₂ expected₂ = .ok reg₂ →
      e₁.u = e₂.u → e₁.y = e₂.y → e₁.commitment = e₂.commitment →
      ∀ c₁ c₂, enrollmentChallenge e₁ namespace₁ pin₁ key₁ = .ok c₁ →
        enrollmentChallenge e₂ namespace₂ pin₂ key₂ = .ok c₂ → c₁ ≠ c₂ →
        ∃ z₁ z₂, trustScalar e₁.response false = .ok z₁ ∧ trustScalar e₂.response false = .ok z₂ ∧
          ((z₁ - z₂) / (c₁ - c₂) : ZMod secp256k1Fr) ≠ 0 ∧
          reg₁.account.y = lib.secp.scalarMultiplication reg₁.account.u
            ((z₁ - z₂) / (c₁ - c₂) : ZMod secp256k1Fr).val ∧
          reg₂.account.u = reg₁.account.u ∧ reg₂.account.y = reg₁.account.y := by
  refine ⟨?_, ?_⟩
  · intro x a user account namespaceID pin key challenge draw e h
    exact (verifyEnrollment_createEnrollment h).2.2
  · intro e₁ namespace₁ pin₁ key₁ expected₁ reg₁ e₂ namespace₂ pin₂ key₂ expected₂ reg₂ h₁ h₂ hu hy
      hcommitment c₁ c₂ hc₁ hc₂ hne
    have henrolled₁ := verifyEnrollment_sound h₁
    have henrolled₂ := verifyEnrollment_sound h₂
    -- equal texts are equal points
    have hu' : reg₂.account.u = reg₁.account.u :=
      encodeSecpPoint_inj (hexEncode_inj (henrolled₂.u_eq.symm.trans (hu.symm.trans henrolled₁.u_eq)))
    have hy' : reg₂.account.y = reg₁.account.y :=
      encodeSecpPoint_inj (hexEncode_inj (henrolled₂.y_eq.symm.trans (hy.symm.trans henrolled₁.y_eq)))
    obtain ⟨r, z₁, d₁, hr, hz₁, hd₁, heq₁⟩ := henrolled₁.possession
    obtain ⟨r', z₂, d₂, hr', hz₂, hd₂, heq₂⟩ := henrolled₂.possession
    obtain rfl : d₁ = c₁ := Except.ok.inj (hd₁.symm.trans hc₁)
    obtain rfl : d₂ = c₂ := Except.ok.inj (hd₂.symm.trans hc₂)
    obtain rfl : r = r' := by
      rw [hcommitment] at hr
      exact Except.ok.inj (hr.symm.trans hr')
    obtain ⟨hgoodu, hgoody, _⟩ := (validateAccount_eq_ok lib).1 henrolled₁.account_valid
    have hdiffer : (d₁ : ZMod secp256k1Fr) ≠ d₂ := by
      intro heq
      obtain ⟨hpos₁, hlt₁⟩ := enrollmentChallenge_canonical hd₁
      obtain ⟨hpos₂, hlt₂⟩ := enrollmentChallenge_canonical hd₂
      exact hne (eq_of_intCast_eq hpos₁ hlt₁ hpos₂ hlt₂ heq)
    rw [hu', hy'] at heq₂
    obtain ⟨hnonzero, hsecret⟩ := lib.secp.schnorr_extract hgoodu hgoody (trustPoint_eq_ok.1 hr).2
      hdiffer heq₁ heq₂
    refine ⟨z₁, z₂, hz₁, hz₂, hnonzero, ?_, hu', hy'⟩
    rw [ZMod.natCast_val, hsecret]

end Lktrs.NativeProof
