import Lktrs.NativeProof.Accumulator
import Lktrs.NativeProof.Trust

/-!
# The preimages of the hashes

SHA-256 is applied to five kinds of byte strings: seeds, member handles, ring
digests, challenges and enrollment challenges. Within a kind the string
determines the values it was made from: four kinds are concatenations of fields
of fixed width, with the number of accounts in front of a ring, and the fifth is
a JSON document, which its reader gives back. A string also determines its kind:
a seed is the only one of 65 bytes, and the others differ in their seventh byte
(`hash_inputs_unambiguous`).
-/

set_option autoImplicit false

namespace Lktrs.NativeProof

open Lktrs.Foundation

/-! ## Documents -/

/-- The bytes of a document determine its value. -/
theorem documentBytes_inj {ty : GoType} {v w : GoValue} (hd : ty.foldDistinct = true)
    (hv : HasType ty v) (hw : HasType ty w) (h : documentBytes ty v = documentBytes ty w) :
    v = w := by
  have hread : decodeDocument "" ty (documentBytes ty v) = .ok v := decodeDocument_marshal hd hv
  rw [h, documentBytes, decodeDocument_marshal hd hw, Except.ok.injEq] at hread
  exact hread.symm

theorem hasType_enrollment (e : Enrollment) : HasType enrollmentType e.value := by
  simp [enrollmentType, Enrollment.value, HasType, FieldsHaveType]

/-! ## Within a kind -/

/-- The secret fits its field. -/
theorem seedInput_inj {x x' : ℤ} {issue issue' : FixedBytes 32} {branch branch' : UInt8}
    (hx : canonicalNonzero (some x) secp256k1Fr = true)
    (hx' : canonicalNonzero (some x') secp256k1Fr = true)
    (h : seedInput x issue branch = seedInput x' issue' branch') :
    x = x' ∧ issue = issue' ∧ branch = branch' := by
  obtain ⟨hpos, hlt⟩ := canonicalNonzero_some.1 hx
  obtain ⟨hpos', hlt'⟩ := canonicalNonzero_some.1 hx'
  have hbound : secp256k1Fr < 256 ^ 32 := by decide
  obtain ⟨hfields, hbranch⟩ := List.append_inj h (by simp)
  obtain ⟨hsecret, hissue⟩ := List.append_inj hfields (by simp)
  have hvalue := bigEndian_inj (by omega) (by omega) hsecret
  refine ⟨by omega, FixedBytes.ext hissue, ?_⟩
  simpa using hbranch

theorem memberInput_inj {a b : Account} (h : memberInput a = memberInput b) :
    a.u = b.u ∧ a.y = b.y := by
  obtain ⟨hfields, hy⟩ := List.append_inj h (by simp)
  obtain ⟨_, hu⟩ := List.append_inj hfields rfl
  exact ⟨encodeSecpPoint_inj hu, encodeSecpPoint_inj hy⟩

/-- The points of equally many accounts determine the pairs. -/
theorem ringPoints_inj : ∀ {as bs : List Account}, as.length = bs.length →
    ringPoints as = ringPoints bs →
      as.map (fun a => (a.u, a.y)) = bs.map fun b => (b.u, b.y) := by
  intro as
  induction as with
  | nil =>
      intro bs hlen _
      rw [List.length_eq_zero_iff.1 hlen.symm]
  | cons a as ih =>
      intro bs hlen h
      cases bs with
      | nil => cases hlen
      | cons b bs =>
          rw [List.length_cons, List.length_cons, Nat.add_right_cancel_iff] at hlen
          simp only [ringPoints, List.flatMap_cons] at h
          -- the first account is a field of 128 bytes
          obtain ⟨hfirst, hrest⟩ := List.append_inj h (by simp)
          obtain ⟨hu, hy⟩ := List.append_inj hfirst (by simp)
          rw [List.map_cons, List.map_cons, ih hlen hrest, encodeSecpPoint_inj hu,
            encodeSecpPoint_inj hy]

theorem ringInput_inj {as bs : List Account} (has : as.length < 2 ^ 32) (hbs : bs.length < 2 ^ 32)
    (h : ringInput as = ringInput bs) :
    as.map (fun a => (a.u, a.y)) = bs.map fun b => (b.u, b.y) := by
  rw [ringInput, ringInput, List.append_assoc, List.append_assoc] at h
  obtain ⟨_, h⟩ := List.append_inj h rfl
  obtain ⟨hcount, hpoints⟩ := List.append_inj h (by simp)
  apply ringPoints_inj _ hpoints
  apply bigEndian_inj _ _ hcount
  · exact has.trans_le (by decide)
  · exact hbs.trans_le (by decide)

/-- What a challenge depends on. -/
structure SameTranscript (st st' : Statement) : Prop where
  issue_eq : st.issue = st'.issue
  ringDigest_eq : st.ringDigest = st'.ringDigest
  messageDigest_eq : st.messageDigest = st'.messageDigest
  nym_eq : st.nym = st'.nym
  timestamp_eq : st.timestamp = st'.timestamp
  k_eq : st.k = st'.k

theorem challengeInput_inj {st st' : Statement} (h : challengeInput st = challengeInput st') :
    SameTranscript st st' := by
  obtain ⟨h, hk⟩ := List.append_inj h (by simp)
  obtain ⟨h, htime⟩ := List.append_inj h (by simp)
  obtain ⟨h, hnym⟩ := List.append_inj h (by simp)
  obtain ⟨h, hmessage⟩ := List.append_inj h (by simp)
  obtain ⟨h, hring⟩ := List.append_inj h (by simp)
  obtain ⟨_, hissue⟩ := List.append_inj h (by simp)
  refine ⟨FixedBytes.ext hissue, FixedBytes.ext hring, FixedBytes.ext hmessage,
    encodeBNPoint_inj hnym, ?_, ?_⟩
  · apply UInt64.toNat_inj.1
    apply bigEndian_inj _ _ htime
    · exact st.timestamp.toNat_lt.trans_le (by decide)
    · exact st'.timestamp.toNat_lt.trans_le (by decide)
  · apply UInt32.toNat_inj.1
    apply bigEndian_inj _ _ hk
    · exact st.k.toNat_lt.trans_le (by decide)
    · exact st'.k.toNat_lt.trans_le (by decide)

theorem enrollmentInput_inj {e e' : Enrollment} {scope scope' : String} {pin pin' : FixedBytes 32}
    {key key' : List UInt8} (h : enrollmentInput e scope pin key = enrollmentInput e' scope' pin' key') :
    scope = scope' ∧ pin = pin' ∧ key = key' ∧
      ({ e with response := "" } : Enrollment) = { e' with response := "" } := by
  have htype : ∀ (e : Enrollment) (scope : String) (pin : FixedBytes 32) (key : List UInt8),
      HasType enrollmentChallengeType (.struct [.string "lktrs/enrollment-pop/v1", .string scope,
        .string (hexDigest pin), .string (base64Encode key), e.value]) := by
    intro e scope pin key
    have he := hasType_enrollment e
    simp only [enrollmentChallengeType, HasType, FieldsHaveType, he, and_self]
  have hvalue := documentBytes_inj (by decide) (htype _ _ _ _) (htype _ _ _ _) h
  simp only [GoValue.struct.injEq, List.cons.injEq, GoValue.string.injEq, and_true,
    true_and] at hvalue
  obtain ⟨hscope, hpin, hkey, hentry⟩ := hvalue
  refine ⟨hscope, hexDigest_inj hpin, base64Encode_inj hkey, ?_⟩
  exact congrArg enrollmentOf hentry

/-! ## Across kinds -/

inductive HashKind where
  | seed
  | member
  | ring
  | challenge
  | enrollment
  deriving DecidableEq

/-- The byte strings that are hashed for a purpose, whatever the values. -/
inductive HashInput : HashKind → List UInt8 → Prop where
  | seed (x : ℤ) (issue : FixedBytes 32) (branch : UInt8) :
      HashInput .seed (seedInput x issue branch)
  | member (a : Account) : HashInput .member (memberInput a)
  | ring (accounts : List Account) : HashInput .ring (ringInput accounts)
  | challenge (st : Statement) : HashInput .challenge (challengeInput st)
  | enrollment (e : Enrollment) (namespaceID : String) (pin : FixedBytes 32) (key : List UInt8) :
      HashInput .enrollment (enrollmentInput e namespaceID pin key)

/-- The purpose, read off a string: its length, or the byte after `lktrs/`. -/
def kindOf (bs : List UInt8) : HashKind :=
  if bs.length = 65 then .seed
  else
    match (bs[6]? : Option UInt8) with
    | some 0x6d => .member
    | some 0x72 => .ring
    | some 0x63 => .challenge
    | _ => .enrollment

theorem length_ringPoints (accounts : List Account) :
    (ringPoints accounts).length = 128 * accounts.length := by
  induction accounts with
  | nil => rfl
  | cons a accounts ih =>
      rw [ringPoints] at ih
      simp only [ringPoints, List.flatMap_cons, List.length_append, length_encodeSecpPoint, ih,
        List.length_cons]
      omega

/-- Escaping never shortens a string. -/
theorem length_le_renderString (s : String) : s.toList.length ≤ (renderString s).length := by
  have hchars : ∀ cs : List Char, cs.length ≤ (cs.flatMap escapeChar).length := by
    intro cs
    induction cs with
    | nil => exact Nat.le_refl _
    | cons c cs ih =>
        have hc : 1 ≤ (escapeChar c).length := by
          unfold escapeChar
          split_ifs <;> simp
        rw [List.flatMap_cons, List.length_append, List.length_cons]
        omega
  have hall := hchars s.toList
  rw [renderString, List.length_cons, List.length_append]
  omega

/-- The document of an enrollment challenge: its first name, and the digest in it. -/
theorem marshal_enrollmentChallenge (e : Enrollment) (namespaceID : String) (pin : FixedBytes 32)
    (key : List UInt8) :
    ∃ before after : List Char,
      enrollmentInput e namespaceID pin key =
        textBytes "\x7b\"Domain\":" ++ textBytes (String.ofList (before ++
          renderString (hexDigest pin) ++ after)) := by
  refine ⟨renderString "lktrs/enrollment-pop/v1" ++ ',' :: (renderString "Namespace" ++
    ':' :: (renderString namespaceID ++ ',' :: (renderString "Setup" ++ [':']))), ?_, ?_⟩
  · exact ',' :: (renderString "Authority" ++ ':' :: (renderString (base64Encode key) ++
      ',' :: (renderString "Enrollment" ++ ':' :: ((encodeValue enrollmentType
        (Enrollment.value { e with response := "" })).render ++ ['}']))))
  · rw [← textBytes_append]
    apply congrArg textBytes
    have hname : "\x7b\"Domain\":" = String.ofList ('{' :: (renderString "Domain" ++ [':'])) := by
      decide
    rw [hname, ← String.ofList_append]
    apply congrArg String.ofList
    simp only [marshal, enrollmentChallengeType, encodeValue, encodeFields, Json.render,
      renderMembers, List.append_assoc, List.cons_append, List.nil_append]

/-- A string that is hashed has the purpose its length and its seventh byte say. -/
theorem kindOf_hashInput {kind : HashKind} {bs : List UInt8} (h : HashInput kind bs) :
    kindOf bs = kind := by
  cases h with
  | seed x issue branch =>
      apply if_pos
      simp [seedInput]
  | member a =>
      have hbyte : (memberInput a)[6]? = some 0x6d := by
        rw [memberInput, List.append_assoc, List.getElem?_append_left (by decide)]
        decide
      have hlen : (memberInput a).length ≠ 65 := by
        have hdomain : (textBytes memberDomain).length = 15 := by decide
        simp [memberInput, hdomain]
      rw [kindOf, if_neg hlen, hbyte]
      rfl
  | ring accounts =>
      have hbyte : (ringInput accounts)[6]? = some 0x72 := by
        rw [ringInput, List.append_assoc, List.getElem?_append_left (by decide)]
        decide
      have hlen : (ringInput accounts).length ≠ 65 := by
        have hdomain : (textBytes ringDomain).length = 13 := by decide
        rw [ringInput, List.length_append, List.length_append, hdomain, length_bigEndian,
          length_ringPoints]
        omega
      rw [kindOf, if_neg hlen, hbyte]
      rfl
  | challenge st =>
      have hbyte : (challengeInput st)[6]? = some 0x63 := by
        simp only [challengeInput, List.append_assoc]
        rw [List.getElem?_append_left (by decide)]
        decide
      have hlen : (challengeInput st).length ≠ 65 := by
        have hdomain : (textBytes challengeDomain).length = 18 := by decide
        simp [challengeInput, hdomain]
      rw [kindOf, if_neg hlen, hbyte]
      rfl
  | enrollment e namespaceID pin key =>
      obtain ⟨before, after, hinput⟩ := marshal_enrollmentChallenge e namespaceID pin key
      have hbyte : (enrollmentInput e namespaceID pin key)[6]? = some 0x69 := by
        rw [hinput, List.getElem?_append_left (by decide)]
        decide
      -- the digest alone takes 64 characters
      have hlen : (enrollmentInput e namespaceID pin key).length ≠ 65 := by
        have hname : (textBytes "\x7b\"Domain\":").length = 10 := by decide
        have hbytes := length_le_textBytes (before ++ renderString (hexDigest pin) ++ after)
        have hdigest := length_le_renderString (hexDigest pin)
        rw [hexDigest, hexEncode, String.toList_ofList, length_hexChars,
          FixedBytes.length_toList] at hdigest
        rw [hexDigest, hexEncode] at hbytes
        rw [List.length_append, List.length_append] at hbytes
        rw [hinput, List.length_append, hname, hexDigest, hexEncode]
        omega
      rw [kindOf, if_neg hlen, hbyte]
      rfl

/-- Equal preimages of one kind come from equal values, and no string is a preimage of two kinds;
the two seeds of a secret never share one. -/
theorem hash_inputs_unambiguous :
    (∀ (x x' : ℤ) (issue issue' : FixedBytes 32) (branch branch' : UInt8),
      canonicalNonzero (some x) secp256k1Fr = true → canonicalNonzero (some x') secp256k1Fr = true →
      seedInput x issue branch = seedInput x' issue' branch' →
      x = x' ∧ issue = issue' ∧ branch = branch') ∧
    (∀ a b : Account, memberInput a = memberInput b → a.u = b.u ∧ a.y = b.y) ∧
    (∀ as bs : List Account, as.length < 2 ^ 32 → bs.length < 2 ^ 32 →
      ringInput as = ringInput bs →
      as.map (fun a => (a.u, a.y)) = bs.map fun b => (b.u, b.y)) ∧
    (∀ st st' : Statement, challengeInput st = challengeInput st' → SameTranscript st st') ∧
    (∀ (e e' : Enrollment) (scope scope' : String) (pin pin' : FixedBytes 32)
      (key key' : List UInt8),
      enrollmentInput e scope pin key = enrollmentInput e' scope' pin' key' →
      scope = scope' ∧ pin = pin' ∧ key = key' ∧
        ({ e with response := "" } : Enrollment) = { e' with response := "" }) ∧
    (∀ (kind kind' : HashKind) (bs : List UInt8), HashInput kind bs → HashInput kind' bs →
      kind = kind') ∧
    ∀ (x x' : ℤ) (issue issue' : FixedBytes 32), seedInput x issue 0 ≠ seedInput x' issue' 1 := by
  refine ⟨fun _ _ _ _ _ _ => seedInput_inj, fun _ _ => memberInput_inj,
    fun _ _ => ringInput_inj, fun _ _ => challengeInput_inj,
    fun _ _ _ _ _ _ _ _ => enrollmentInput_inj, ?_, ?_⟩
  · intro kind kind' bs h h'
    rw [← kindOf_hashInput h, ← kindOf_hashInput h']
  · intro x x' issue issue' h
    obtain ⟨_, hbranch⟩ := List.append_inj h (by simp)
    simp at hbranch

end Lktrs.NativeProof
