import Lktrs.Foundation.SelfDelimiting
import Lktrs.Protocol.ClearRuns
import Lktrs.Protocol.ScalarEncoding

/-!
# Hash inputs of the C++ side determine what they were made from

Texts stand behind their length, elements have encodings of one width and the accounts of
a ring stand behind their number, so that each part of an input ends where its bytes say.
A retry appends its number to an input that has already ended, and is never taken for a
part of another message (`cpp_hash_inputs_injective`).

The encodings do not contain the context of an element. What a label determines is
therefore stated about the values of its elements; for elements of the same contexts
these are the elements (`RingLabel.eq_of_values`).
-/

set_option autoImplicit false

namespace Lktrs.Protocol

open Lktrs.Foundation

variable {r : ℕ} {G₁ G₂ GT Gp : Type} [CommGroup G₁] [CommGroup G₂] [CommGroup GT]

/-! ## Values -/

/-- The raw value of an element, without its context. -/
def Element.value {α : Type} (x : Element α) : Option α := x.storage.map Storage.raw

@[simp] theorem Element.value_live {α : Type} (k : ℕ) (a : α) :
    (Element.live k a).value = some a := rfl

/-- The values of a public key. -/
def AccountPublicKey.values (key : AccountPublicKey r Gp) :
    List UInt8 × List UInt8 × Option Gp × Option Gp × Option (ZMod r) :=
  (key.userId, key.accountId, key.uI.value, key.yI.value, key.member.value)

/-- The values of a label. -/
def RingLabel.values (label : RingLabel r Gp) :
    List UInt8 × List (List UInt8 × List UInt8 × Option Gp × Option Gp × Option (ZMod r)) :=
  (label.issue, label.accounts.map AccountPublicKey.values)

/-- The elements of a key belong to two contexts. -/
def AccountPublicKey.InContexts (pairing ddh : ℕ) (key : AccountPublicKey r Gp) : Prop :=
  (∃ u, key.uI = .live ddh u) ∧ (∃ y, key.yI = .live ddh y) ∧ ∃ m, key.member = .live pairing m

/-- The elements of a label belong to two contexts. -/
def RingLabel.InContexts (pairing ddh : ℕ) (label : RingLabel r Gp) : Prop :=
  ∀ key ∈ label.accounts, key.InContexts pairing ddh

theorem AccountPublicKey.eq_of_values {pairing ddh : ℕ} {key key' : AccountPublicKey r Gp}
    (h : key.InContexts pairing ddh) (h' : key'.InContexts pairing ddh)
    (hvalues : key.values = key'.values) : key = key' := by
  obtain ⟨userId, accountId, uI, yI, member⟩ := key
  obtain ⟨userId', accountId', uI', yI', member'⟩ := key'
  obtain ⟨⟨u, rfl⟩, ⟨y, rfl⟩, m, rfl⟩ := h
  obtain ⟨⟨u', rfl⟩, ⟨y', rfl⟩, m', rfl⟩ := h'
  simpa [AccountPublicKey.values] using hvalues

theorem keys_eq_of_values {pairing ddh : ℕ} {keys keys' : List (AccountPublicKey r Gp)}
    (h : ∀ key ∈ keys, key.InContexts pairing ddh) (h' : ∀ key ∈ keys', key.InContexts pairing ddh)
    (hvalues : keys.map AccountPublicKey.values = keys'.map AccountPublicKey.values) :
    keys = keys' := by
  induction keys generalizing keys' with
  | nil => rw [List.map_eq_nil_iff.1 hvalues.symm]
  | cons key keys ih =>
      cases keys' with
      | nil => cases hvalues
      | cons key' keys' =>
          rw [List.map_cons, List.map_cons, List.cons.injEq] at hvalues
          rw [List.forall_mem_cons] at h h'
          rw [AccountPublicKey.eq_of_values h.1 h'.1 hvalues.1, ih h.2 h'.2 hvalues.2]

/-- Labels of the same contexts with the same values are equal. -/
theorem RingLabel.eq_of_values {pairing ddh : ℕ} {label label' : RingLabel r Gp}
    (h : label.InContexts pairing ddh) (h' : label'.InContexts pairing ddh)
    (hvalues : label.values = label'.values) : label = label' := by
  obtain ⟨hissue, haccounts⟩ := Prod.ext_iff.1 hvalues
  have hkeys := keys_eq_of_values h h' haccounts
  cases label
  cases label'
  exact congr (congrArg _ hissue) hkeys

/-- The sizes of a public key are those of vectors. -/
def AccountPublicKey.Sized (key : AccountPublicKey r Gp) : Prop :=
  key.userId.length < 2 ^ 64 ∧ key.accountId.length < 2 ^ 64

/-- The sizes of a label are those of vectors. -/
structure RingLabel.Sized (label : RingLabel r Gp) : Prop where
  issue : label.issue.length < 2 ^ 64
  accounts : label.accounts.length < 2 ^ 64
  keys : ∀ key ∈ label.accounts, key.Sized

/-- The library writes each element in its own way and all elements in one width. -/
structure FixedEncodings (lib : CryptoLibrary G₁ G₂ GT Gp) (g1Width gpWidth : ℕ) : Prop where
  g1_length : ∀ g, (lib.encodeG1 g).length = g1Width
  g1_inj : Function.Injective lib.encodeG1
  gp_length : ∀ x, (lib.encodeGp x).length = gpWidth
  gp_inj : Function.Injective lib.encodeGp

/-! ## Fields -/

/-- A text behind its length. -/
def TextField (text bytes : List UInt8) : Prop :=
  text.length < 2 ^ 64 ∧ bytes = lengthPrefixed text

theorem selfDelimiting_textField : SelfDelimiting TextField := by
  rintro text text' _ _ ys ys' ⟨hlt, rfl⟩ ⟨hlt', rfl⟩ heq
  rw [lengthPrefixed, lengthPrefixed, List.append_assoc, List.append_assoc] at heq
  obtain ⟨hcount, hrest⟩ := List.append_inj heq (by simp)
  exact List.append_inj hrest (bigEndian_inj hlt hlt' hcount)

/-- An element behind the length of its encoding. -/
def ElementField {α : Type} (encode : α → List UInt8) (value : Option α) (bytes : List UInt8) :
    Prop :=
  ∃ a, value = some a ∧ bytes = lengthPrefixed (encode a)

theorem selfDelimiting_elementField {α : Type} {encode : α → List UInt8} {width : ℕ}
    (hlength : ∀ a, (encode a).length = width) (hinj : Function.Injective encode) :
    SelfDelimiting (ElementField encode) := by
  refine SelfDelimiting.of_length (8 + width) ?_ ?_
  · rintro _ _ ⟨a, rfl, rfl⟩
    rw [lengthPrefixed, List.length_append, length_bigEndian, hlength]
  · rintro _ _ _ ⟨a, rfl, rfl⟩ ⟨a', rfl, heq⟩
    rw [lengthPrefixed, lengthPrefixed, hlength, hlength] at heq
    rw [hinj (List.append_cancel_left heq)]

theorem residueBytes_injective [NeZero r] : Function.Injective (residueBytes (r := r)) := by
  intro a b h
  have hvalue := congrArg bigEndianValue h
  rw [bigEndianValue_residueBytes, bigEndianValue_residueBytes] at hvalue
  exact ZMod.val_injective r hvalue

/-- A public key. -/
def KeyField (lib : CryptoLibrary G₁ G₂ GT Gp) :
    List UInt8 × List UInt8 × Option Gp × Option Gp × Option (ZMod r) → List UInt8 → Prop :=
  Encodes.seq TextField <| Encodes.seq TextField <| Encodes.seq (ElementField lib.encodeGp) <|
    Encodes.seq (ElementField lib.encodeGp) (ElementField residueBytes)

/-- A label behind its header. -/
def LabelField (lib : CryptoLibrary G₁ G₂ GT Gp) :
    List UInt8 × List (List UInt8 × List UInt8 × Option Gp × Option Gp × Option (ZMod r)) →
      List UInt8 → Prop :=
  Encodes.behind (versionHeader "lktrs/ring-label").length
    (Encodes.seq TextField (Encodes.counted 8 (2 ^ 64 - 1) (KeyField lib)))

/-- A timestamp. -/
def TimestampField (timestamp : UInt64) (bytes : List UInt8) : Prop :=
  bytes = bigEndian 8 timestamp.toNat

/-- A transcript: behind its header the label with its length, the message, the pseudonym
and the timestamp. -/
def TranscriptField (lib : CryptoLibrary G₁ G₂ GT Gp) :
    (List UInt8 × List (List UInt8 × List UInt8 × Option Gp × Option Gp × Option (ZMod r))) ×
      List UInt8 × Option G₁ × UInt64 → List UInt8 → Prop :=
  Encodes.behind (versionHeader "lktrs/challenge").length <|
    Encodes.seq (Encodes.behind 8 (LabelField lib)) <|
      Encodes.seq TextField (Encodes.seq (ElementField lib.encodeG1) TimestampField)

section Delimiting

variable [NeZero r] {lib : CryptoLibrary G₁ G₂ GT Gp} {g1Width gpWidth : ℕ}
  (hlib : FixedEncodings lib g1Width gpWidth)

include hlib

theorem selfDelimiting_keyField : SelfDelimiting (KeyField (r := r) lib) := by
  have hgp := selfDelimiting_elementField hlib.gp_length hlib.gp_inj
  have hscalar : SelfDelimiting (ElementField (residueBytes (r := r))) :=
    selfDelimiting_elementField (fun a => length_bigEndian _ _) residueBytes_injective
  exact selfDelimiting_textField.seq (selfDelimiting_textField.seq (hgp.seq (hgp.seq hscalar)))

theorem selfDelimiting_labelField : SelfDelimiting (LabelField (r := r) lib) :=
  (selfDelimiting_textField.seq ((selfDelimiting_keyField hlib).counted (by decide))).behind _

theorem selfDelimiting_transcriptField : SelfDelimiting (TranscriptField (r := r) lib) := by
  have hg1 := selfDelimiting_elementField hlib.g1_length hlib.g1_inj
  have htime : SelfDelimiting TimestampField := by
    refine SelfDelimiting.of_length 8 ?_ ?_
    · rintro timestamp _ rfl
      exact length_bigEndian _ _
    · rintro timestamp timestamp' _ rfl heq
      exact UInt64.toNat_inj.1
        (bigEndian_inj timestamp.toNat_lt timestamp'.toNat_lt heq)
  exact (((selfDelimiting_labelField hlib).behind 8).seq
    (selfDelimiting_textField.seq (hg1.seq htime))).behind _

end Delimiting

/-! ## What the encoders write -/

theorem elementField_gp {lib : CryptoLibrary G₁ G₂ GT Gp} {x : Element Gp} {bytes : List UInt8}
    (h : gpBytes lib x = .ok bytes) :
    ElementField lib.encodeGp x.value (lengthPrefixed bytes) := by
  simp only [gpBytes, bind_eq_ok, Element.get_eq_ok, pure_eq_ok] at h
  obtain ⟨s, rfl, rfl⟩ := h
  exact ⟨s.raw, rfl, rfl⟩

theorem elementField_g1 {lib : CryptoLibrary G₁ G₂ GT Gp} {x : Element G₁} {bytes : List UInt8}
    (h : g1Bytes lib x = .ok bytes) :
    ElementField lib.encodeG1 x.value (lengthPrefixed bytes) := by
  simp only [g1Bytes, bind_eq_ok, Element.get_eq_ok, pure_eq_ok] at h
  obtain ⟨s, rfl, rfl⟩ := h
  exact ⟨s.raw, rfl, rfl⟩

theorem elementField_scalar {x : Scalar r} {bytes : List UInt8} (h : x.toBytes = .ok bytes) :
    ElementField residueBytes x.value (lengthPrefixed bytes) := by
  simp only [Scalar.toBytes, bind_eq_ok, Element.get_eq_ok, pure_eq_ok] at h
  obtain ⟨s, rfl, rfl⟩ := h
  exact ⟨s.raw, rfl, rfl⟩

theorem keyField_of_encode {lib : CryptoLibrary G₁ G₂ GT Gp} {key : AccountPublicKey r Gp}
    {bytes : List UInt8} (hsized : key.Sized) (h : encodePublicKey lib key = .ok bytes) :
    KeyField lib key.values bytes := by
  simp only [encodePublicKey, bind_eq_ok, pure_eq_ok] at h
  obtain ⟨u, hu, y, hy, member, hmember, rfl⟩ := h
  refine ⟨_, _, ⟨hsized.1, rfl⟩, ⟨_, _, ⟨hsized.2, rfl⟩, ⟨_, _, elementField_gp hu,
    ⟨_, _, elementField_gp hy, elementField_scalar hmember, rfl⟩, rfl⟩, rfl⟩, ?_⟩
  simp only [List.append_assoc, AccountPublicKey.values]

theorem labelField_of_encode {lib : CryptoLibrary G₁ G₂ GT Gp} {label : RingLabel r Gp}
    {bytes : List UInt8} (hsized : label.Sized) (h : encodeRingLabel lib label = .ok bytes) :
    LabelField lib label.values bytes := by
  simp only [encodeRingLabel, bind_eq_ok, pure_eq_ok] at h
  obtain ⟨parts, hparts, rfl⟩ := h
  have hcount : (label.accounts.map AccountPublicKey.values).length = label.accounts.length :=
    List.length_map _
  have hmany := Encodes.many_mapM.2 ⟨hsized.keys, parts, hparts, rfl⟩
  have hkeys : Encodes.many (KeyField lib) (label.accounts.map AccountPublicKey.values)
      parts.flatten :=
    hmany.map fun hkey => keyField_of_encode hkey.1 hkey.2
  refine ⟨_, _, rfl, ⟨_, _, ⟨hsized.issue, rfl⟩,
    ⟨hcount ▸ Nat.le_sub_one_of_lt hsized.accounts, _, hkeys, rfl⟩, rfl⟩, ?_⟩
  simp only [List.append_assoc, RingLabel.values, hcount]

theorem transcriptField_of_encode {lib : CryptoLibrary G₁ G₂ GT Gp} {label : RingLabel r Gp}
    {message : List UInt8} {nym : Element G₁} {timestamp : UInt64} {bytes : List UInt8}
    (hsized : label.Sized) (hmessage : message.length < 2 ^ 64)
    (h : encodeChallengeTranscript lib label message nym timestamp = .ok bytes) :
    TranscriptField lib (label.values, message, nym.value, timestamp) bytes := by
  simp only [encodeChallengeTranscript, bind_eq_ok, pure_eq_ok] at h
  obtain ⟨ring, hring, nymBytes, hnym, rfl⟩ := h
  -- the label also stands behind its length, which is not needed to find its end
  have hlabel : Encodes.behind 8 (LabelField lib) label.values (lengthPrefixed ring) :=
    ⟨_, _, length_bigEndian 8 _, labelField_of_encode hsized hring, rfl⟩
  refine ⟨_, _, rfl, ⟨_, _, hlabel, ⟨_, _, ⟨hmessage, rfl⟩,
    ⟨_, _, elementField_g1 hnym, rfl, rfl⟩, rfl⟩, rfl⟩, ?_⟩
  simp only [List.append_assoc]

/-! ## Retries -/

/-- What a retry appends to the input. -/
def retrySuffix (head : List UInt8) (width attempt : ℕ) : List UInt8 :=
  if attempt = 0 then [] else head ++ bigEndian width attempt

theorem retrySuffix_inj {head : List UInt8} {width m n : ℕ} (hwidth : width ≠ 0)
    (hm : m < 256 ^ width) (hn : n < 256 ^ width)
    (h : retrySuffix head width m = retrySuffix head width n) : m = n := by
  have hlength : ∀ k, k ≠ 0 → (retrySuffix head width k).length = head.length + width := by
    intro k hk
    rw [retrySuffix, if_neg hk, List.length_append, length_bigEndian]
  have hzero : (retrySuffix head width 0).length = 0 := rfl
  by_cases hm0 : m = 0
  · subst hm0
    by_contra hne
    have hlong := hlength n (Ne.symm hne)
    rw [← h, hzero] at hlong
    omega
  · by_cases hn0 : n = 0
    · subst hn0
      have hlong := hlength m hm0
      rw [h, hzero] at hlong
      omega
    · rw [retrySuffix, retrySuffix, if_neg hm0, if_neg hn0] at h
      exact bigEndian_inj hm hn (List.append_cancel_left h)

theorem deriveBlock_eq (domain message : List UInt8) (attempt : ℕ) :
    deriveBlock domain message attempt = hashInput domain message ++ retrySuffix [] 4 attempt := by
  unfold deriveBlock retrySuffix
  split_ifs <;> simp

theorem hash64Input_eq (domain message : List UInt8) (counter : ℕ) :
    hash64Input domain message counter =
      hashInput domain message ++ retrySuffix (bigEndian 8 8) 8 counter := by
  unfold hash64Input retrySuffix
  split_ifs <;> simp

/-- A domain and a message end by themselves, so a suffix cannot be part of them. -/
theorem hashInput_append_inj {domain domain' message message' ys ys' : List UInt8}
    (hdomain : domain.length < 2 ^ 64) (hdomain' : domain'.length < 2 ^ 64)
    (hmessage : message.length < 2 ^ 64) (hmessage' : message'.length < 2 ^ 64)
    (h : hashInput domain message ++ ys = hashInput domain' message' ++ ys') :
    domain = domain' ∧ message = message' ∧ ys = ys' := by
  have hinput : ∀ {d m : List UInt8}, d.length < 2 ^ 64 → m.length < 2 ^ 64 →
      Encodes.seq TextField TextField (d, m) (hashInput d m) :=
    fun hd hm => ⟨_, _, ⟨hd, rfl⟩, ⟨hm, rfl⟩, rfl⟩
  obtain ⟨hpair, hys⟩ := (selfDelimiting_textField.seq selfDelimiting_textField)
    (hinput hdomain hmessage) (hinput hdomain' hmessage') h
  obtain ⟨hd, hm⟩ := Prod.mk.inj hpair
  exact ⟨hd, hm, hys⟩

/-! ## Challenges -/

/-- What a challenge is made from. -/
structure Transcript (r : ℕ) (G₁ Gp : Type) where
  label : RingLabel r Gp
  message : List UInt8
  nym : Element G₁
  timestamp : UInt64

namespace Transcript

/-- `encode_challenge_transcript` of its parts. -/
def encode (lib : CryptoLibrary G₁ G₂ GT Gp) (t : Transcript r G₁ Gp) : Except Thrown (List UInt8) :=
  encodeChallengeTranscript lib t.label t.message t.nym t.timestamp

/-- What an attempt of `challenge` hashes. -/
def block (lib : CryptoLibrary G₁ G₂ GT Gp) (t : Transcript r G₁ Gp) (attempt : ℕ) :
    Except Thrown (List UInt8) := do
  let transcript ← t.encode lib
  pure (deriveBlock (textBytes "lktrs/challenge/v1") transcript attempt)

/-- The sizes are those of vectors. -/
def Sized (t : Transcript r G₁ Gp) : Prop := t.label.Sized ∧ t.message.length < 2 ^ 64

/-- The same values, and the same elements where the contexts are the same. -/
structure Same (t t' : Transcript r G₁ Gp) : Prop where
  label_values : t.label.values = t'.label.values
  message_eq : t.message = t'.message
  nym_value : t.nym.value = t'.nym.value
  timestamp_eq : t.timestamp = t'.timestamp
  eq_of_contexts : ∀ pairing ddh, t.label.InContexts pairing ddh → t'.label.InContexts pairing ddh →
    (∃ g, t.nym = .live pairing g) → (∃ g, t'.nym = .live pairing g) → t = t'

theorem same_of_values {G₁ : Type} {t t' : Transcript r G₁ Gp}
    (h : (t.label.values, t.message, t.nym.value, t.timestamp) =
      (t'.label.values, t'.message, t'.nym.value, t'.timestamp)) : t.Same t' := by
  obtain ⟨hlabel, hmessage, hnym, htime⟩ : t.label.values = t'.label.values ∧
      t.message = t'.message ∧ t.nym.value = t'.nym.value ∧ t.timestamp = t'.timestamp := by
    simpa only [Prod.mk.injEq] using h
  refine ⟨hlabel, hmessage, hnym, htime, ?_⟩
  rintro pairing ddh hin hin' ⟨g, hg⟩ ⟨g', hg'⟩
  rw [hg, hg', Element.value_live, Element.value_live, Option.some.injEq] at hnym
  have hlabels := RingLabel.eq_of_values hin hin' hlabel
  have hnyms : t.nym = t'.nym := by rw [hg, hg', hnym]
  cases t
  cases t'
  simp_all

/-- A challenge is the residue of the digest of one of its blocks. -/
theorem exists_block_of_challenge [CommGroup Gp] [DecidableEq G₁] [DecidableEq G₂]
    [DecidableEq GT] [DecidableEq Gp] {lib : CryptoLibrary G₁ G₂ GT Gp}
    {p : ClearProtocol r G₁ G₂ Gp} {t : Transcript r G₁ Gp} {c : Scalar r}
    (h : p.challenge lib t.label t.message t.nym t.timestamp = .ok c) :
    ∃ attempt < 64, ∃ bytes, t.block lib attempt = .ok bytes ∧
      c.value = some ((sha256 bytes).value : ZMod r) := by
  simp only [ClearProtocol.challenge, bind_eq_ok, hashToScalar_eq_ok] at h
  obtain ⟨transcript, htranscript, k, a, -, ha, rfl⟩ := h
  obtain ⟨attempt, hattempt, hresidue⟩ := List.mem_map.1 (List.mem_of_find?_eq_some ha)
  refine ⟨attempt, List.mem_range.1 hattempt, _, bind_eq_ok.2 ⟨transcript, htranscript, rfl⟩, ?_⟩
  rw [Element.value_live, ← hresidue, deriveResidue]

end Transcript

/-- Equal inputs of a hash come from equal arguments. A transcript determines the label,
the message, the pseudonym and the timestamp; the material of a seed and of a key
determines its arguments; and what is hashed for a domain, a message and an attempt
determines all three, for both hashes and for every number of attempts. In particular two
attempts of two challenges that hash the same bytes are the same attempt of the same
challenge. -/
theorem cpp_hash_inputs_injective [NeZero r] {lib : CryptoLibrary G₁ G₂ GT Gp} {g1Width gpWidth : ℕ}
    (hlib : FixedEncodings lib g1Width gpWidth) :
    (∀ (t t' : Transcript r G₁ Gp) (bytes : List UInt8), t.Sized → t'.Sized →
      t.encode lib = .ok bytes → t'.encode lib = .ok bytes → t.Same t') ∧
    (∀ domain domain' userId userId' entropy entropy' : List UInt8,
      domain.length < 2 ^ 64 → domain'.length < 2 ^ 64 → userId.length < 2 ^ 64 →
      userId'.length < 2 ^ 64 → entropy.length < 2 ^ 64 → entropy'.length < 2 ^ 64 →
      seedMaterial domain userId entropy = seedMaterial domain' userId' entropy' →
        domain = domain' ∧ userId = userId' ∧ entropy = entropy') ∧
    (∀ (seed seed' issue issue' accountId accountId' : List UInt8) (branch branch' : UInt8),
      seed.length < 2 ^ 64 → seed'.length < 2 ^ 64 → issue.length < 2 ^ 64 →
      issue'.length < 2 ^ 64 → accountId.length < 2 ^ 64 → accountId'.length < 2 ^ 64 →
      deriveMaterial seed issue accountId branch = deriveMaterial seed' issue' accountId' branch' →
        seed = seed' ∧ issue = issue' ∧ accountId = accountId' ∧ branch = branch') ∧
    (∀ (domain domain' message message' : List UInt8) (attempt attempt' : ℕ),
      domain.length < 2 ^ 64 → domain'.length < 2 ^ 64 → message.length < 2 ^ 64 →
      message'.length < 2 ^ 64 → attempt < 2 ^ 32 → attempt' < 2 ^ 32 →
      deriveBlock domain message attempt = deriveBlock domain' message' attempt' →
        domain = domain' ∧ message = message' ∧ attempt = attempt') ∧
    (∀ (domain domain' message message' : List UInt8) (counter counter' : ℕ),
      domain.length < 2 ^ 64 → domain'.length < 2 ^ 64 → message.length < 2 ^ 64 →
      message'.length < 2 ^ 64 → counter < 2 ^ 64 → counter' < 2 ^ 64 →
      hash64Input domain message counter = hash64Input domain' message' counter' →
        domain = domain' ∧ message = message' ∧ counter = counter') ∧
    ∀ (t t' : Transcript r G₁ Gp) (attempt attempt' : ℕ) (bytes : List UInt8), t.Sized → t'.Sized →
      attempt < 2 ^ 32 → attempt' < 2 ^ 32 → t.block lib attempt = .ok bytes →
      t'.block lib attempt' = .ok bytes → t.Same t' ∧ attempt = attempt' := by
  have hfield := selfDelimiting_transcriptField (r := r) hlib
  refine ⟨?transcript, ?seed, ?derive, ?block, ?hash64, ?challenge⟩
  case transcript =>
    rintro t t' bytes ⟨hlabel, hmessage⟩ ⟨hlabel', hmessage'⟩ h h'
    exact Transcript.same_of_values (hfield.inj (transcriptField_of_encode hlabel hmessage h)
      (transcriptField_of_encode hlabel' hmessage' h'))
  case seed =>
    intro domain domain' userId userId' entropy entropy' hd hd' hu hu' he he' h
    obtain ⟨hdomain, hrest⟩ := selfDelimiting_textField ⟨hd, rfl⟩ ⟨hd', rfl⟩
      (by simpa only [seedMaterial, List.append_assoc] using h)
    obtain ⟨huser, hlast⟩ := selfDelimiting_textField ⟨hu, rfl⟩ ⟨hu', rfl⟩ hrest
    exact ⟨hdomain, huser, selfDelimiting_textField.inj ⟨he, rfl⟩ ⟨he', hlast⟩⟩
  case derive =>
    intro seed seed' issue issue' accountId accountId' branch branch' hs hs' hi hi' ha ha' h
    obtain ⟨hseed, hrest⟩ := selfDelimiting_textField ⟨hs, rfl⟩ ⟨hs', rfl⟩
      (by simpa only [deriveMaterial, List.append_assoc] using h)
    obtain ⟨hissue, hrest⟩ := selfDelimiting_textField ⟨hi, rfl⟩ ⟨hi', rfl⟩ hrest
    obtain ⟨haccount, hlast⟩ := selfDelimiting_textField ⟨ha, rfl⟩ ⟨ha', rfl⟩ hrest
    exact ⟨hseed, hissue, haccount, List.singleton_inj.1 hlast⟩
  case block =>
    intro domain domain' message message' attempt attempt' hd hd' hm hm' ha ha' h
    rw [deriveBlock_eq, deriveBlock_eq] at h
    obtain ⟨hdomain, hmessage, hsuffix⟩ := hashInput_append_inj hd hd' hm hm' h
    exact ⟨hdomain, hmessage, retrySuffix_inj (by decide) ha ha' hsuffix⟩
  case hash64 =>
    intro domain domain' message message' counter counter' hd hd' hm hm' hc hc' h
    rw [hash64Input_eq, hash64Input_eq] at h
    obtain ⟨hdomain, hmessage, hsuffix⟩ := hashInput_append_inj hd hd' hm hm' h
    exact ⟨hdomain, hmessage, retrySuffix_inj (by decide) hc hc' hsuffix⟩
  case challenge =>
    rintro t t' attempt attempt' bytes ⟨hlabel, hmessage⟩ ⟨hlabel', hmessage'⟩ ha ha' h h'
    simp only [Transcript.block, bind_eq_ok, pure_eq_ok, deriveBlock_eq] at h h'
    obtain ⟨transcript, htranscript, rfl⟩ := h
    obtain ⟨transcript', htranscript', heq⟩ := h'
    -- the transcript ends by itself, whatever the length in front of it says
    rw [hashInput, hashInput, List.append_assoc, List.append_assoc] at heq
    have hrest := List.append_cancel_left heq
    obtain ⟨hvalues, hsuffix⟩ := (hfield.behind 8)
      ⟨_, _, length_bigEndian 8 _, transcriptField_of_encode hlabel hmessage htranscript, rfl⟩
      ⟨_, _, length_bigEndian 8 _, transcriptField_of_encode hlabel' hmessage' htranscript', rfl⟩
      hrest.symm
    exact ⟨Transcript.same_of_values hvalues, retrySuffix_inj (by decide) ha ha' hsuffix⟩

/-- The sample library writes elements in one byte and in thirty-two. -/
theorem sampleLibrary_fixed : FixedEncodings sampleLibrary 1 32 where
  g1_length _ := rfl
  g1_inj := by
    intro g g' h
    have hval := congrArg UInt8.toNat (List.singleton_inj.1 h)
    rw [UInt8.toNat_ofNat', UInt8.toNat_ofNat'] at hval
    have hg := ZMod.val_lt (Multiplicative.toAdd g)
    have hg' := ZMod.val_lt (Multiplicative.toAdd g')
    exact Multiplicative.toAdd.injective (ZMod.val_injective 11 (by omega))
  gp_length _ := length_bigEndian _ _
  gp_inj := by
    intro x x' h
    have hbound : ristrettoOrder < 256 ^ 32 := by decide
    have hval := bigEndian_inj ((ZMod.val_lt (Multiplicative.toAdd x)).trans hbound)
      ((ZMod.val_lt (Multiplicative.toAdd x')).trans hbound) h
    exact Multiplicative.toAdd.injective (ZMod.val_injective ristrettoOrder hval)

/-- A ring of two accounts. -/
def sampleLabel : RingLabel 11 SampleGp :=
  ⟨textBytes "issue", [⟨textBytes "alice", textBytes "a", .live 2 (.ofAdd (3 : ℕ)),
      .live 2 (.ofAdd (5 : ℕ)), .live 1 (7 : ℕ)⟩,
    ⟨textBytes "bob", textBytes "b", .live 2 (.ofAdd (4 : ℕ)), .live 2 (.ofAdd (6 : ℕ)),
      .live 1 (8 : ℕ)⟩]⟩

/-- A message to this ring. -/
def sampleTranscript (message : String) : Transcript 11 SampleGroup SampleGp :=
  ⟨sampleLabel, textBytes message, .live 1 (.ofAdd (4 : ℕ)), 7⟩

theorem sampleTranscript_block (message : String) (attempt : ℕ) :
    ∃ bytes, (sampleTranscript message).block sampleLibrary attempt = .ok bytes := ⟨_, rfl⟩

theorem sampleTranscript_sized {message : String} (h : (textBytes message).length < 2 ^ 64) :
    (sampleTranscript message).Sized := by
  have hkeys : ∀ key ∈ sampleLabel.accounts, key.Sized := by
    intro key hkey
    rcases List.mem_pair.1 hkey with rfl | rfl
    · exact ⟨by decide, by decide⟩
    · exact ⟨by decide, by decide⟩
  have hissue : sampleLabel.issue.length < 2 ^ 64 := by decide
  have haccounts : sampleLabel.accounts.length < 2 ^ 64 := by decide
  exact ⟨⟨hissue, haccounts, hkeys⟩, h⟩

/-- Two attempts of a challenge, and one attempt for two messages, hash different bytes. -/
theorem cpp_hash_inputs_injective_sample :
    ∃ first second other : List UInt8,
      (sampleTranscript "yes").block sampleLibrary 0 = .ok first ∧
      (sampleTranscript "yes").block sampleLibrary 1 = .ok second ∧
      (sampleTranscript "no").block sampleLibrary 0 = .ok other ∧
      first ≠ second ∧ first ≠ other := by
  have hyes : (sampleTranscript "yes").Sized := sampleTranscript_sized (by decide)
  have hno : (sampleTranscript "no").Sized := sampleTranscript_sized (by decide)
  obtain ⟨-, -, -, -, -, hchallenge⟩ := cpp_hash_inputs_injective (r := 11) sampleLibrary_fixed
  obtain ⟨first, hfirst⟩ := sampleTranscript_block "yes" 0
  obtain ⟨second, hsecond⟩ := sampleTranscript_block "yes" 1
  obtain ⟨other, hother⟩ := sampleTranscript_block "no" 0
  refine ⟨first, second, other, hfirst, hsecond, hother, ?_, ?_⟩
  · rintro rfl
    have hattempts := (hchallenge _ _ 0 1 _ hyes hyes (by decide) (by decide) hfirst hsecond).2
    exact absurd hattempts (by decide)
  · rintro rfl
    have hsame := (hchallenge _ _ 0 0 _ hyes hno (by decide) (by decide) hfirst hother).1
    exact absurd hsame.message_eq (by decide)

end Lktrs.Protocol
