import Lktrs.Foundation.JsonReorder
import Lktrs.Foundation.Outcome

/-!
# Strict JSON documents

`rejectDuplicateJSON`, `strictJSON` and `decodeRequest`, with the document types
of the package. Every reader makes two passes over a text: a walk over its
tokens that refuses an object with two equal keys, and the struct decoder, which
matches keys with fields up to letter case. The passes disagree on what a
duplicate is (`case_variant_keys_accepted`); an accepted document has
one interpretation exactly when no object decoded into a struct has two keys
that are equal under case folding (`document_single_assignment_iff`).

A malformed text is refused with a text of the JSON library, for which
`jsonError` stands.
-/

set_option autoImplicit false

namespace Lktrs.NativeProof

open Lktrs.Foundation

/-- The text of an error that comes from the JSON library. -/
def jsonError : String := "json: invalid document"

/-- `strconv.Quote`, on printable texts. -/
def goQuote (s : String) : String := s.quote

/-- The JSON value a byte string spells. -/
def documentOf (raw : List UInt8) : Option Json :=
  (bytesText raw).bind fun text => Json.parse text.toList

/-! ## The duplicate-key walk -/

mutual

/-- `walk`: one value, read token by token. -/
def walk : Json → Except String Unit
  | .object members => walkMembers [] members
  | .array elems => walkElems elems
  | _ => pure ()

/-- The loop over the keys of an object, with the names seen so far. -/
def walkMembers (seen : List String) : List (String × Json) → Except String Unit
  | [] => pure ()
  | (name, value) :: members => do
      rejectIf (name ∈ seen) ("duplicate JSON key " ++ goQuote name)
      walk value
      walkMembers (name :: seen) members

def walkElems : List Json → Except String Unit
  | [] => pure ()
  | value :: elems => do
      walk value
      walkElems elems

end

def rejectDuplicateJSON (raw : List UInt8) : Except String Unit :=
  match documentOf raw with
  | none => .error jsonError
  | some tree => walk tree

/-! ## Readers -/

/-- The two passes of a strict reader into a type. -/
def decodeDocument (utf8Error : String) (ty : GoType) (raw : List UInt8) :
    Except String GoValue := do
  rejectIf ((bytesText raw).isNone) utf8Error
  rejectDuplicateJSON raw
  match (documentOf raw).bind (decodeValue ty ty.zero) with
  | some v => pure v
  | none => .error jsonError

def strictJSON (ty : GoType) (raw : List UInt8) : Except String GoValue :=
  decodeDocument "invalid UTF-8 JSON" ty raw

structure Request where
  op : String
  capacity : ℤ
  user : String
  account : String
  issue : String
  k : UInt32
  message : String
  timestamp : UInt64
  signature : String
  secondMessage : String
  secondSignature : String
  deriving DecidableEq, Inhabited

def requestType : GoType :=
  .struct [("op", .string), ("capacity", .int 64), ("user", .string), ("account", .string),
    ("issue", .string), ("k", .uint 32), ("message_b64", .string), ("timestamp", .uint 64),
    ("signature_b64", .string), ("second_message_b64", .string), ("second_signature_b64", .string)]

/-- The request a decoded value of `requestType` holds. -/
def requestOf : GoValue → Request
  | .struct [.string op, .int capacity, .string user, .string account, .string issue, .int k,
      .string message, .int timestamp, .string signature, .string secondMessage,
      .string secondSignature] =>
      { op, capacity, user, account, issue, k := UInt32.ofNat k.toNat, message,
        timestamp := UInt64.ofNat timestamp.toNat, signature, secondMessage, secondSignature }
  | _ => default

def decodeRequest (raw : List UInt8) : Except String Request :=
  requestOf <$> decodeDocument "request is not valid UTF-8" requestType raw

/-! ## Document types -/

def artifactDigestType : GoType := .struct [("sha256", .string), ("bytes", .int 64)]

def circuitDescriptorType : GoType :=
  .struct [("sha256", .string), ("constraints", .int 64),
    ("public_variables_including_constant", .int 64), ("secret_variables", .int 64),
    ("internal_variables", .int 64), ("commitments", .int 64)]

def setupManifestType : GoType :=
  .struct [("format", .string), ("profile", .string), ("setup_kind", .string),
    ("pairing_curve", .string), ("standalone_curve", .string), ("pairing_scalar_order", .string),
    ("standalone_scalar_order", .string), ("gnark", .string), ("gnark_crypto", .string),
    ("circuit", circuitDescriptorType), ("capacity", .int 64), ("parameters", artifactDigestType),
    ("proving_key", artifactDigestType), ("verifying_key", artifactDigestType)]

def trustPolicyType : GoType :=
  .struct [("format", .string), ("namespace", .string), ("manifest_sha256", .string),
    ("setup_authority", .string), ("registry_authority", .string), ("registry_epoch", .uint 64),
    ("issue", .string), ("k", .uint 32)]

def authorityEnvelopeType : GoType :=
  .struct [("payload_b64", .string), ("signature_b64", .string)]

def setupApprovalType : GoType :=
  .struct [("format", .string), ("namespace", .string), ("manifest_sha256", .string),
    ("not_before", .int 64), ("not_after", .int 64)]

def enrollmentType : GoType :=
  .struct [("user_id", .string), ("account_id", .string), ("u", .string), ("y", .string),
    ("d", .string), ("challenge", .string), ("commitment", .string), ("response", .string)]

def registryAuthorizationType : GoType :=
  .struct [("format", .string), ("namespace", .string), ("manifest_sha256", .string),
    ("epoch", .uint 64), ("not_before", .int 64), ("not_after", .int 64), ("issue", .string),
    ("k", .uint 32), ("entries", .slice enrollmentType)]

def publicAccountEncodingType : GoType := .struct [("u", .string), ("y", .string)]

def publicContextEncodingType : GoType :=
  .struct [("format", .string), ("issue", .string), ("k", .uint 32),
    ("accounts", .slice publicAccountEncodingType)]

def vaultCounterType : GoType := .struct [("next", .uint 32), ("k", .uint 32)]

def vaultStateType : GoType :=
  .struct [("x", .string), ("counters", .map vaultCounterType)]

/-- The types `strictJSON` is called with. -/
def strictTypes : List GoType :=
  [setupManifestType, trustPolicyType, authorityEnvelopeType, setupApprovalType,
    registryAuthorizationType, publicContextEncodingType, vaultStateType]

theorem requestType_foldDistinct : requestType.foldDistinct = true := by decide

theorem strictTypes_foldDistinct : ∀ ty ∈ strictTypes, ty.foldDistinct = true := by
  simp only [strictTypes, List.forall_mem_cons, List.not_mem_nil, false_implies, implies_true,
    and_true]
  decide

/-! ## What the readers accept -/

mutual

/-- The walk accepts exactly the values in which no object repeats a key. -/
theorem walk_eq_ok : ∀ (j : Json) (u : Unit), walk j = .ok u ↔ DistinctKeys j
  | .null, _ => by simp only [walk, pure_eq_ok, true_iff]; exact nofun
  | .bool _, _ => by simp only [walk, pure_eq_ok, true_iff]; exact nofun
  | .number _, _ => by simp only [walk, pure_eq_ok, true_iff]; exact nofun
  | .string _, _ => by simp only [walk, pure_eq_ok, true_iff]; exact nofun
  | .array elems, u => by
      rw [walk, walkElems_eq_ok elems u, distinctKeys_array]
  | .object members, u => by
      rw [walk, walkMembers_eq_ok members [] u, distinctKeys_object]
      simp

/-- The names still to come are new and distinct, and their values walk. -/
theorem walkMembers_eq_ok : ∀ (members : List (String × Json)) (seen : List String) (u : Unit),
    walkMembers seen members = .ok u ↔
      (∀ name ∈ members.map Prod.fst, name ∉ seen) ∧ (members.map Prod.fst).Nodup ∧
        ∀ m ∈ members, DistinctKeys m.2
  | [], _, _ => by simp [walkMembers]
  | (name, value) :: members, seen, u => by
      simp only [walkMembers, bind_eq_ok, rejectIf_eq_ok, walk_eq_ok value,
        walkMembers_eq_ok members (name :: seen), List.map_cons, List.nodup_cons, List.mem_cons,
        not_or, or_imp, forall_and, forall_eq]
      constructor
      · rintro ⟨_, hname, _, hvalue, ⟨hnew, hrest⟩, hnodup, hvalues⟩
        exact ⟨⟨hname, hrest⟩, ⟨fun hmem => hnew name hmem rfl, hnodup⟩, hvalue, hvalues⟩
      · rintro ⟨⟨hname, hrest⟩, ⟨hnew, hnodup⟩, hvalue, hvalues⟩
        refine ⟨(), hname, (), hvalue, ⟨fun n hn heq => ?_, hrest⟩, hnodup, hvalues⟩
        exact hnew (heq ▸ hn)

theorem walkElems_eq_ok : ∀ (elems : List Json) (u : Unit),
    walkElems elems = .ok u ↔ ∀ v ∈ elems, DistinctKeys v
  | [], _ => by simp [walkElems]
  | value :: elems, u => by
      simp [walkElems, walk_eq_ok value, walkElems_eq_ok elems]

end

theorem decodeDocument_eq_ok {utf8Error : String} {ty : GoType} {raw : List UInt8} {v : GoValue} :
    decodeDocument utf8Error ty raw = .ok v ↔
      ∃ tree, documentOf raw = some tree ∧ DistinctKeys tree ∧
        decodeValue ty ty.zero tree = some v := by
  unfold decodeDocument rejectDuplicateJSON
  cases htree : documentOf raw with
  | none => simp
  | some tree =>
      have htext : (bytesText raw).isNone = false := by
        cases hraw : bytesText raw with
        | none => simp [documentOf, hraw] at htree
        | some text => rfl
      cases hv : decodeValue ty ty.zero tree <;> simp [htext, hv, walk_eq_ok]

/-- A strict reader returns the value a document encodes, however the document is laid out. -/
theorem decodeDocument_encodeValue {utf8Error : String} {ty : GoType} {v : GoValue}
    {raw : List UInt8} (hd : ty.foldDistinct = true) (ht : HasType ty v)
    (h : documentOf raw = some (encodeValue ty v)) :
    decodeDocument utf8Error ty raw = .ok v :=
  decodeDocument_eq_ok.2 ⟨encodeValue ty v, h, distinctKeys_encodeValue v ty hd ht,
    decodeValue_encodeValue v ty hd ht⟩

/-- A strict reader returns the value whose text it is given. -/
theorem decodeDocument_marshal {utf8Error : String} {ty : GoType} {v : GoValue}
    (hd : ty.foldDistinct = true) (ht : HasType ty v) :
    decodeDocument utf8Error ty (textBytes (String.ofList (marshal ty v))) = .ok v := by
  apply decodeDocument_encodeValue hd ht
  rw [documentOf, bytesText_textBytes, Option.bind_some, String.toList_ofList, marshal,
    Json.parse_render (numbersOk_encodeValue ty v)]

/-- A strict reader's document: its reading is single exactly when its struct keys stay distinct
under folding, and then every order of their members is read alike. -/
theorem decodeDocument_reading {utf8Error : String} {ty : GoType} {raw : List UInt8} {v : GoValue}
    (hd : ty.foldDistinct = true) (h : decodeDocument utf8Error ty raw = .ok v) :
    ∃ tree, documentOf raw = some tree ∧
      (SingleAssignment ty tree ↔ FoldDistinctKeys ty tree) ∧
      (FoldDistinctKeys ty tree → ∀ raw' tree', documentOf raw' = some tree' →
        Reordered ty tree tree' → decodeDocument utf8Error ty raw' = .ok v) := by
  obtain ⟨tree, htree, hkeys, hv⟩ := decodeDocument_eq_ok.1 h
  have hiff := singleAssignment_iff hd hv
  refine ⟨tree, htree, hiff, ?_⟩
  intro hfold raw' tree' htree' hre
  have hv' := decodeValue_reordered hre (hiff.2 hfold) ty.zero
  exact decodeDocument_eq_ok.2 ⟨tree', htree', hkeys.reordered hre, hv' ▸ hv⟩

/-- An accepted document assigns no field twice exactly when no object decoded into a struct has
two keys that are equal under case folding; the decoded value then does not depend on the order of
the members of such objects. -/
theorem document_single_assignment_iff (raw : List UInt8) :
    (∀ q, decodeRequest raw = .ok q → ∃ tree, documentOf raw = some tree ∧
      (SingleAssignment requestType tree ↔ FoldDistinctKeys requestType tree) ∧
      (FoldDistinctKeys requestType tree → ∀ raw' tree', documentOf raw' = some tree' →
        Reordered requestType tree tree' → decodeRequest raw' = .ok q)) ∧
    ∀ ty ∈ strictTypes, ∀ v, strictJSON ty raw = .ok v → ∃ tree, documentOf raw = some tree ∧
      (SingleAssignment ty tree ↔ FoldDistinctKeys ty tree) ∧
      (FoldDistinctKeys ty tree → ∀ raw' tree', documentOf raw' = some tree' →
        Reordered ty tree tree' → strictJSON ty raw' = .ok v) := by
  constructor
  · intro q hq
    obtain ⟨v, hv, hof⟩ := functor_map_eq_ok.1 hq
    obtain ⟨tree, htree, hiff, hre⟩ := decodeDocument_reading requestType_foldDistinct hv
    refine ⟨tree, htree, hiff, fun hfold raw' tree' htree' hreordered => ?_⟩
    exact functor_map_eq_ok.2 ⟨v, hre hfold raw' tree' htree' hreordered, hof⟩
  · intro ty hty v hv
    exact decodeDocument_reading (strictTypes_foldDistinct ty hty) hv

theorem documentOf_textBytes {text : String} {tree : Json} (h : Json.parse text.toList = some tree) :
    documentOf (textBytes text) = some tree := by
  rw [documentOf, bytesText_textBytes]
  exact h

/-- An object of scalars is the only object a decoder meets. -/
theorem decodedAsStruct_flat {fields fields' : List (String × GoType)}
    {members members' : List (String × Json)} (hflat : ∀ m ∈ members, ∃ s, m.2 = .string s)
    (hin : DecodedAsStruct (.struct fields) (.object members) fields' members') :
    fields' = fields ∧ members' = members := by
  cases hin with
  | here => exact ⟨rfl, rfl⟩
  | field hmem _ _ hin =>
      obtain ⟨s, hs⟩ := hflat _ hmem
      simp only at hs
      subst hs
      cases hin

/-- The premises are met: a plain request and a plain authority envelope are read, and swapping
the envelope's members changes nothing. -/
theorem document_single_assignment_iff_sample :
    (∃ tree, documentOf (textBytes "\x7b\"op\":\"info\"\x7d") = some tree ∧
      (SingleAssignment requestType tree ↔ FoldDistinctKeys requestType tree)) ∧
    strictJSON authorityEnvelopeType
        (textBytes "\x7b\"signature_b64\":\"AA==\",\"payload_b64\":\"\"\x7d") =
      .ok (.struct [.string "", .string "AA=="]) := by
  have hrequest : decodeRequest (textBytes "\x7b\"op\":\"info\"\x7d") =
      .ok { (default : Request) with op := "info" } := by
    refine functor_map_eq_ok.2 ⟨_, decodeDocument_eq_ok.2 ⟨.object [("op", .string "info")],
      documentOf_textBytes (by rfl), (walk_eq_ok _ ()).1 (by rfl), by rfl⟩, by rfl⟩
  have henvelope : strictJSON authorityEnvelopeType
      (textBytes "\x7b\"payload_b64\":\"\",\"signature_b64\":\"AA==\"\x7d") =
      .ok (.struct [.string "", .string "AA=="]) :=
    decodeDocument_eq_ok.2 ⟨.object [("payload_b64", .string ""), ("signature_b64", .string "AA==")],
      documentOf_textBytes (by rfl), (walk_eq_ok _ ()).1 (by rfl), by rfl⟩
  obtain ⟨tree, htree, hiff, -⟩ := (document_single_assignment_iff _).1 _ hrequest
  obtain ⟨tree', htree', -, hre⟩ := (document_single_assignment_iff _).2 authorityEnvelopeType
    (by simp [strictTypes]) _ henvelope
  obtain rfl : Json.object [("payload_b64", .string ""), ("signature_b64", .string "AA==")] = tree' :=
    Option.some.inj ((documentOf_textBytes (by rfl)).symm.trans htree')
  refine ⟨⟨tree, htree, hiff⟩, hre ?_ _ _ (documentOf_textBytes (by rfl)) (.members (.swap _ _ _))⟩
  intro fields members hin
  obtain ⟨-, rfl⟩ := decodedAsStruct_flat (by simp) hin
  decide

/-- A document with two spellings of one key. -/
def variantDocument : List UInt8 := textBytes "\x7b\"op\":\"info\",\"Op\":\"setup\"\x7d"

def variantTree : Json := .object [("op", .string "info"), ("Op", .string "setup")]

/-- The same members in the other order. -/
def variantDocumentSwapped : List UInt8 := textBytes "\x7b\"Op\":\"setup\",\"op\":\"info\"\x7d"

/-- The document is accepted although both keys are assigned to `op`, and what it is read as
depends on the order of its members. -/
theorem case_variant_keys_accepted :
    documentOf variantDocument = some variantTree ∧
      ¬ SingleAssignment requestType variantTree ∧
      decodeRequest variantDocument = .ok { (default : Request) with op := "setup" } ∧
      decodeRequest variantDocumentSwapped = .ok { (default : Request) with op := "info" } := by
  refine ⟨documentOf_textBytes (by rfl), ?_, ?_, ?_⟩
  · intro h
    have hpair := h _ _ .here
    exact (List.pairwise_cons.1 hpair).1 "Op" (by simp) (by decide)
  · exact functor_map_eq_ok.2 ⟨_, decodeDocument_eq_ok.2 ⟨variantTree,
      documentOf_textBytes (by rfl), (walk_eq_ok _ ()).1 (by rfl), by rfl⟩, by rfl⟩
  · exact functor_map_eq_ok.2 ⟨_, decodeDocument_eq_ok.2
      ⟨.object [("Op", .string "setup"), ("op", .string "info")],
        documentOf_textBytes (by rfl), (walk_eq_ok _ ()).1 (by rfl), by rfl⟩, by rfl⟩

end Lktrs.NativeProof
