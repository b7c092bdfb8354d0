import Lktrs.Foundation.JsonIndent
import Lktrs.NativeProof.HostCircuit
import Lktrs.NativeProof.Trust

/-!
# Exported verification contexts

`context.go`: the ring, issue and quota of a verification context as a JSON
document, without the account exponents and without the parameters, which the
reader brings along. The exponents are metadata: no function a verifier calls
depends on them, so the context that is read back decides like the one that was
exported (`exported_context_decides_alike`).
-/

set_option autoImplicit false

namespace Lktrs.NativeProof

open Lktrs.Foundation

def maxPublicContextBytes : ℕ := 16 * 2 ^ 20

structure PublicAccountEncoding where
  u : String
  y : String
  deriving DecidableEq

structure PublicContextEncoding where
  format : String
  issue : String
  k : UInt32
  accounts : List PublicAccountEncoding
  deriving DecidableEq

def PublicAccountEncoding.value (a : PublicAccountEncoding) : GoValue :=
  .struct [.string a.u, .string a.y]

def publicAccountEncodingOf : GoValue → PublicAccountEncoding
  | .struct [.string u, .string y] => ⟨u, y⟩
  | _ => ⟨"", ""⟩

def PublicContextEncoding.value (c : PublicContextEncoding) : GoValue :=
  .struct [.string c.format, .string c.issue, .int c.k.toNat,
    .slice (c.accounts.map PublicAccountEncoding.value)]

def publicContextEncodingOf : GoValue → PublicContextEncoding
  | .struct [.string format, .string issue, .int k, accounts] =>
      ⟨format, issue, UInt32.ofNat k.toNat, (sliceElems accounts).map publicAccountEncodingOf⟩
  | _ => ⟨"", "", 0, []⟩

/-- What `MarshalVerificationContext` writes of a context. -/
def VerificationContext.encoding (ctx : VerificationContext) : PublicContextEncoding where
  format := "lktrs/context/v1"
  issue := hexEncode ctx.issue.toList
  k := ctx.k
  accounts := ctx.accounts.map fun a =>
    ⟨hexEncode (encodeSecpPoint a.u), hexEncode (encodeSecpPoint a.y)⟩

/-- `json.MarshalIndent` with two blanks for each level. -/
def indentedBytes (ty : GoType) (v : GoValue) : List UInt8 :=
  textBytes (String.ofList ((encodeValue ty v).renderIndent 0))

def marshalVerificationContext (ctx : VerificationContext) : Except String (List UInt8) := do
  let raw := indentedBytes publicContextEncodingType ctx.encoding.value
  rejectIf (raw.length + 1 > maxPublicContextBytes) "public context exceeds size budget"
  return raw ++ textBytes "\n"

section Reader

variable (lib : GnarkCrypto)

/-- One coordinate text of an account. -/
def decodeCoordinates (s : String) : Except String Secp256k1G1 :=
  decodePointHex lib "noncanonical account coordinates" s

/-- The loop over the entries still to read. -/
def decodePublicAccounts : List PublicAccountEncoding → Except String (List Account)
  | [] => .ok []
  | entry :: rest => do
      let u ← decodeCoordinates lib entry.u
      let y ← decodeCoordinates lib entry.y
      let accounts ← decodePublicAccounts rest
      return { u, y, d := none } :: accounts

def unmarshalVerificationContext (params : Params) (raw : List UInt8) :
    Except String VerificationContext := do
  rejectIf (raw.length > maxPublicContextBytes) "oversized public context"
  let encoding ← publicContextEncodingOf <$> strictJSON publicContextEncodingType raw
  rejectIf (encoding.format ≠ "lktrs/context/v1" ∨
      (encoding.accounts.length : ℤ) > (params.powers.length : ℤ) - 1)
    "invalid public context format or capacity"
  let issue ← decodeIssue encoding.issue
  let accounts ← decodePublicAccounts lib encoding.accounts
  newVerificationContext lib params accounts issue encoding.k

end Reader

/-! ## Accounts without exponent -/

/-- The account as others see it. -/
def Account.withoutD (a : Account) : Account := { a with d := none }

/-- The context as others see it. -/
def VerificationContext.withoutD (ctx : VerificationContext) : VerificationContext :=
  { ctx with accounts := ctx.accounts.map Account.withoutD }

theorem map_handle_withoutD (accounts : List Account) :
    (accounts.map Account.withoutD).map handle = accounts.map handle := by
  rw [List.map_map]
  exact List.map_congr_left fun _ _ => rfl

theorem ringInput_withoutD (accounts : List Account) :
    ringInput (accounts.map Account.withoutD) = ringInput accounts := by
  rw [ringInput, ringInput, ringPoints, List.flatMap_map, List.length_map]
  rfl

variable {lib : GnarkCrypto}

theorem member_withoutD {accounts : List Account}
    (h : ∀ a ∈ accounts, member lib a = .ok (handle a)) :
    ∀ a ∈ accounts.map Account.withoutD, member lib a = .ok (handle a) := by
  intro a ha
  obtain ⟨b, hb, rfl⟩ := List.mem_map.1 ha
  exact member_without_d lib (h b hb)

/-- The accumulator of a ring does not depend on the exponents. -/
theorem accumulate_withoutD {p : Params} {accounts : List Account} {v : Bn254G1}
    (h : accumulate lib p accounts = .ok v) :
    accumulate lib p (accounts.map Account.withoutD) = .ok v := by
  have hvalid := validateParams_of_accumulate lib h
  obtain ⟨τ, n, _, _, _, rfl⟩ := (validateParams_eq_ok lib).1 hvalid
  obtain ⟨hlen, hall, hnodup, hprod, hv⟩ := (accumulate_eq_product lib hvalid).1 h
  apply (accumulate_eq_product lib hvalid).2
  rw [map_handle_withoutD, List.length_map]
  exact ⟨hlen, member_withoutD hall, hnodup, hprod, hv⟩

theorem ringDigest_withoutD {accounts : List Account} {rd : FixedBytes 32}
    (h : ringDigest lib accounts = .ok rd) :
    ringDigest lib (accounts.map Account.withoutD) = .ok rd := by
  obtain ⟨⟨ms, hms⟩, rfl⟩ := (ringDigest_eq_ok lib).1 h
  obtain ⟨hne, hlen, hall, rfl, hnodup⟩ := (membersOf_eq_map lib).1 hms
  refine (ringDigest_eq_ok lib).2 ⟨⟨accounts.map handle, ?_⟩, ?_⟩
  · apply (membersOf_eq_map lib).2
    rw [map_handle_withoutD]
    exact ⟨by simpa using hne, by simpa using hlen, member_withoutD hall, rfl, hnodup⟩
  · rw [ringInput_withoutD]

/-- A context built without the exponents is the context without them. -/
theorem newVerificationContext_withoutD {p : Params} {accounts : List Account}
    {issue : FixedBytes 32} {k : UInt32} {ctx : VerificationContext}
    (h : newVerificationContext lib p accounts issue k = .ok ctx) :
    newVerificationContext lib p (accounts.map Account.withoutD) issue k = .ok ctx.withoutD := by
  obtain ⟨hk, hvalid, ⟨v, hv⟩, rd, hrd, rfl⟩ := (newVerificationContext_eq_ok lib).1 h
  exact (newVerificationContext_eq_ok lib).2
    ⟨hk, hvalid, ⟨v, accumulate_withoutD hv⟩, rd, ringDigest_withoutD hrd, rfl⟩

/-- A check reads the exponents only through the accumulator, which does not depend on them. -/
theorem check_withoutD {p : Params} {accounts : List Account} {issue : FixedBytes 32} {k : UInt32}
    {ctx : VerificationContext} (h : newVerificationContext lib p accounts issue k = .ok ctx)
    (message : List UInt8) (st : Statement) :
    ctx.withoutD.check lib message st = ctx.check lib message st := by
  obtain ⟨_, _, ⟨v, hv⟩, rd, _, rfl⟩ := (newVerificationContext_eq_ok lib).1 h
  unfold VerificationContext.check VerificationContext.withoutD
  rw [hv, accumulate_withoutD hv]

/-! ## Reading an exported context -/

theorem decodeCoordinates_eq_ok {s : String} {p : Secp256k1G1} :
    decodeCoordinates lib s = .ok p ↔
      s = hexEncode (encodeSecpPoint p) ∧ goodSecp lib p = true :=
  decodePointHex_eq_ok lib

theorem decodePublicAccounts_eq_ok {entries : List PublicAccountEncoding}
    {accounts : List Account} :
    decodePublicAccounts lib entries = .ok accounts ↔
      (entries = accounts.map fun a =>
        ⟨hexEncode (encodeSecpPoint a.u), hexEncode (encodeSecpPoint a.y)⟩) ∧
      ∀ a ∈ accounts, goodSecp lib a.u = true ∧ goodSecp lib a.y = true ∧ a.d = none := by
  induction entries generalizing accounts with
  | nil =>
      rw [decodePublicAccounts, Except.ok.injEq]
      constructor
      · rintro rfl
        simp
      · rintro ⟨hmap, _⟩
        exact (List.map_eq_nil_iff.1 hmap.symm).symm
  | cons entry rest ih =>
      simp only [decodePublicAccounts, bind_eq_ok, pure_eq_ok, decodeCoordinates_eq_ok, ih]
      constructor
      · rintro ⟨u, ⟨hu, hugood⟩, y, ⟨hy, hygood⟩, accounts, ⟨rfl, hall⟩, rfl⟩
        refine ⟨?_, List.forall_mem_cons.2 ⟨⟨hugood, hygood, rfl⟩, hall⟩⟩
        rw [List.map_cons, ← hu, ← hy]
      · rintro ⟨hmap, hall⟩
        cases accounts with
        | nil => cases hmap
        | cons a accounts =>
            rw [List.map_cons, List.cons.injEq] at hmap
            obtain ⟨⟨hugood, hygood, hd⟩, hrest⟩ := List.forall_mem_cons.1 hall
            obtain ⟨u, y, d⟩ := a
            obtain rfl : d = none := hd
            exact ⟨u, ⟨by rw [hmap.1], hugood⟩, y, ⟨by rw [hmap.1], hygood⟩, accounts,
              ⟨hmap.2, hrest⟩, rfl⟩

theorem publicContextEncodingOf_value (c : PublicContextEncoding) :
    publicContextEncodingOf c.value = c := by
  have haccounts : (c.accounts.map PublicAccountEncoding.value).map publicAccountEncodingOf =
      c.accounts := by
    rw [List.map_map]
    exact List.map_id c.accounts
  simp only [PublicContextEncoding.value, publicContextEncodingOf, sliceElems, haccounts,
    Int.toNat_natCast, UInt32.ofNat_toNat]

theorem hasType_publicAccountEncoding (a : PublicAccountEncoding) :
    HasType publicAccountEncodingType a.value :=
  ⟨rfl, rfl, rfl⟩

theorem hasType_publicContextEncoding (c : PublicContextEncoding) :
    HasType publicContextEncodingType c.value := by
  refine ⟨rfl, rfl, hasType_uint32 c.k, ?_, rfl⟩
  exact elemsHaveType_map hasType_publicAccountEncoding c.accounts

/-- A document in indented form, with its last line ended, is read as the value it was written
from. -/
theorem strictJSON_indentedBytes {ty : GoType} {v : GoValue} (hd : ty.foldDistinct = true)
    (ht : HasType ty v) : strictJSON ty (indentedBytes ty v ++ textBytes "\n") = .ok v := by
  apply decodeDocument_encodeValue hd ht
  have htext : ((String.ofList ((encodeValue ty v).renderIndent 0)) ++ "\n").toList =
      (encodeValue ty v).renderIndent 0 ++ ['\n'] := by
    simp
  rw [documentOf, indentedBytes, ← textBytes_append, bytesText_textBytes, Option.bind_some, htext,
    Json.parse_renderIndent (numbersOk_encodeValue ty v)]

theorem marshalVerificationContext_eq_ok {ctx : VerificationContext} {raw : List UInt8} :
    marshalVerificationContext ctx = .ok raw ↔
      raw.length ≤ maxPublicContextBytes ∧
        raw = indentedBytes publicContextEncodingType ctx.encoding.value ++ textBytes "\n" := by
  have hend : (textBytes "\n").length = 1 := by decide
  simp only [marshalVerificationContext, bind_eq_ok, rejectIf_eq_ok, pure_eq_ok, gt_iff_lt, not_lt]
  constructor
  · rintro ⟨_, hsize, hraw⟩
    rw [← hraw, List.length_append, hend]
    exact ⟨hsize, rfl⟩
  · rintro ⟨hsize, hraw⟩
    rw [hraw, List.length_append, hend] at hsize
    exact ⟨(), hsize, hraw.symm⟩

/-- A context is exported exactly when its text and the line break fit the bound. -/
theorem exists_marshalVerificationContext {ctx : VerificationContext} :
    (∃ raw, marshalVerificationContext ctx = .ok raw) ↔
      (indentedBytes publicContextEncodingType ctx.encoding.value).length <
        maxPublicContextBytes := by
  simp only [marshalVerificationContext, bind_eq_ok, rejectIf_eq_ok, pure_eq_ok]
  constructor
  · rintro ⟨raw, _, hsize, _⟩
    exact not_lt.1 hsize
  · intro hsize
    exact ⟨_, (), not_lt.2 hsize, rfl⟩

/-- What reading an exported context checks. -/
theorem unmarshalVerificationContext_eq_ok {params : Params} {raw : List UInt8}
    {ctx : VerificationContext} :
    unmarshalVerificationContext lib params raw = .ok ctx ↔
      raw.length ≤ maxPublicContextBytes ∧ ∃ v issue accounts,
        strictJSON publicContextEncodingType raw = .ok v ∧
        (publicContextEncodingOf v).format = "lktrs/context/v1" ∧
        ((publicContextEncodingOf v).accounts.length : ℤ) ≤ (params.powers.length : ℤ) - 1 ∧
        decodeIssue (publicContextEncodingOf v).issue = .ok issue ∧
        decodePublicAccounts lib (publicContextEncodingOf v).accounts = .ok accounts ∧
        newVerificationContext lib params accounts issue (publicContextEncodingOf v).k = .ok ctx := by
  simp only [unmarshalVerificationContext, bind_eq_ok, rejectIf_eq_ok, functor_map_eq_ok, not_or,
    not_not, gt_iff_lt, not_lt]
  constructor
  · rintro ⟨_, hsize, _, ⟨v, hv, rfl⟩, _, ⟨hformat, hcap⟩, issue, hissue, accounts, haccounts, hctx⟩
    exact ⟨hsize, v, issue, accounts, hv, hformat, hcap, hissue, haccounts, hctx⟩
  · rintro ⟨hsize, v, issue, accounts, hv, hformat, hcap, hissue, haccounts, hctx⟩
    exact ⟨(), hsize, _, ⟨v, hv, rfl⟩, (), ⟨hformat, hcap⟩, issue, hissue, accounts, haccounts,
      hctx⟩

/-- A document of bounded size that stands for a context is read as that context without the
exponents, in whatever form it is written. -/
theorem unmarshal_of_strictJSON {p : Params} {accounts : List Account} {issue : FixedBytes 32}
    {k : UInt32} {ctx : VerificationContext} {raw : List UInt8}
    (hctx : newVerificationContext lib p accounts issue k = .ok ctx)
    (hsize : raw.length ≤ maxPublicContextBytes)
    (hread : strictJSON publicContextEncodingType raw = .ok ctx.encoding.value) :
    unmarshalVerificationContext lib p raw = .ok ctx.withoutD := by
  have hpublic := newVerificationContext_withoutD hctx
  obtain ⟨_, _, ⟨v, hv⟩, rd, _, rfl⟩ := (newVerificationContext_eq_ok lib).1 hctx
  obtain ⟨hmembers, _, hcap⟩ := accumulate_members lib hv
  refine unmarshalVerificationContext_eq_ok.2 ⟨hsize, _, issue, accounts.map Account.withoutD,
    hread, ?_⟩
  rw [publicContextEncodingOf_value]
  refine ⟨rfl, ?_, decodeIssue_hexDigest issue, ?_, hpublic⟩
  · rw [Params.capacity] at hcap
    simp only [VerificationContext.encoding, List.length_map]
    obtain ⟨_, _, _, _, hmin, _⟩ := validateParams_good lib (validateParams_of_accumulate lib hv)
    omega
  · apply decodePublicAccounts_eq_ok.2
    refine ⟨?_, ?_⟩
    · simp only [VerificationContext.encoding, List.map_map]
      rfl
    · intro a ha
      obtain ⟨b, hb, rfl⟩ := List.mem_map.1 ha
      obtain ⟨hvalid, _⟩ := (member_eq_ok lib).1 (hmembers b hb)
      obtain ⟨hu, hy, _⟩ := (validateAccount_eq_ok lib).1 hvalid
      exact ⟨hu, hy, rfl⟩

theorem publicContextEncodingType_foldDistinct : publicContextEncodingType.foldDistinct = true :=
  strictTypes_foldDistinct publicContextEncodingType (by simp [strictTypes])

/-- An exported context is read back without the exponents. -/
theorem unmarshal_marshalVerificationContext {p : Params} {accounts : List Account}
    {issue : FixedBytes 32} {k : UInt32} {ctx : VerificationContext} {raw : List UInt8}
    (hctx : newVerificationContext lib p accounts issue k = .ok ctx)
    (hraw : marshalVerificationContext ctx = .ok raw) :
    unmarshalVerificationContext lib p raw = .ok ctx.withoutD := by
  obtain ⟨hsize, hbytes⟩ := marshalVerificationContext_eq_ok.1 hraw
  apply unmarshal_of_strictJSON hctx hsize
  rw [hbytes]
  exact strictJSON_indentedBytes publicContextEncodingType_foldDistinct
    (hasType_publicContextEncoding ctx.encoding)

/-- The accounts of a context that was read have no exponents. -/
theorem withoutD_of_unmarshal {p : Params} {raw : List UInt8} {ctx : VerificationContext}
    (h : unmarshalVerificationContext lib p raw = .ok ctx) :
    ctx.withoutD = ctx ∧
      ∃ accounts, newVerificationContext lib p accounts ctx.issue ctx.k = .ok ctx := by
  obtain ⟨_, v, issue, accounts, _, _, _, _, haccounts, hctx⟩ :=
    unmarshalVerificationContext_eq_ok.1 h
  obtain ⟨_, hall⟩ := decodePublicAccounts_eq_ok.1 haccounts
  obtain ⟨_, _, _, rd, _, rfl⟩ := (newVerificationContext_eq_ok lib).1 hctx
  refine ⟨?_, accounts, hctx⟩
  have hnone : ∀ a ∈ accounts, a.withoutD = id a := by
    intro a ha
    obtain ⟨u, y, d⟩ := a
    obtain rfl : d = none := (hall _ ha).2.2
    rfl
  rw [VerificationContext.withoutD, List.map_congr_left hnone, List.map_id]

/-- A context whose document fits the size bound, and no other, can be exported. One that can be
exported is read back, under the same parameters, with the same issue, quota, digest and points and
without exponents, and decides every statement alike. A context that was read is read back from its
own export. -/
theorem exported_context_decides_alike (p : Params) :
    (∀ ctx : VerificationContext, (∃ raw, marshalVerificationContext ctx = .ok raw) ↔
      (indentedBytes publicContextEncodingType ctx.encoding.value).length <
        maxPublicContextBytes) ∧
    (∀ (accounts : List Account) (issue : FixedBytes 32) (k : UInt32) (ctx : VerificationContext)
      (raw : List UInt8), newVerificationContext lib p accounts issue k = .ok ctx →
      marshalVerificationContext ctx = .ok raw →
      ∃ ctx', unmarshalVerificationContext lib p raw = .ok ctx' ∧ ctx'.issue = ctx.issue ∧
        ctx'.k = ctx.k ∧ ctx'.vDigest = ctx.vDigest ∧
        ctx'.accounts = ctx.accounts.map (fun a => { u := a.u, y := a.y, d := none }) ∧
        ∀ (message : List UInt8) (st : Statement),
          ctx'.check lib message st = ctx.check lib message st) ∧
    ∀ (raw raw' : List UInt8) (ctx : VerificationContext),
      unmarshalVerificationContext lib p raw = .ok ctx →
      marshalVerificationContext ctx = .ok raw' →
      unmarshalVerificationContext lib p raw' = .ok ctx := by
  refine ⟨?_, ?_, ?_⟩
  · intro ctx
    exact exists_marshalVerificationContext
  · intro accounts issue k ctx raw hctx hraw
    exact ⟨ctx.withoutD, unmarshal_marshalVerificationContext hctx hraw, rfl, rfl, rfl, rfl,
      check_withoutD hctx⟩
  · intro raw raw' ctx hread hraw
    obtain ⟨hsame, accounts, hctx⟩ := withoutD_of_unmarshal hread
    have hagain := unmarshal_marshalVerificationContext hctx hraw
    rwa [hsame] at hagain

/-- What is written of a context does not depend on the exponents. -/
theorem marshal_withoutD (ctx : VerificationContext) :
    marshalVerificationContext ctx.withoutD = marshalVerificationContext ctx := by
  have hencoding : ctx.withoutD.encoding = ctx.encoding := by
    simp only [VerificationContext.encoding, VerificationContext.withoutD, List.map_map]
    rfl
  rw [marshalVerificationContext, marshalVerificationContext, hencoding]

/-- The document of a context on one line. -/
def VerificationContext.compact (ctx : VerificationContext) : List UInt8 :=
  textBytes (String.ofList (marshal publicContextEncodingType ctx.encoding.value))

theorem sampleContext_size {ctx : VerificationContext} (h : sampleContext = .ok ctx) :
    (indentedBytes publicContextEncodingType ctx.encoding.value).length < maxPublicContextBytes ∧
      ctx.compact.length ≤ maxPublicContextBytes := by
  rw [sampleContext] at h
  obtain ⟨_, _, _, rd, _, rfl⟩ := (newVerificationContext_eq_ok exponentLib).1 h
  -- the texts are spelled out before they are measured
  simp only [indentedBytes, VerificationContext.compact, textBytes_ofList,
    VerificationContext.encoding, sampleRing, List.map_cons, List.map_nil,
    PublicContextEncoding.value, PublicAccountEncoding.value, publicContextEncodingType,
    publicAccountEncodingType, marshal, encodeValue, encodeFields, encodeElems, Json.renderIndent,
    indentMembers, indentElems, Json.render, renderMembers, renderElems, renderString, hexEncode,
    String.toList_ofList]
  decide +kernel

/-- The context of two accounts is exported and read back, and its compact document is read as the
same context, which is read back from its export. -/
theorem exported_context_decides_alike_sample :
    ∃ ctx raw ctx', sampleContext = .ok ctx ∧ marshalVerificationContext ctx = .ok raw ∧
      unmarshalVerificationContext exponentLib sampleParams raw = .ok ctx' ∧
      ctx'.accounts = ctx.accounts.map (fun a => { u := a.u, y := a.y, d := none }) ∧
      (∀ message st, ctx'.check exponentLib message st = ctx.check exponentLib message st) ∧
      ∃ raw' ctx'', unmarshalVerificationContext exponentLib sampleParams ctx.compact = .ok ctx'' ∧
        marshalVerificationContext ctx'' = .ok raw' ∧
        unmarshalVerificationContext exponentLib sampleParams raw' = .ok ctx'' := by
  obtain ⟨hfits, halike, hagain⟩ := @exported_context_decides_alike exponentLib sampleParams
  obtain ⟨ctx, hctx⟩ := sampleContext_ok
  obtain ⟨hindented, hcompact⟩ := sampleContext_size hctx
  obtain ⟨raw, hraw⟩ := (hfits ctx).2 hindented
  have hnew := hctx
  rw [sampleContext] at hnew
  obtain ⟨ctx', hread, -, -, -, haccounts, hcheck⟩ := halike _ _ _ _ _ hnew hraw
  have hdocument : strictJSON publicContextEncodingType ctx.compact = .ok ctx.encoding.value :=
    decodeDocument_marshal publicContextEncodingType_foldDistinct
      (hasType_publicContextEncoding ctx.encoding)
  have hread' := unmarshal_of_strictJSON hnew hcompact hdocument
  have hraw' : marshalVerificationContext ctx.withoutD = .ok raw := by
    rw [marshal_withoutD]
    exact hraw
  exact ⟨ctx, raw, ctx', hctx, hraw, hread, haccounts, hcheck, raw, ctx.withoutD, hread', hraw',
    hagain _ _ _ hread' hraw'⟩

end Lktrs.NativeProof
