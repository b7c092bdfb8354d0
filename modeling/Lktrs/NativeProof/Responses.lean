import Lktrs.NativeProof.Service
import Lktrs.Foundation.JsonRoundTrip

/-!
# Responses on the wire

`Handle` answers with `json.Marshal` of the response: the fields in the order of
the struct, those marked `omitempty` left out at their zero value. A client that
parses the text has the response again (`Response.read_bytes`).
-/

set_option autoImplicit false

namespace Lktrs.NativeProof

open Lktrs.Foundation

def TraceStatus.text : TraceStatus → String
  | .legal => "legal"
  | .replay => "replay"
  | .invalid => "invalid"
  | .traced => "traced"

/-- A text field marked `omitempty`. -/
def textField (key value : String) : List (String × Json) :=
  if value = "" then [] else [(key, .string value)]

/-- A flag marked `omitempty`. -/
def flagField (key : String) (value : Bool) : List (String × Json) :=
  if value = true then [(key, .bool true)] else []

/-- The members of the object a response is written as. -/
def Response.fields (r : Response) : List (String × Json) :=
  ("ok", .bool r.ok) :: (textField "error" r.error ++ (textField "version" r.version ++
    (textField "signature_b64" r.signature ++ (flagField "verified" r.verified ++
      (flagField "linked" r.linked ++ (textField "trace" ((r.trace.map TraceStatus.text).getD "") ++
        (textField "user" r.user ++ [("members", .number (integerText r.members))])))))))

/-- `json.Marshal` of a response. -/
def Response.bytes (r : Response) : List UInt8 :=
  textBytes (String.ofList (Json.object r.fields).render)

/-! ## Reading the fields back -/

theorem lookup_textField (key key' value : String) (rest : List (String × Json)) :
    (textField key value ++ rest).lookup key' =
      if key' = key ∧ ¬ value = "" then some (.string value) else rest.lookup key' := by
  unfold textField
  by_cases hvalue : value = ""
  · simp [hvalue]
  · by_cases hkey : key' = key
    · simp [hvalue, hkey]
    · simp [hvalue, hkey, List.lookup_cons, beq_false_of_ne hkey]

theorem lookup_flagField (key key' : String) (value : Bool) (rest : List (String × Json)) :
    (flagField key value ++ rest).lookup key' =
      if key' = key ∧ value = true then some (.bool true) else rest.lookup key' := by
  unfold flagField
  cases value with
  | false => simp
  | true =>
      by_cases hkey : key' = key
      · simp [hkey]
      · simp [hkey, List.lookup_cons, beq_false_of_ne hkey]

def readText : Option Json → String
  | some (.string s) => s
  | _ => ""

def readFlag : Option Json → Bool
  | some (.bool b) => b
  | _ => false

def readTrace (text : String) : Option TraceStatus :=
  [TraceStatus.legal, .replay, .invalid, .traced].find? fun status => status.text = text

def readMembers : Option Json → ℕ
  | some (.number literal) => ((integerLiteral literal).getD 0).toNat
  | _ => 0

/-- The response with these members, a missing one at its zero value. -/
def Response.ofFields (fields : List (String × Json)) : Response where
  ok := readFlag (fields.lookup "ok")
  error := readText (fields.lookup "error")
  version := readText (fields.lookup "version")
  signature := readText (fields.lookup "signature_b64")
  verified := readFlag (fields.lookup "verified")
  linked := readFlag (fields.lookup "linked")
  trace := readTrace (readText (fields.lookup "trace"))
  user := readText (fields.lookup "user")
  members := readMembers (fields.lookup "members")

theorem readText_field (value : String) :
    readText (if value = "" then none else some (.string value)) = value := by
  by_cases h : value = ""
  · simp [h, readText]
  · simp [h, readText]

theorem readFlag_field (value : Bool) :
    readFlag (if value = true then some (.bool true) else none) = value := by
  cases value <;> rfl

theorem readTrace_text (trace : Option TraceStatus) :
    readTrace ((trace.map TraceStatus.text).getD "") = trace := by
  cases trace with
  | none => decide
  | some status => cases status <;> decide

theorem Response.ofFields_fields (r : Response) : Response.ofFields r.fields = r := by
  obtain ⟨ok, error, version, signature, verified, linked, trace, user, members⟩ := r
  simp [Response.ofFields, Response.fields, lookup_textField, lookup_flagField, List.lookup_cons,
    readText_field, readFlag_field, readTrace_text, readMembers,
    show readFlag (some (.bool ok)) = ok from rfl]

theorem Response.writable (r : Response) : (Json.object r.fields).Writable := by
  have hstring (s : String) : (Json.string s).Writable := by
    simp [Json.Writable, NumbersOk, Json.lexemes]
  have hbool (b : Bool) : (Json.bool b).Writable := by
    simp [Json.Writable, NumbersOk, Json.lexemes]
  have hcount : (Json.number (integerText r.members)).Writable := by
    simp [Json.Writable, NumbersOk, Json.lexemes, isNumberLiteral_integerText]
  have htext (key value : String) : ∀ m ∈ textField key value, m.2.Writable := by
    intro m hm
    unfold textField at hm
    split_ifs at hm
    · cases hm
    · rw [List.mem_singleton.1 hm]
      exact hstring value
  have hflag (key : String) (value : Bool) : ∀ m ∈ flagField key value, m.2.Writable := by
    intro m hm
    unfold flagField at hm
    split_ifs at hm
    · rw [List.mem_singleton.1 hm]
      exact hbool true
    · cases hm
  apply Json.writable_object
  simp only [Response.fields, List.forall_mem_cons, List.forall_mem_append]
  exact ⟨hbool _, htext _ _, htext _ _, htext _ _, hflag _ _, hflag _ _, htext _ _, htext _ _, hcount,
    by simp⟩

/-- A response as a client reads it. -/
def Response.read (raw : List UInt8) : Option Response := do
  let text ← bytesText raw
  match Json.parse text.toList with
  | some (.object fields) => return .ofFields fields
  | _ => none

/-- A client reads what the service answered. -/
theorem Response.read_bytes (r : Response) : Response.read r.bytes = some r := by
  simp [Response.read, Response.bytes, Json.parse_render r.writable, r.ofFields_fields]

end Lktrs.NativeProof
