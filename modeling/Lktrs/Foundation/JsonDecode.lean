import Lktrs.Foundation.JsonRoundTrip

/-!
# Decoding JSON into typed values

Go's `encoding/json` on the types that carry documents: strings, sized
integers, structs, slices and maps with string keys. A key of an object that is
decoded into a struct goes to the field of that name or, when there is none, to
the field whose name equals it under case folding; a later assignment
overwrites; a key that matches no field is refused; `null` leaves a scalar or a
struct alone and clears a slice or a map. `unmarshal_marshal` is the round trip:
a value of a type whose field names are distinct under folding is read back
from its text.
-/

set_option autoImplicit false

namespace Lktrs.Foundation

/-- The types documents are decoded into. -/
inductive GoType where
  | string
  | int (bits : ℕ)
  | uint (bits : ℕ)
  | struct (fields : List (String × GoType))
  | slice (elem : GoType)
  | map (value : GoType)

inductive GoValue where
  | string (s : String)
  | int (z : ℤ)
  | struct (values : List GoValue)
  | nilSlice
  | slice (elems : List GoValue)
  | nilMap
  | map (entries : List (String × GoValue))
  deriving Inhabited

mutual

def GoType.zero : GoType → GoValue
  | .string => .string ""
  | .int _ => .int 0
  | .uint _ => .int 0
  | .struct fields => .struct (zeroFields fields)
  | .slice _ => .nilSlice
  | .map _ => .nilMap

def zeroFields : List (String × GoType) → List GoValue
  | [] => []
  | (_, ty) :: fields => ty.zero :: zeroFields fields

end

/-! ## Field names -/

/-- Simple case folding, as far as it can make a character equal to an ASCII one: the long s and
the Kelvin sign fold to ASCII letters. -/
def foldChar (c : Char) : Char :=
  if 'a' ≤ c ∧ c ≤ 'z' then Char.ofNat (c.toNat - 32)
  else if c.toNat = 0x17f then 'S'
  else if c.toNat = 0x212a then 'K'
  else c

def foldName (name : String) : List Char := name.toList.map foldChar

/-- The field a key is assigned to: an exact match first, then a match under folding. -/
def fieldFor (fields : List (String × GoType)) (key : String) : Option ℕ :=
  match fields.findIdx? fun f => f.1 = key with
  | some i => some i
  | none => fields.findIdx? fun f => foldName f.1 = foldName key

mutual

/-- Within every struct the field names stay distinct under folding. -/
def GoType.foldDistinct : GoType → Bool
  | .struct fields => decide (fields.map fun f => foldName f.1).Nodup && fieldsFoldDistinct fields
  | .slice elem => elem.foldDistinct
  | .map value => value.foldDistinct
  | _ => true

def fieldsFoldDistinct : List (String × GoType) → Bool
  | [] => true
  | (_, ty) :: fields => ty.foldDistinct && fieldsFoldDistinct fields

end

/-! ## Decoding -/

def GoType.decodeNull (current : GoValue) : GoType → GoValue
  | .slice _ => .nilSlice
  | .map _ => .nilMap
  | _ => current

def GoType.decodeString (s : String) : GoType → Option GoValue
  | .string => some (.string s)
  | _ => none

/-- Only a literal without fraction and exponent, and for unsigned types without sign. -/
def GoType.decodeNumber (literal : List Char) : GoType → Option GoValue
  | .int bits =>
      (integerLiteral literal).bind fun z =>
        if -2 ^ (bits - 1) ≤ z ∧ z < 2 ^ (bits - 1) then some (.int z) else none
  | .uint bits =>
      (naturalLiteral literal).bind fun n => if n < 2 ^ bits then some (.int n) else none
  | _ => none

def GoValue.structValues : GoValue → List GoValue
  | .struct values => values
  | _ => []

def GoValue.mapEntries : GoValue → List (String × GoValue)
  | .map entries => entries
  | _ => []

/-- Store under a key of a map. -/
def storeEntry (entries : List (String × GoValue)) (key : String) (v : GoValue) :
    List (String × GoValue) :=
  entries.filter (fun e => e.1 ≠ key) ++ [(key, v)]

mutual

/-- Decode into a variable that holds `current`. -/
def decodeValue (ty : GoType) (current : GoValue) : Json → Option GoValue
  | .null => some (ty.decodeNull current)
  | .bool _ => none
  | .number literal => ty.decodeNumber literal
  | .string s => ty.decodeString s
  | .array elems =>
      match ty with
      | .slice elem => (decodeElems elem elems).map .slice
      | _ => none
  | .object members =>
      match ty with
      | .struct fields => (decodeMembers fields current.structValues members).map .struct
      | .map value => (decodeEntries value current.mapEntries members).map .map
      | _ => none

/-- The slice is reset and each element is appended. It starts from the zero value, where Go keeps
the fields of an earlier element if it reuses the memory of a slice. -/
def decodeElems (elem : GoType) : List Json → Option (List GoValue)
  | [] => some []
  | v :: vs =>
      match decodeValue elem elem.zero v with
      | none => none
      | some e => (decodeElems elem vs).map (e :: ·)

def decodeMembers (fields : List (String × GoType)) (values : List GoValue) :
    List (String × Json) → Option (List GoValue)
  | [] => some values
  | (key, v) :: members =>
      match fieldFor fields key with
      | none => none
      | some i =>
          match fields[i]?, values[i]? with
          | some field, some current =>
              match decodeValue field.2 current v with
              | none => none
              | some value => decodeMembers fields (values.set i value) members
          | _, _ => none

def decodeEntries (value : GoType) (entries : List (String × GoValue)) :
    List (String × Json) → Option (List (String × GoValue))
  | [] => some entries
  | (key, v) :: members =>
      match decodeValue value value.zero v with
      | none => none
      | some e => decodeEntries value (storeEntry entries key e) members

end

/-- Decode one document into a fresh variable. -/
def unmarshal (ty : GoType) (text : List Char) : Option GoValue :=
  (Json.parse text).bind (decodeValue ty ty.zero)

/-! ## Encoding -/

mutual

def encodeValue (ty : GoType) : GoValue → Json
  | .string s => .string s
  | .int z => .number (integerText z)
  | .struct values =>
      match ty with
      | .struct fields => .object (encodeFields fields values)
      | _ => .null
  | .slice elems =>
      match ty with
      | .slice elem => .array (encodeElems elem elems)
      | _ => .null
  | .map entries =>
      match ty with
      | .map value => .object (encodeEntries value entries)
      | _ => .null
  | .nilSlice => .null
  | .nilMap => .null

def encodeFields (fields : List (String × GoType)) : List GoValue → List (String × Json)
  | [] => []
  | v :: vs =>
      match fields with
      | [] => []
      | (name, ty) :: fields => (name, encodeValue ty v) :: encodeFields fields vs

def encodeElems (elem : GoType) : List GoValue → List Json
  | [] => []
  | v :: vs => encodeValue elem v :: encodeElems elem vs

def encodeEntries (value : GoType) : List (String × GoValue) → List (String × Json)
  | [] => []
  | (key, v) :: entries => (key, encodeValue value v) :: encodeEntries value entries

end

/-- The text of a value; map entries are listed in their order. -/
def marshal (ty : GoType) (v : GoValue) : List Char := (encodeValue ty v).render

/-! ## Values of a type -/

mutual

def HasType (ty : GoType) : GoValue → Prop
  | .string _ => ty = .string
  | .int z =>
      match ty with
      | .int bits => -2 ^ (bits - 1) ≤ z ∧ z < 2 ^ (bits - 1)
      | .uint bits => 0 ≤ z ∧ z < 2 ^ bits
      | _ => False
  | .struct values =>
      match ty with
      | .struct fields => FieldsHaveType fields values
      | _ => False
  | .nilSlice => ∃ elem, ty = .slice elem
  | .slice elems =>
      match ty with
      | .slice elem => ElemsHaveType elem elems
      | _ => False
  | .nilMap => ∃ value, ty = .map value
  | .map entries =>
      match ty with
      | .map value => (entries.map Prod.fst).Nodup ∧ EntriesHaveType value entries
      | _ => False

def FieldsHaveType (fields : List (String × GoType)) : List GoValue → Prop
  | [] => fields = []
  | v :: vs =>
      match fields with
      | [] => False
      | (_, ty) :: fields => HasType ty v ∧ FieldsHaveType fields vs

def ElemsHaveType (elem : GoType) : List GoValue → Prop
  | [] => True
  | v :: vs => HasType elem v ∧ ElemsHaveType elem vs

def EntriesHaveType (value : GoType) : List (String × GoValue) → Prop
  | [] => True
  | (_, v) :: entries => HasType value v ∧ EntriesHaveType value entries

end

theorem hasType_uint32 (n : UInt32) : HasType (.uint 32) (.int n.toNat) := by
  have h := n.toNat_lt
  simp only [HasType]
  omega

theorem hasType_uint64 (n : UInt64) : HasType (.uint 64) (.int n.toNat) := by
  have h := n.toNat_lt
  simp only [HasType]
  omega

theorem hasType_int64 (n : Int64) : HasType (.int 64) (.int n.toInt) := by
  have hle := n.le_toInt
  have hlt := n.toInt_lt
  simp only [HasType]
  omega

theorem elemsHaveType_map {α : Type} {ty : GoType} {value : α → GoValue}
    (h : ∀ a, HasType ty (value a)) (elems : List α) : ElemsHaveType ty (elems.map value) := by
  induction elems with
  | nil => trivial
  | cons e elems ih => exact ⟨h e, ih⟩

theorem entriesHaveType_map {α : Type} {ty : GoType} {value : α → GoValue}
    (h : ∀ a, HasType ty (value a)) (entries : List (String × α)) :
    EntriesHaveType ty (entries.map fun e => (e.1, value e.2)) := by
  induction entries with
  | nil => trivial
  | cons e entries ih => exact ⟨h e.2, ih⟩

/-! ## Every encoded value can be written -/

mutual

theorem numbersOk_encodeValue : ∀ (ty : GoType) (v : GoValue),
    NumbersOk (encodeValue ty v).lexemes
  | _, .string s => by simp [encodeValue, Json.lexemes, NumbersOk]
  | _, .int z => by simp [encodeValue, Json.lexemes, NumbersOk, isNumberLiteral_integerText]
  | ty, .struct values => by
      cases ty with
      | struct fields => exact numbersOk_bracket (numbersOk_encodeFields fields values) nofun nofun
      | _ => simp [encodeValue, Json.lexemes, NumbersOk]
  | ty, .slice elems => by
      cases ty with
      | slice elem => exact numbersOk_bracket (numbersOk_encodeElems elem elems) nofun nofun
      | _ => simp [encodeValue, Json.lexemes, NumbersOk]
  | ty, .map entries => by
      cases ty with
      | map value => exact numbersOk_bracket (numbersOk_encodeEntries value entries) nofun nofun
      | _ => simp [encodeValue, Json.lexemes, NumbersOk]
  | _, .nilSlice => by simp [encodeValue, Json.lexemes, NumbersOk]
  | _, .nilMap => by simp [encodeValue, Json.lexemes, NumbersOk]

theorem numbersOk_encodeFields : ∀ (fields : List (String × GoType)) (vs : List GoValue),
    NumbersOk (memberLexemes (encodeFields fields vs))
  | _, [] => by simp [encodeFields, memberLexemes, NumbersOk]
  | [], _ :: _ => by simp [encodeFields, memberLexemes, NumbersOk]
  | (name, ty) :: fields, v :: vs =>
      numbersOk_member (numbersOk_encodeValue ty v) (numbersOk_encodeFields fields vs)

theorem numbersOk_encodeElems : ∀ (elem : GoType) (vs : List GoValue),
    NumbersOk (elemLexemes (encodeElems elem vs))
  | _, [] => by simp [encodeElems, elemLexemes, NumbersOk]
  | elem, v :: vs => numbersOk_elem (numbersOk_encodeValue elem v) (numbersOk_encodeElems elem vs)

theorem numbersOk_encodeEntries : ∀ (value : GoType) (entries : List (String × GoValue)),
    NumbersOk (memberLexemes (encodeEntries value entries))
  | _, [] => by simp [encodeEntries, memberLexemes, NumbersOk]
  | value, (_, v) :: entries =>
      numbersOk_member (numbersOk_encodeValue value v) (numbersOk_encodeEntries value entries)

end

/-! ## Reading back -/

/-- A field is found under its own name. -/
theorem fieldFor_self {pre rest : List (String × GoType)} {name : String} {ty : GoType}
    (hnodup : ((pre ++ (name, ty) :: rest).map fun f => foldName f.1).Nodup) :
    fieldFor (pre ++ (name, ty) :: rest) name = some pre.length := by
  have hpre : pre.findIdx? (fun f => f.1 = name) = none := by
    rw [List.findIdx?_eq_none_iff]
    intro f hf
    simp only [decide_eq_false_iff_not]
    intro hname
    rw [List.map_append, List.map_cons, List.nodup_append] at hnodup
    exact hnodup.2.2 (foldName f.1) (List.mem_map.2 ⟨f, hf, rfl⟩) (foldName name)
      List.mem_cons_self (congrArg foldName hname)
  have hfind : (pre ++ (name, ty) :: rest).findIdx? (fun f => f.1 = name) = some pre.length := by
    rw [List.findIdx?_append, hpre]
    simp [List.findIdx?_cons]
  rw [fieldFor, hfind]

theorem foldDistinct_struct {fields : List (String × GoType)}
    (h : (GoType.struct fields).foldDistinct = true) :
    (fields.map fun f => foldName f.1).Nodup ∧ fieldsFoldDistinct fields = true := by
  simpa [GoType.foldDistinct] using h

theorem storeEntry_new {entries : List (String × GoValue)} {key : String} {v : GoValue}
    (h : key ∉ entries.map Prod.fst) : storeEntry entries key v = entries ++ [(key, v)] := by
  rw [storeEntry, List.filter_eq_self.2]
  intro e he
  simp only [ne_eq, decide_not, Bool.not_eq_true', decide_eq_false_iff_not]
  exact fun hkey => h (hkey ▸ List.mem_map_of_mem he)

mutual

/-- Decoding inverts encoding. -/
theorem decodeValue_encodeValue : ∀ (v : GoValue) (ty : GoType), ty.foldDistinct = true →
    HasType ty v → decodeValue ty ty.zero (encodeValue ty v) = some v
  | .string s, ty, _, ht => by
      rw [HasType] at ht
      subst ht
      rfl
  | .int z, ty, _, ht => by
      cases ty with
      | int bits =>
          simp only [HasType] at ht
          simp [encodeValue, decodeValue, GoType.decodeNumber, ht]
      | uint bits =>
          simp only [HasType] at ht
          obtain ⟨n, rfl⟩ := Int.eq_ofNat_of_zero_le ht.1
          have hn : n < 2 ^ bits := by exact_mod_cast ht.2
          have htext : integerText (n : ℤ) = Nat.toDigits 10 n := rfl
          simp [encodeValue, decodeValue, GoType.decodeNumber, htext, naturalLiteral_toDigits, hn]
      | _ => exact absurd ht (by simp [HasType])
  | .struct values, ty, hd, ht => by
      cases ty with
      | struct fields =>
          -- names that differ under case folding send every member back to its own field
          obtain ⟨hnodup, hfields⟩ := foldDistinct_struct hd
          have hmembers := decodeMembers_encodeFields values [] fields [] hnodup rfl hfields ht
          simp only [List.nil_append] at hmembers
          simp [encodeValue, decodeValue, GoType.zero, GoValue.structValues, hmembers]
      | _ => exact absurd ht (by simp [HasType])
  | .nilSlice, ty, _, ht => by
      obtain ⟨elem, rfl⟩ := ht
      rfl
  | .slice elems, ty, hd, ht => by
      cases ty with
      | slice elem => simp [encodeValue, decodeValue, decodeElems_encodeElems elems elem hd ht]
      | _ => exact absurd ht (by simp [HasType])
  | .nilMap, ty, _, ht => by
      obtain ⟨value, rfl⟩ := ht
      rfl
  | .map entries, ty, hd, ht => by
      cases ty with
      | map value =>
          have hentries := decodeEntries_encodeEntries entries value [] hd ht.2 ht.1
          simp only [List.nil_append] at hentries
          simp [encodeValue, decodeValue, GoType.zero, GoValue.mapEntries, hentries]
      | _ => exact absurd ht (by simp [HasType])

/-- The members of an encoded struct fill its fields from left to right. -/
theorem decodeMembers_encodeFields : ∀ (vs : List GoValue) (pre rest : List (String × GoType))
    (done : List GoValue), ((pre ++ rest).map fun f => foldName f.1).Nodup →
    done.length = pre.length → fieldsFoldDistinct rest = true → FieldsHaveType rest vs →
    decodeMembers (pre ++ rest) (done ++ zeroFields rest) (encodeFields rest vs) = some (done ++ vs)
  | [], pre, rest, done, _, _, _, ht => by
      rw [FieldsHaveType] at ht
      subst ht
      simp [encodeFields, decodeMembers, zeroFields]
  | v :: vs, pre, [], done, _, _, _, ht => absurd ht (by simp [FieldsHaveType])
  | v :: vs, pre, (name, ty) :: rest, done, hnodup, hlen, hd, ht => by
      simp only [fieldsFoldDistinct, Bool.and_eq_true] at hd
      have hvalue := decodeValue_encodeValue v ty hd.1 ht.1
      have hfield : (pre ++ (name, ty) :: rest)[pre.length]? = some (name, ty) := by simp
      have hcurrent : (done ++ ty.zero :: zeroFields rest)[pre.length]? = some ty.zero := by
        simp [← hlen]
      have hset : (done ++ ty.zero :: zeroFields rest).set pre.length v =
          (done ++ [v]) ++ zeroFields rest := by
        simp [← hlen]
      -- the remaining members see the longer done part
      have htail := decodeMembers_encodeFields vs (pre ++ [(name, ty)]) rest (done ++ [v])
        (by simpa using hnodup) (by simp [hlen]) hd.2 ht.2
      simp only [List.append_assoc, List.cons_append, List.nil_append] at htail hset
      simp only [encodeFields, zeroFields, decodeMembers, fieldFor_self hnodup, hfield, hcurrent,
        hvalue, hset, htail]

theorem decodeElems_encodeElems : ∀ (vs : List GoValue) (elem : GoType),
    elem.foldDistinct = true → ElemsHaveType elem vs →
    decodeElems elem (encodeElems elem vs) = some vs
  | [], _, _, _ => rfl
  | v :: vs, elem, hd, ht => by
      simp [encodeElems, decodeElems, decodeValue_encodeValue v elem hd ht.1,
        decodeElems_encodeElems vs elem hd ht.2]

theorem decodeEntries_encodeEntries : ∀ (entries : List (String × GoValue)) (value : GoType)
    (done : List (String × GoValue)), value.foldDistinct = true → EntriesHaveType value entries →
    ((done ++ entries).map Prod.fst).Nodup →
    decodeEntries value done (encodeEntries value entries) = some (done ++ entries)
  | [], _, done, _, _, _ => by simp [encodeEntries, decodeEntries]
  | (key, v) :: entries, value, done, hd, ht, hnodup => by
      have hkey : key ∉ done.map Prod.fst := by
        intro hmem
        rw [List.map_append, List.map_cons, List.nodup_append] at hnodup
        exact hnodup.2.2 key hmem key List.mem_cons_self rfl
      have htail := decodeEntries_encodeEntries entries value (done ++ [(key, v)]) hd ht.2
        (by simpa using hnodup)
      simp only [List.append_assoc, List.cons_append, List.nil_append] at htail
      simp only [encodeEntries, decodeEntries, decodeValue_encodeValue v value hd ht.1,
        storeEntry_new hkey, htail]

end

/-- A value is read back from its text. -/
theorem unmarshal_marshal {ty : GoType} {v : GoValue} (hd : ty.foldDistinct = true)
    (ht : HasType ty v) : unmarshal ty (marshal ty v) = some v := by
  rw [unmarshal, marshal, Json.parse_render (numbersOk_encodeValue ty v)]
  exact decodeValue_encodeValue v ty hd ht

end Lktrs.Foundation
