import Lktrs.Foundation.Bytes

/-!
# Hexadecimal and base64 texts

The two text encodings of byte strings, as Go's `encoding/hex` and
`encoding/base64` document them: the encoder writes lowercase hexadecimal and
padded standard base64; the hexadecimal decoder accepts both letter cases and
rejects odd lengths; the strict base64 decoder skips line breaks, requires the
padding and requires the unused bits of the last group to be zero. Decoding
inverts encoding (`hexDecode_hexEncode`, `base64Decode_base64Encode`), so a
decoder that also compares the re-encoded bytes with its input accepts exactly
the canonical texts.
-/

set_option autoImplicit false

namespace Lktrs.Foundation

/-! ## Hexadecimal -/

/-- The lowercase hexadecimal digit of a value below sixteen. -/
def hexDigit (n : ℕ) : Char :=
  if n < 10 then Char.ofNat (48 + n) else Char.ofNat (87 + n)

/-- The value of a hexadecimal digit of either case. -/
def hexDigitValue (c : Char) : Option ℕ :=
  if '0' ≤ c ∧ c ≤ '9' then some (c.toNat - 48)
  else if 'a' ≤ c ∧ c ≤ 'f' then some (c.toNat - 87)
  else if 'A' ≤ c ∧ c ≤ 'F' then some (c.toNat - 55)
  else none

/-- The digits of a byte string, two to a byte. -/
def hexChars : List UInt8 → List Char
  | [] => []
  | b :: bs => hexDigit (b.toNat / 16) :: hexDigit (b.toNat % 16) :: hexChars bs

/-- The bytes a list of digits spells. -/
def hexBytes : List Char → Option (List UInt8)
  | [] => some []
  | [_] => none
  | hi :: lo :: cs => do
      let h ← hexDigitValue hi
      let l ← hexDigitValue lo
      let bs ← hexBytes cs
      return UInt8.ofNat (16 * h + l) :: bs

/-- `hex.EncodeToString`. -/
def hexEncode (bs : List UInt8) : String := String.ofList (hexChars bs)

/-- `hex.DecodeString`. -/
def hexDecode (s : String) : Option (List UInt8) := hexBytes s.toList

theorem hexDigitValue_hexDigit : ∀ n < 16, hexDigitValue (hexDigit n) = some n := by decide

theorem hexBytes_hexChars (bs : List UInt8) : hexBytes (hexChars bs) = some bs := by
  induction bs with
  | nil => rfl
  | cons b bs ih =>
      have hb : b.toNat < 256 := b.toNat_lt
      have hhi := hexDigitValue_hexDigit (b.toNat / 16) (by omega)
      have hlo := hexDigitValue_hexDigit (b.toNat % 16) (by omega)
      have hsum : 16 * (b.toNat / 16) + b.toNat % 16 = b.toNat := Nat.div_add_mod _ _
      simp only [hexChars, hexBytes, hhi, hlo, ih, hsum, UInt8.ofNat_toNat, bind, Option.bind]
      rfl

/-- Decoding inverts encoding. -/
@[simp] theorem hexDecode_hexEncode (bs : List UInt8) : hexDecode (hexEncode bs) = some bs := by
  simp [hexDecode, hexEncode, hexBytes_hexChars]

theorem hexEncode_inj {a b : List UInt8} (h : hexEncode a = hexEncode b) : a = b := by
  have hdec := congrArg hexDecode h
  simpa using hdec

theorem utf8Size_hexDigit : ∀ n < 16, (hexDigit n).utf8Size = 1 := by decide

/-- A text of one-byte characters has as many bytes as characters. -/
theorem utf8ByteSize_ofList_of_forall {cs : List Char} (h : ∀ c ∈ cs, c.utf8Size = 1) :
    (String.ofList cs).utf8ByteSize = cs.length := by
  induction cs with
  | nil => rfl
  | cons c cs ih =>
      obtain ⟨hc, hcs⟩ := List.forall_mem_cons.1 h
      rw [String.ofList_cons, String.utf8ByteSize_append, String.utf8ByteSize_singleton, hc, ih hcs,
        List.length_cons, Nat.add_comm]

theorem length_hexChars (bs : List UInt8) : (hexChars bs).length = 2 * bs.length := by
  induction bs with
  | nil => rfl
  | cons b bs ih =>
      rw [hexChars, List.length_cons, List.length_cons, ih, List.length_cons]
      omega

theorem utf8Size_of_mem_hexChars (bs : List UInt8) : ∀ c ∈ hexChars bs, c.utf8Size = 1 := by
  induction bs with
  | nil => simp [hexChars]
  | cons b bs ih =>
      have hb : b.toNat < 256 := b.toNat_lt
      rw [hexChars, List.forall_mem_cons, List.forall_mem_cons]
      exact ⟨utf8Size_hexDigit _ (by omega), utf8Size_hexDigit _ (by omega), ih⟩

/-- Two bytes of text for each byte. -/
theorem utf8ByteSize_hexEncode (bs : List UInt8) :
    (hexEncode bs).utf8ByteSize = 2 * bs.length := by
  rw [hexEncode, utf8ByteSize_ofList_of_forall (utf8Size_of_mem_hexChars bs), length_hexChars]

/-! ## Base64 -/

/-- The standard alphabet. -/
def base64Digit (n : ℕ) : Char :=
  if n < 26 then Char.ofNat (65 + n)
  else if n < 52 then Char.ofNat (71 + n)
  else if n < 62 then Char.ofNat (n - 4)
  else if n = 62 then '+'
  else '/'

/-- The value of a letter of the standard alphabet. -/
def base64DigitValue (c : Char) : Option ℕ :=
  if 'A' ≤ c ∧ c ≤ 'Z' then some (c.toNat - 65)
  else if 'a' ≤ c ∧ c ≤ 'z' then some (c.toNat - 71)
  else if '0' ≤ c ∧ c ≤ '9' then some (c.toNat + 4)
  else if c = '+' then some 62
  else if c = '/' then some 63
  else none

/-- Three bytes to four letters; a last group of one or two bytes is padded. -/
def base64Chars : List UInt8 → List Char
  | [] => []
  | [a] =>
      [base64Digit (a.toNat / 4), base64Digit (a.toNat % 4 * 16), '=', '=']
  | [a, b] =>
      [base64Digit (a.toNat / 4), base64Digit (a.toNat % 4 * 16 + b.toNat / 16),
        base64Digit (b.toNat % 16 * 4), '=']
  | a :: b :: c :: bs =>
      base64Digit (a.toNat / 4) :: base64Digit (a.toNat % 4 * 16 + b.toNat / 16) ::
        base64Digit (b.toNat % 16 * 4 + c.toNat / 64) :: base64Digit (c.toNat % 64) ::
        base64Chars bs

/-- The bytes of a last group with padding; the unused low bits must be zero. -/
def base64Tail (w x y z : Char) : Option (List UInt8) := do
  let a ← base64DigitValue w
  let b ← base64DigitValue x
  if z = '=' then
    if y = '=' then
      if b % 16 = 0 then return [UInt8.ofNat (a * 4 + b / 16)] else none
    else do
      let c ← base64DigitValue y
      if c % 4 = 0 then
        return [UInt8.ofNat (a * 4 + b / 16), UInt8.ofNat (b % 16 * 16 + c / 4)]
      else none
  else do
    let c ← base64DigitValue y
    let d ← base64DigitValue z
    return [UInt8.ofNat (a * 4 + b / 16), UInt8.ofNat (b % 16 * 16 + c / 4),
      UInt8.ofNat (c % 4 * 64 + d)]

/-- The bytes of a text without line breaks. Only the last group may be padded. -/
def base64Bytes : List Char → Option (List UInt8)
  | [] => some []
  | [w, x, y, z] => base64Tail w x y z
  | w :: x :: y :: z :: cs => do
      let a ← base64DigitValue w
      let b ← base64DigitValue x
      let c ← base64DigitValue y
      let d ← base64DigitValue z
      let bs ← base64Bytes cs
      return UInt8.ofNat (a * 4 + b / 16) :: UInt8.ofNat (b % 16 * 16 + c / 4) ::
        UInt8.ofNat (c % 4 * 64 + d) :: bs
  | _ => none

/-- `base64.StdEncoding.EncodeToString`. -/
def base64Encode (bs : List UInt8) : String := String.ofList (base64Chars bs)

/-- `base64.StdEncoding.Strict().DecodeString`. -/
def base64Decode (s : String) : Option (List UInt8) :=
  base64Bytes (s.toList.filter fun c => c ≠ '\r' ∧ c ≠ '\n')

theorem base64DigitValue_base64Digit : ∀ n < 64, base64DigitValue (base64Digit n) = some n := by
  decide

theorem base64Digit_ne_padding : ∀ n < 64, base64Digit n ≠ '=' := by decide

theorem base64Digit_not_lineBreak :
    ∀ n < 64, base64Digit n ≠ '\r' ∧ base64Digit n ≠ '\n' := by decide

/-- What holds of the padding and of the alphabet holds of every character of an encoding. -/
theorem forall_mem_base64Chars {P : Char → Prop} (hpad : P '=')
    (hdigit : ∀ n < 64, P (base64Digit n)) (bs : List UInt8) : ∀ c ∈ base64Chars bs, P c := by
  induction bs using base64Chars.induct with
  | case1 => simp [base64Chars]
  | case2 a =>
      have ha : a.toNat < 256 := a.toNat_lt
      simp only [base64Chars, List.mem_cons, List.not_mem_nil, or_false]
      rintro c (rfl | rfl | rfl | rfl)
      · exact hdigit _ (by omega)
      · exact hdigit _ (by omega)
      · exact hpad
      · exact hpad
  | case3 a b =>
      have ha : a.toNat < 256 := a.toNat_lt
      have hb : b.toNat < 256 := b.toNat_lt
      simp only [base64Chars, List.mem_cons, List.not_mem_nil, or_false]
      rintro c (rfl | rfl | rfl | rfl)
      · exact hdigit _ (by omega)
      · exact hdigit _ (by omega)
      · exact hdigit _ (by omega)
      · exact hpad
  | case4 a b c bs ih =>
      have ha : a.toNat < 256 := a.toNat_lt
      have hb : b.toNat < 256 := b.toNat_lt
      have hc : c.toNat < 256 := c.toNat_lt
      simp only [base64Chars, List.mem_cons]
      rintro d (rfl | rfl | rfl | rfl | hd)
      · exact hdigit _ (by omega)
      · exact hdigit _ (by omega)
      · exact hdigit _ (by omega)
      · exact hdigit _ (by omega)
      · exact ih d hd

theorem base64Chars_no_lineBreak (bs : List UInt8) :
    ∀ c ∈ base64Chars bs, c ≠ '\r' ∧ c ≠ '\n' :=
  forall_mem_base64Chars (by decide) base64Digit_not_lineBreak bs

/-- Every character of an encoding is one byte of text. -/
theorem utf8Size_of_mem_base64Chars (bs : List UInt8) : ∀ c ∈ base64Chars bs, c.utf8Size = 1 :=
  forall_mem_base64Chars (by decide) (by decide) bs

/-- Every group of three bytes, the last one padded, takes four characters. -/
theorem length_base64Chars (bs : List UInt8) :
    (base64Chars bs).length = 4 * ((bs.length + 2) / 3) := by
  induction bs using base64Chars.induct with
  | case1 => rfl
  | case2 a => simp [base64Chars]
  | case3 a b => simp [base64Chars]
  | case4 a b c bs ih =>
      rw [base64Chars]
      simp only [List.length_cons, ih]
      omega

/-- Two bytes from three sextets and back. -/
theorem sextet_join (a b : UInt8) :
    UInt8.ofNat (a.toNat / 4 * 4 + (a.toNat % 4 * 16 + b.toNat / 16) / 16) = a := by
  have hb : b.toNat < 256 := b.toNat_lt
  have h : a.toNat / 4 * 4 + (a.toNat % 4 * 16 + b.toNat / 16) / 16 = a.toNat := by omega
  rw [h, UInt8.ofNat_toNat]

theorem sextet_join_mid (a b c : UInt8) :
    UInt8.ofNat ((a.toNat % 4 * 16 + b.toNat / 16) % 16 * 16 +
      (b.toNat % 16 * 4 + c.toNat / 64) / 4) = b := by
  have hb : b.toNat < 256 := b.toNat_lt
  have hc : c.toNat < 256 := c.toNat_lt
  have h : (a.toNat % 4 * 16 + b.toNat / 16) % 16 * 16 +
      (b.toNat % 16 * 4 + c.toNat / 64) / 4 = b.toNat := by omega
  rw [h, UInt8.ofNat_toNat]

theorem sextet_join_low (b c : UInt8) :
    UInt8.ofNat ((b.toNat % 16 * 4 + c.toNat / 64) % 4 * 64 + c.toNat % 64) = c := by
  have hc : c.toNat < 256 := c.toNat_lt
  have h : (b.toNat % 16 * 4 + c.toNat / 64) % 4 * 64 + c.toNat % 64 = c.toNat := by omega
  rw [h, UInt8.ofNat_toNat]

/-- A full group at the end goes through the same three sextet joins. -/
theorem base64Tail_full (a b c : UInt8) :
    base64Tail (base64Digit (a.toNat / 4)) (base64Digit (a.toNat % 4 * 16 + b.toNat / 16))
      (base64Digit (b.toNat % 16 * 4 + c.toNat / 64)) (base64Digit (c.toNat % 64)) =
        some [a, b, c] := by
  have ha : a.toNat < 256 := a.toNat_lt
  have hb : b.toNat < 256 := b.toNat_lt
  have hc : c.toNat < 256 := c.toNat_lt
  simp only [base64Tail, base64DigitValue_base64Digit (a.toNat / 4) (by omega),
    base64DigitValue_base64Digit (a.toNat % 4 * 16 + b.toNat / 16) (by omega),
    base64DigitValue_base64Digit (b.toNat % 16 * 4 + c.toNat / 64) (by omega),
    base64DigitValue_base64Digit (c.toNat % 64) (by omega),
    base64Digit_ne_padding (c.toNat % 64) (by omega), bind, Option.bind, if_false,
    sextet_join, sextet_join_mid, sextet_join_low]
  rfl

theorem base64Bytes_base64Chars (bs : List UInt8) : base64Bytes (base64Chars bs) = some bs := by
  induction bs using base64Chars.induct with
  | case1 => rfl
  | case2 a =>
      have ha : a.toNat < 256 := a.toNat_lt
      have hjoin : a.toNat / 4 * 4 + a.toNat % 4 * 16 / 16 = a.toNat := by omega
      have hlow : a.toNat % 4 * 16 % 16 = 0 := by omega
      simp only [base64Chars, base64Bytes, base64Tail,
        base64DigitValue_base64Digit (a.toNat / 4) (by omega),
        base64DigitValue_base64Digit (a.toNat % 4 * 16) (by omega), bind, Option.bind, if_true,
        hlow, hjoin, UInt8.ofNat_toNat]
      rfl
  | case3 a b =>
      have ha : a.toNat < 256 := a.toNat_lt
      have hb : b.toNat < 256 := b.toNat_lt
      have hmid : (a.toNat % 4 * 16 + b.toNat / 16) % 16 * 16 + b.toNat % 16 * 4 / 4 =
          b.toNat := by omega
      have hlow : b.toNat % 16 * 4 % 4 = 0 := by omega
      simp only [base64Chars, base64Bytes, base64Tail,
        base64DigitValue_base64Digit (a.toNat / 4) (by omega),
        base64DigitValue_base64Digit (a.toNat % 4 * 16 + b.toNat / 16) (by omega),
        base64DigitValue_base64Digit (b.toNat % 16 * 4) (by omega),
        base64Digit_ne_padding (b.toNat % 16 * 4) (by omega), bind, Option.bind, if_true,
        if_false, hlow, hmid, sextet_join, UInt8.ofNat_toNat]
      rfl
  | case4 a b c bs ih =>
      have ha : a.toNat < 256 := a.toNat_lt
      have hb : b.toNat < 256 := b.toNat_lt
      have hc : c.toNat < 256 := c.toNat_lt
      cases hrest : base64Chars bs with
      | nil =>
          -- the full group is the last one, so the decoder takes the tail branch
          have hbs : bs = [] := by
            rw [hrest] at ih
            exact (Option.some.inj ih).symm
          subst hbs
          simp only [base64Chars, base64Bytes]
          exact base64Tail_full a b c
      | cons d ds =>
          rw [base64Chars, hrest, base64Bytes]
          rw [hrest] at ih
          · simp only [base64DigitValue_base64Digit (a.toNat / 4) (by omega),
              base64DigitValue_base64Digit (a.toNat % 4 * 16 + b.toNat / 16) (by omega),
              base64DigitValue_base64Digit (b.toNat % 16 * 4 + c.toNat / 64) (by omega),
              base64DigitValue_base64Digit (c.toNat % 64) (by omega), ih, bind, Option.bind,
              sextet_join, sextet_join_mid, sextet_join_low]
            rfl
          · simp

/-- Decoding inverts encoding. -/
@[simp] theorem base64Decode_base64Encode (bs : List UInt8) :
    base64Decode (base64Encode bs) = some bs := by
  have hfilter : (base64Chars bs).filter (fun c => c ≠ '\r' ∧ c ≠ '\n') = base64Chars bs := by
    rw [List.filter_eq_self]
    intro c hc
    exact decide_eq_true (base64Chars_no_lineBreak bs c hc)
  simp only [base64Decode, base64Encode, String.toList_ofList, hfilter, base64Bytes_base64Chars]

theorem base64Encode_inj {a b : List UInt8} (h : base64Encode a = base64Encode b) : a = b := by
  have hdec := congrArg base64Decode h
  simpa using hdec

end Lktrs.Foundation
