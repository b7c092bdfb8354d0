import Lktrs.Foundation.Bytes
import Lktrs.Foundation.TextCodec
import Lktrs.Foundation.JsonDecode

/-!
# The size of a written text

How many bytes the text of a JSON value takes: exactly for texts without escaped
characters (`renderString_ofList`), and as a bound for numbers by their digits
and for an object by its largest member (`byteLength_renderMembers_le`).
-/

set_option autoImplicit false

namespace Lktrs.Foundation

/-- The number of bytes of a text. -/
def byteLength (cs : List Char) : ℕ := (textBytes (String.ofList cs)).length

@[simp] theorem byteLength_nil : byteLength [] = 0 := by
  rw [byteLength, length_textBytes]
  rfl

@[simp] theorem byteLength_cons (c : Char) (cs : List Char) :
    byteLength (c :: cs) = c.utf8Size + byteLength cs := by
  simp only [byteLength, length_textBytes]
  rw [String.ofList_cons, String.utf8ByteSize_append, String.utf8ByteSize_singleton]

@[simp] theorem byteLength_append (cs ds : List Char) :
    byteLength (cs ++ ds) = byteLength cs + byteLength ds := by
  induction cs with
  | nil => simp
  | cons c cs ih =>
      rw [List.cons_append, byteLength_cons, byteLength_cons, ih]
      omega

theorem byteLength_le (cs : List Char) : byteLength cs ≤ 4 * cs.length := by
  induction cs with
  | nil => simp
  | cons c cs ih =>
      have hc := c.utf8Size_le_four
      rw [byteLength_cons, List.length_cons]
      omega

theorem byteLength_of_ascii {cs : List Char} (h : ∀ c ∈ cs, c.utf8Size = 1) :
    byteLength cs = cs.length := by
  rw [byteLength, length_textBytes, utf8ByteSize_ofList_of_forall h]

/-! ## Texts -/

/-- A text none of whose characters is escaped. -/
theorem renderString_ofList {cs : List Char} (h : ∀ c ∈ cs, escapeChar c = [c]) :
    renderString (String.ofList cs) = '"' :: (cs ++ ['"']) := by
  have hplain : cs.flatMap escapeChar = cs := by
    induction cs with
    | nil => rfl
    | cons c cs ih =>
        obtain ⟨hc, hcs⟩ := List.forall_mem_cons.1 h
        rw [List.flatMap_cons, hc, ih hcs]
        rfl
  rw [renderString, String.toList_ofList, hplain]

theorem renderString_base64Encode (bs : List UInt8) :
    renderString (base64Encode bs) = '"' :: (base64Chars bs ++ ['"']) := by
  apply renderString_ofList
  exact forall_mem_base64Chars (by decide) (by decide) bs

theorem renderString_hexEncode (bs : List UInt8) :
    renderString (hexEncode bs) = '"' :: (hexChars bs ++ ['"']) := by
  have hdigit : ∀ n < 16, escapeChar (hexDigit n) = [hexDigit n] := by decide
  apply renderString_ofList
  induction bs with
  | nil => simp [hexChars]
  | cons b bs ih =>
      have hb : b.toNat < 256 := b.toNat_lt
      rw [hexChars, List.forall_mem_cons, List.forall_mem_cons]
      exact ⟨hdigit _ (by omega), hdigit _ (by omega), ih⟩

theorem byteLength_renderString_hexEncode (bs : List UInt8) :
    byteLength (renderString (hexEncode bs)) = 2 * bs.length + 2 := by
  have hquote : ('"' : Char).utf8Size = 1 := by decide
  rw [renderString_hexEncode, byteLength_cons, byteLength_append, byteLength_cons, byteLength_nil,
    byteLength_of_ascii (utf8Size_of_mem_hexChars bs), length_hexChars, hquote]
  omega

/-! ## Numbers and objects -/

theorem utf8Size_of_isDigit {c : Char} (h : c.isDigit = true) : c.utf8Size = 1 := by
  have hrange : 48 ≤ c.val ∧ c.val ≤ 57 := by simpa [Char.isDigit] using h
  unfold Char.utf8Size
  rw [if_pos]
  exact UInt32.le_trans hrange.2 (by decide)

/-- A number is not longer than its digits. -/
theorem byteLength_integerText_le {n e : ℕ} (he : 0 < e) (h : n < 10 ^ e) :
    byteLength (integerText n) ≤ e := by
  have hascii : ∀ c ∈ Nat.toDigits 10 n, c.utf8Size = 1 := fun c hc =>
    utf8Size_of_isDigit (Nat.isDigit_of_mem_toDigits (by decide) (by decide) hc)
  show byteLength (Nat.toDigits 10 n) ≤ e
  rw [byteLength_of_ascii hascii]
  exact Nat.toDigits_length 10 n e he h

/-- The signs around members take a byte each. -/
theorem utf8Size_delimiters : ('\x7b' : Char).utf8Size = 1 ∧ (':' : Char).utf8Size = 1 ∧
    (',' : Char).utf8Size = 1 ∧ ('\x7d' : Char).utf8Size = 1 := by decide

/-- Members of at most `b` bytes, with a separator each. -/
theorem byteLength_renderMembers_le {b : ℕ} : ∀ {ms : List (String × Json)},
    (∀ m ∈ ms, byteLength (renderString m.1) + 1 + byteLength m.2.render ≤ b) →
      byteLength (renderMembers ms) ≤ ms.length * (b + 1)
  | [], _ => by simp [renderMembers]
  | [(k, v)], h => by
      have hm := h (k, v) (by simp)
      simp only [renderMembers, byteLength_append, byteLength_cons, utf8Size_delimiters,
        List.length_singleton] at hm ⊢
      omega
  | (k, v) :: m :: ms, h => by
      obtain ⟨hm, hms⟩ := List.forall_mem_cons.1 h
      have hrest := byteLength_renderMembers_le hms
      rw [renderMembers, List.length_cons, Nat.succ_mul]
      simp only [byteLength_append, byteLength_cons, utf8Size_delimiters] at hm ⊢
      omega

theorem encodeEntries_eq_map (value : GoType) (entries : List (String × GoValue)) :
    encodeEntries value entries = entries.map fun e => (e.1, encodeValue value e.2) := by
  induction entries with
  | nil => rfl
  | cons e entries ih => rw [encodeEntries, ih, List.map_cons]

end Lktrs.Foundation
