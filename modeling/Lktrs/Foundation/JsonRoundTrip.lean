import Lktrs.Foundation.Json
import Mathlib.Tactic

/-!
# Reading back a written JSON text

`Json.parse_render`: the compact text of a value whose number literals are
well formed parses to that value, whatever characters its strings hold. The
argument goes through the lexeme sequence of the value: the writer's text lexes
to it, and it parses to the value.
-/

set_option autoImplicit false

namespace Lktrs.Foundation

/-! ## One character at a time -/

theorem lexFrom_silent {state : LexState} {c : Char} (state' : LexState) (cs : List Char)
    (h : state.step c = some (state', [])) : lexFrom state (c :: cs) = lexFrom state' cs := by
  simp [lexFrom, h]

theorem lexFrom_emit {state : LexState} {c : Char} {l : Lexeme} (state' : LexState)
    (cs : List Char) (h : state.step c = some (state', [l])) :
    lexFrom state (c :: cs) = (lexFrom state' cs).map (l :: ·) := by
  simp [lexFrom, h]

/-! ## Strings -/

theorem step_hex {text : List Char} {missing value n : ℕ} (hn : n < 16) (hm : 1 < missing) :
    (LexState.hex text missing value).step (hexDigit n) =
      some (.hex text (missing - 1) (16 * value + n), []) := by
  simp [LexState.step, hexDigitValue_hexDigit n hn, Nat.not_le.2 hm]

theorem step_hex_last {text : List Char} {value n : ℕ} (hn : n < 16) :
    (LexState.hex text 1 value).step (hexDigit n) = some (.codeUnit text (16 * value + n), []) := by
  simp [LexState.step, hexDigitValue_hexDigit n hn]

theorem lexFrom_hexQuad (text rest : List Char) {n : ℕ} (hn : n < 65536) :
    lexFrom (.hex text 4 0) (hexQuad n ++ rest) = lexFrom (.codeUnit text n) rest := by
  have h₃ : n / 4096 % 16 < 16 := Nat.mod_lt _ (by decide)
  have h₂ : n / 256 % 16 < 16 := Nat.mod_lt _ (by decide)
  have h₁ : n / 16 % 16 < 16 := Nat.mod_lt _ (by decide)
  have h₀ : n % 16 < 16 := Nat.mod_lt _ (by decide)
  have hvalue : 16 * (16 * (16 * (16 * 0 + n / 4096 % 16) + n / 256 % 16) + n / 16 % 16) + n % 16
      = n := by omega
  simp only [hexQuad, List.cons_append, List.nil_append]
  rw [lexFrom_silent _ _ (step_hex h₃ (by decide)), lexFrom_silent _ _ (step_hex h₂ (by decide)),
    lexFrom_silent _ _ (step_hex h₁ (by decide)), lexFrom_silent _ _ (step_hex_last h₀), hvalue]

/-- A character is no surrogate, so its own code unit reads as itself. -/
theorem codeUnit_char (text : List Char) (c : Char) :
    LexState.codeUnit text c.toNat = .string (c :: text) := by
  have hvalid := c.valid
  simp only [UInt32.isValidChar, Nat.isValidChar] at hvalid
  have hnat : c.toNat = c.val.toNat := rfl
  unfold LexState.codeUnit
  rw [if_neg (by omega), if_neg (by omega), Char.ofNat_toNat]

/-- An escaped character is read back. -/
theorem lexFrom_escapeChar (text rest : List Char) (c : Char) :
    lexFrom (.string text) (escapeChar c ++ rest) = lexFrom (.string (c :: text)) rest := by
  -- the escapes of two characters
  have short : ∀ d e : Char, simpleEscape e = some d → e ≠ 'u' →
      lexFrom (.string text) ('\\' :: e :: rest) = lexFrom (.string (d :: text)) rest := by
    intro d e he hu
    rw [lexFrom_silent (.escape text) _ (by rfl)]
    exact lexFrom_silent _ _ (by simp [LexState.step, LexState.escapeStep, he, hu])
  unfold escapeChar
  split_ifs with h₁ h₂ h₃ h₄ h₅ h₆ h₇ h₈
  · exact h₁ ▸ short '"' '"' (by decide) (by decide)
  · exact h₂ ▸ short '\\' '\\' (by decide) (by decide)
  · exact h₃ ▸ short (Char.ofNat 8) 'b' (by decide) (by decide)
  · exact h₄ ▸ short (Char.ofNat 12) 'f' (by decide) (by decide)
  · exact h₅ ▸ short '\n' 'n' (by decide) (by decide)
  · exact h₆ ▸ short '\r' 'r' (by decide) (by decide)
  · exact h₇ ▸ short '\t' 't' (by decide) (by decide)
  · have hsmall : c.toNat < 65536 := by
      -- every character that is escaped by number fits in one code unit
      simp only [needsHexEscape, Bool.or_eq_true, decide_eq_true_eq] at h₈
      rcases h₈ with ((((h | rfl) | rfl) | rfl) | h) | h
      all_goals first | omega | decide
    simp only [List.cons_append, List.nil_append]
    rw [lexFrom_silent (.escape text) _ (by rfl),
      lexFrom_silent (.hex text 4 0) _ (by rfl), lexFrom_hexQuad _ _ hsmall,
      codeUnit_char]
  · have hprint : ¬ c.toNat < 0x20 := by
      intro h
      simp [needsHexEscape, h] at h₈
    exact lexFrom_silent _ _ (by simp [LexState.step, LexState.stringStep, h₁, h₂, hprint])

theorem lexFrom_escaped (s text rest : List Char) :
    lexFrom (.string text) (s.flatMap escapeChar ++ '"' :: rest) =
      (lexFrom .idle rest).map (.string (String.ofList (text.reverse ++ s)) :: ·) := by
  induction s generalizing text with
  | nil => exact (lexFrom_emit .idle rest (by rfl)).trans (by simp)
  | cons c s ih =>
      rw [List.flatMap_cons, List.append_assoc, lexFrom_escapeChar, ih]
      simp

theorem lexFrom_renderString (s : String) (rest : List Char) :
    lexFrom .idle (renderString s ++ rest) = (lexFrom .idle rest).map (.string s :: ·) := by
  simp only [renderString, List.cons_append, List.append_assoc, List.nil_append]
  rw [lexFrom_silent (.string []) _ (by rfl), lexFrom_escaped]
  simp

/-! ## Numbers -/

/-- What may follow a number in a written text. -/
def Delimited : List Char → Prop
  | [] => True
  | c :: _ => c = ',' ∨ c = ']' ∨ c = '}' ∨ c = '\n'

theorem next_delimiter (state : NumberState) {c : Char}
    (hc : c = ',' ∨ c = ']' ∨ c = '}' ∨ c = '\n') : state.next c = none := by
  rcases hc with rfl | rfl | rfl | rfl <;> cases state <;> decide

/-- A complete number ends before a delimiter. -/
theorem lexFrom_number_end {state : NumberState} (hstate : state.complete = true)
    (text rest : List Char) (hrest : Delimited rest) :
    lexFrom (.number state text) rest =
      (lexFrom .idle rest).map (.number text.reverse :: ·) := by
  cases rest with
  | nil => simp [lexFrom, LexState.finish, hstate]
  | cons c rest =>
      simp only [lexFrom, LexState.step, next_delimiter state hrest, hstate, if_true]
      cases LexState.idleStep c with
      | none => rfl
      | some out => simp [Function.comp_def]

theorem lexFrom_number_run (state state' : NumberState) (cs text rest : List Char)
    (hrun : cs.foldlM NumberState.next state = some state') :
    lexFrom (.number state text) (cs ++ rest) =
      lexFrom (.number state' (cs.reverse ++ text)) rest := by
  induction cs generalizing state text with
  | nil => simpa using congrArg (fun s => lexFrom (.number s text) rest) (Option.some.inj hrun)
  | cons c cs ih =>
      rw [List.foldlM_cons] at hrun
      obtain ⟨mid, hmid, hrun⟩ := Option.bind_eq_some_iff.1 hrun
      rw [List.cons_append, lexFrom_silent (.number mid (c :: text)) _ (by simp [LexState.step, hmid]),
        ih mid (c :: text) hrun]
      simp

theorem step_number {c : Char} {state : NumberState} (h : NumberState.start c = some state) :
    LexState.idle.step c = some (.number state [c], []) := by
  have hne : ∀ d : Char, NumberState.start d = none → c ≠ d := by
    rintro d hd rfl
    simp [hd] at h
  simp [LexState.step, LexState.idleStep, h, hne ' ' (by decide), hne '\t' (by decide), hne '\n' (by decide),
    hne '\r' (by decide), hne '\x7b' (by decide), hne '\x7d' (by decide), hne '[' (by decide),
    hne ']' (by decide), hne ':' (by decide), hne ',' (by decide), hne '"' (by decide),
    hne 't' (by decide), hne 'f' (by decide), hne 'n' (by decide)]

theorem lexFrom_numberLiteral {literal : List Char} (h : isNumberLiteral literal = true)
    (rest : List Char) (hrest : Delimited rest) :
    lexFrom .idle (literal ++ rest) = (lexFrom .idle rest).map (.number literal :: ·) := by
  cases literal with
  | nil => cases h
  | cons c cs =>
      simp only [isNumberLiteral] at h
      cases hrun : (NumberState.start c).bind fun state => cs.foldlM NumberState.next state with
      | none => simp [hrun] at h
      | some state' =>
          rw [hrun] at h
          obtain ⟨state, hstart, hcs⟩ := Option.bind_eq_some_iff.1 hrun
          rw [List.cons_append, lexFrom_silent _ _ (step_number hstart),
            lexFrom_number_run state state' cs [c] rest hcs, lexFrom_number_end h _ _ hrest]
          simp

theorem foldlM_digits {cs : List Char} (h : ∀ c ∈ cs, c.isDigit = true) :
    cs.foldlM NumberState.next .digits = some .digits := by
  induction cs with
  | nil => rfl
  | cons c cs ih =>
      have hc : NumberState.next .digits c = some .digits := by
        simp [NumberState.next, h c List.mem_cons_self]
      simpa [hc] using ih fun d hd => h d (List.mem_cons_of_mem c hd)

/-- A positive number is written without leading zero. -/
theorem toDigits_head {n : ℕ} (hn : 0 < n) :
    ∃ c cs, Nat.toDigits 10 n = c :: cs ∧ c ≠ '0' := by
  induction n using Nat.strongRecOn with
  | ind n ih =>
      rw [Nat.toDigits_eq_if (by decide)]
      split_ifs with hlt
      · refine ⟨n.digitChar, [], rfl, ?_⟩
        interval_cases n <;> decide
      · obtain ⟨c, cs, hcs, hc⟩ := ih (n / 10) (by omega) (by omega)
        exact ⟨c, cs ++ [(n % 10).digitChar], by simp [hcs], hc⟩

theorem isNumberLiteral_toDigits (n : ℕ) : isNumberLiteral (Nat.toDigits 10 n) = true := by
  cases n.eq_zero_or_pos with
  | inl h => subst h; decide
  | inr h =>
      obtain ⟨c, cs, hcs, hc⟩ := toDigits_head h
      have hdigit : ∀ d ∈ c :: cs, d.isDigit = true := fun d hd =>
        Nat.isDigit_of_mem_toDigits (by decide) (by decide) (hcs ▸ hd)
      have hdash : c ≠ '-' := by
        rintro rfl
        exact absurd (hdigit '-' List.mem_cons_self) (by decide)
      rw [hcs]
      simp [isNumberLiteral, NumberState.start, hc, hdash, hdigit c List.mem_cons_self,
        foldlM_digits fun d hd => hdigit d (List.mem_cons_of_mem c hd), NumberState.complete]

theorem naturalLiteral_toDigits (n : ℕ) : naturalLiteral (Nat.toDigits 10 n) = some n := by
  have hall : (Nat.toDigits 10 n).all Char.isDigit = true :=
    List.all_eq_true.2 fun c hc => Nat.isDigit_of_mem_toDigits (by decide) (by decide) hc
  rw [naturalLiteral, if_pos ⟨Nat.toDigits_ne_nil, hall⟩,
    Nat.ofDigitChars_toDigits (by decide) (by decide)]

theorem integerLiteral_toDigits (n : ℕ) : integerLiteral (Nat.toDigits 10 n) = some (n : ℤ) := by
  have hnat := naturalLiteral_toDigits n
  unfold integerLiteral
  split
  · next digits heq =>
      have hdash : ('-').isDigit = true :=
        Nat.isDigit_of_mem_toDigits (b := 10) (n := n) (by decide) (by decide) (by simp [heq])
      exact absurd hdash (by decide)
  · simp [hnat]

@[simp] theorem integerLiteral_integerText (z : ℤ) : integerLiteral (integerText z) = some z := by
  cases z with
  | ofNat n => exact integerLiteral_toDigits n
  | negSucc n =>
      simp only [integerText, integerLiteral, naturalLiteral_toDigits]
      rfl

theorem isNumberLiteral_integerText (z : ℤ) : isNumberLiteral (integerText z) = true := by
  cases z with
  | ofNat n => exact isNumberLiteral_toDigits n
  | negSucc n =>
      -- after the sign the literal is that of a positive number
      obtain ⟨c, cs, hcs, hc⟩ := toDigits_head n.succ_pos
      have hdigit : ∀ d ∈ c :: cs, d.isDigit = true := fun d hd =>
        Nat.isDigit_of_mem_toDigits (by decide) (by decide) (hcs ▸ hd)
      have hrun : (c :: cs).foldlM NumberState.next .minus = some .digits := by
        have hnext : NumberState.next .minus c = some .digits := by
          simp [NumberState.next, hc, hdigit c List.mem_cons_self]
        simpa [hnext] using foldlM_digits fun d hd => hdigit d (List.mem_cons_of_mem c hd)
      rw [integerText, ← Nat.succ_eq_add_one, hcs]
      simp only [isNumberLiteral, NumberState.start, if_true, Option.bind_some, hrun]
      rfl

/-! ## Lexemes of a value -/

mutual

def Json.lexemes : Json → List Lexeme
  | .null => [.null]
  | .bool b => [.bool b]
  | .number literal => [.number literal]
  | .string s => [.string s]
  | .array elems => .openBracket :: (elemLexemes elems ++ [.closeBracket])
  | .object members => .openBrace :: (memberLexemes members ++ [.closeBrace])

def elemLexemes : List Json → List Lexeme
  | [] => []
  | [v] => v.lexemes
  | v :: w :: vs => v.lexemes ++ .comma :: elemLexemes (w :: vs)

def memberLexemes : List (String × Json) → List Lexeme
  | [] => []
  | [(k, v)] => .string k :: .colon :: v.lexemes
  | (k, v) :: m :: ms => .string k :: .colon :: (v.lexemes ++ .comma :: memberLexemes (m :: ms))

end

/-- Every number literal among the lexemes is well formed. -/
def NumbersOk (lexemes : List Lexeme) : Prop :=
  ∀ literal, Lexeme.number literal ∈ lexemes → isNumberLiteral literal = true

/-- A value that can be written: its number literals are numbers. -/
def Json.Writable (j : Json) : Prop := NumbersOk j.lexemes

theorem numbersOk_append {a b : List Lexeme} :
    NumbersOk (a ++ b) ↔ NumbersOk a ∧ NumbersOk b := by
  simp only [NumbersOk, List.mem_append, or_imp, forall_and]

theorem numbersOk_cons {a : Lexeme} {b : List Lexeme} :
    NumbersOk (a :: b) ↔ NumbersOk [a] ∧ NumbersOk b :=
  numbersOk_append (a := [a])

theorem numbersOk_bracket {l m : Lexeme} {lexemes : List Lexeme} (h : NumbersOk lexemes)
    (hl : ∀ literal, l ≠ .number literal) (hm : ∀ literal, m ≠ .number literal) :
    NumbersOk (l :: (lexemes ++ [m])) := by
  intro literal hmem
  rcases List.mem_cons.1 hmem with heq | hmem
  · exact absurd heq.symm (hl literal)
  · rcases List.mem_append.1 hmem with hmem | hmem
    · exact h literal hmem
    · exact absurd (List.mem_singleton.1 hmem).symm (hm literal)

theorem numbersOk_elem {v : Json} {vs : List Json} (hv : NumbersOk v.lexemes)
    (hvs : NumbersOk (elemLexemes vs)) : NumbersOk (elemLexemes (v :: vs)) := by
  cases vs with
  | nil => exact hv
  | cons w vs => exact numbersOk_append.2 ⟨hv, numbersOk_cons.2 ⟨by simp [NumbersOk], hvs⟩⟩

theorem numbersOk_member {k : String} {v : Json} {ms : List (String × Json)}
    (hv : NumbersOk v.lexemes) (hms : NumbersOk (memberLexemes ms)) :
    NumbersOk (memberLexemes ((k, v) :: ms)) := by
  have htail : NumbersOk [Lexeme.string k] ∧ NumbersOk [Lexeme.colon] := by simp [NumbersOk]
  cases ms with
  | nil => exact numbersOk_cons.2 ⟨htail.1, numbersOk_cons.2 ⟨htail.2, hv⟩⟩
  | cons m ms =>
      refine numbersOk_cons.2 ⟨htail.1, numbersOk_cons.2 ⟨htail.2, numbersOk_append.2 ⟨hv, ?_⟩⟩⟩
      exact numbersOk_cons.2 ⟨by simp [NumbersOk], hms⟩

/-- An object is writable when its values are. -/
theorem Json.writable_object : ∀ {ms : List (String × Json)}, (∀ m ∈ ms, m.2.Writable) →
    (Json.object ms).Writable := by
  intro ms h
  rw [Json.Writable, Json.lexemes]
  apply numbersOk_bracket _ (by simp) (by simp)
  induction ms with
  | nil => simp [NumbersOk, memberLexemes]
  | cons m ms ih =>
      obtain ⟨hm, hms⟩ := List.forall_mem_cons.1 h
      exact numbersOk_member hm (ih hms)

/-- A text spells these lexemes in front of any delimited rest. -/
def Spells (text : List Char) (lexemes : List Lexeme) : Prop :=
  ∀ rest, Delimited rest →
    lexFrom .idle (text ++ rest) = (lexFrom .idle rest).map (lexemes ++ ·)

/-- The rest of a keyword. -/
theorem lexFrom_keyword (l : Lexeme) (d : Char) (ds rest : List Char) :
    lexFrom (.keyword (d :: ds) l) (d :: ds ++ rest) = (lexFrom .idle rest).map (l :: ·) := by
  induction ds generalizing d with
  | nil => exact lexFrom_emit .idle rest (by simp [LexState.step])
  | cons e ds ih =>
      rw [List.cons_append, lexFrom_silent (.keyword (e :: ds) l) _ (by simp [LexState.step])]
      exact ih e

/-- A lexeme written as a keyword. -/
theorem spells_keyword {c : Char} {l : Lexeme} (d : Char) (ds : List Char)
    (hc : LexState.idle.step c = some (.keyword (d :: ds) l, [])) :
    Spells (c :: d :: ds) [l] := fun rest _ =>
  (lexFrom_silent _ _ hc).trans (lexFrom_keyword l d ds rest)

/-- A lexeme written as one character. -/
theorem lexFrom_punctuation {c : Char} {l : Lexeme} {text : List Char} {lexemes : List Lexeme}
    {rest : List Char} (hc : LexState.idle.step c = some (.idle, [l]))
    (h : lexFrom .idle (text ++ rest) = (lexFrom .idle rest).map (lexemes ++ ·)) :
    lexFrom .idle (c :: text ++ rest) = (lexFrom .idle rest).map (l :: lexemes ++ ·) := by
  rw [List.cons_append, lexFrom_emit .idle _ hc, h, Option.map_map]
  rfl

/-- Two values with a separator between them. -/
theorem Spells.separated {c : Char} {l : Lexeme} {text₁ text₂ : List Char}
    {lexemes₁ lexemes₂ : List Lexeme} (hc : LexState.idle.step c = some (.idle, [l]))
    (hdelim : c = ',' ∨ c = ']' ∨ c = '}' ∨ c = '\n') (h₁ : Spells text₁ lexemes₁)
    (h₂ : Spells text₂ lexemes₂) : Spells (text₁ ++ c :: text₂) (lexemes₁ ++ l :: lexemes₂) := by
  intro rest hrest
  have htail := lexFrom_punctuation hc (h₂ rest hrest)
  rw [List.append_assoc, h₁ (c :: text₂ ++ rest) hdelim, htail, Option.map_map]
  simp [Function.comp_def]

theorem spells_nil : Spells [] [] := fun rest _ => by simp

/-- A bracketed text. -/
theorem Spells.bracketed {c d : Char} {l m : Lexeme} {text : List Char} {lexemes : List Lexeme}
    (hc : LexState.idle.step c = some (.idle, [l])) (hd : LexState.idle.step d = some (.idle, [m]))
    (hdelim : d = ',' ∨ d = ']' ∨ d = '}' ∨ d = '\n') (h : Spells text lexemes) :
    Spells (c :: (text ++ [d])) (l :: (lexemes ++ [m])) := fun rest hrest =>
  lexFrom_punctuation hc (h.separated hd hdelim spells_nil rest hrest)

/-- A member: a string, a colon and a value. -/
theorem Spells.member {text : List Char} {lexemes : List Lexeme} (k : String)
    (h : Spells text lexemes) :
    Spells (renderString k ++ ':' :: text) (.string k :: .colon :: lexemes) := by
  intro rest hrest
  have htail := lexFrom_punctuation (by rfl : LexState.idle.step ':' = some (.idle, [.colon]))
    (h rest hrest)
  rw [List.append_assoc, lexFrom_renderString, htail, Option.map_map]
  rfl

mutual

theorem Json.spells_render : ∀ j : Json, j.Writable → Spells j.render j.lexemes
  | .null, _ => spells_keyword 'u' ['l', 'l'] rfl
  | .bool true, _ => spells_keyword 'r' ['u', 'e'] rfl
  | .bool false, _ => spells_keyword 'a' ['l', 's', 'e'] rfl
  | .number literal, h => fun rest hrest =>
      lexFrom_numberLiteral (h literal (by simp [Json.lexemes])) rest hrest
  | .string s, _ => fun rest _ => lexFrom_renderString s rest
  | .array elems, h => by
      have helems : NumbersOk (elemLexemes elems) :=
        (numbersOk_append.1 (numbersOk_cons.1 h).2).1
      exact (spells_renderElems elems helems).bracketed rfl rfl (by decide)
  | .object members, h => by
      have hmembers : NumbersOk (memberLexemes members) :=
        (numbersOk_append.1 (numbersOk_cons.1 h).2).1
      exact (spells_renderMembers members hmembers).bracketed rfl rfl (by decide)

theorem spells_renderElems : ∀ vs : List Json, NumbersOk (elemLexemes vs) →
    Spells (renderElems vs) (elemLexemes vs)
  | [], _ => spells_nil
  | [v], h => Json.spells_render v h
  | v :: w :: vs, h => by
      obtain ⟨hv, hrest⟩ := numbersOk_append.1 h
      exact (Json.spells_render v hv).separated rfl (by decide)
        (spells_renderElems (w :: vs) (numbersOk_cons.1 hrest).2)

theorem spells_renderMembers : ∀ ms : List (String × Json), NumbersOk (memberLexemes ms) →
    Spells (renderMembers ms) (memberLexemes ms)
  | [], _ => spells_nil
  | [(k, v)], h => (Json.spells_render v (numbersOk_cons.1 (numbersOk_cons.1 h).2).2).member k
  | (k, v) :: m :: ms, h => by
      obtain ⟨hv, hrest⟩ := numbersOk_append.1 (numbersOk_cons.1 (numbersOk_cons.1 h).2).2
      exact ((Json.spells_render v hv).separated rfl (by decide)
        (spells_renderMembers (m :: ms) (numbersOk_cons.1 hrest).2)).member k

end

/-! ## Lexemes parse to their value -/

theorem parseFrom_step {state : ParseState} {l : Lexeme} (state' : ParseState) (ls : List Lexeme)
    (h : state.step l = some state') : parseFrom state (l :: ls) = parseFrom state' ls := by
  simp [parseFrom, h]

/-- A list of elements starts with its first element. -/
theorem elemLexemes_cons (v : Json) (vs : List Json) :
    ∃ tail, elemLexemes (v :: vs) = v.lexemes ++ tail := by
  cases vs with
  | nil => exact ⟨[], by simp [elemLexemes]⟩
  | cons w vs => exact ⟨.comma :: elemLexemes (w :: vs), by rw [elemLexemes]⟩

/-- Where an array may end or an element start, a value is read as after a comma. -/
theorem parseFrom_firstElement (v : Json) (vs : List Json) (stack : List Frame)
    (rest : List Lexeme) :
    parseFrom (.reading .elementOrEnd stack) (elemLexemes (v :: vs) ++ rest) =
      parseFrom (.reading .value stack) (elemLexemes (v :: vs) ++ rest) := by
  have hstep : ∀ l, l ≠ Lexeme.closeBracket →
      (ParseState.reading .elementOrEnd stack).step l =
        (ParseState.reading .value stack).step l := by
    intro l hl
    cases l <;> first | exact absurd rfl hl | (unfold ParseState.step; split <;> simp_all)
  obtain ⟨tail, htail⟩ := elemLexemes_cons v vs
  rw [htail]
  cases v <;> simp [Json.lexemes, parseFrom, hstep]

mutual

theorem parseFrom_lexemes : ∀ (j : Json) (stack : List Frame) (rest : List Lexeme),
    parseFrom (.reading .value stack) (j.lexemes ++ rest) =
      parseFrom (ParseState.deliver j stack) rest
  | .null, _, rest => parseFrom_step _ rest rfl
  | .bool _, _, rest => parseFrom_step _ rest rfl
  | .number _, _, rest => parseFrom_step _ rest rfl
  | .string _, _, rest => parseFrom_step _ rest rfl
  | .array elems, stack, rest => by
      rw [Json.lexemes, List.cons_append, List.append_assoc,
        parseFrom_step (.reading .elementOrEnd (.array [] :: stack)) _ rfl]
      cases elems with
      | nil => exact parseFrom_step _ rest rfl
      | cons v vs =>
          rw [parseFrom_firstElement]
          exact parseFrom_elems (v :: vs) (by simp) [] stack rest
  | .object members, stack, rest => by
      rw [Json.lexemes, List.cons_append, List.append_assoc,
        parseFrom_step (.reading .keyOrEnd (.object [] "" :: stack)) _ rfl]
      cases members with
      | nil => exact parseFrom_step _ rest rfl
      | cons m ms =>
          refine Eq.trans ?_ (parseFrom_members (m :: ms) (by simp) [] "" stack rest)
          -- the first key is read as a key after a comma
          obtain ⟨k, v⟩ := m
          cases ms <;> rfl

theorem parseFrom_elems : ∀ (vs : List Json), vs ≠ [] → ∀ (elems : List Json)
    (stack : List Frame) (rest : List Lexeme),
    parseFrom (.reading .value (.array elems :: stack))
        (elemLexemes vs ++ .closeBracket :: rest) =
      parseFrom (ParseState.deliver (.array (elems.reverse ++ vs)) stack) rest
  | [], h, _, _, _ => absurd rfl h
  | [v], _, elems, stack, rest => by
      rw [elemLexemes, parseFrom_lexemes v]
      exact (parseFrom_step _ rest rfl).trans (by simp)
  | v :: w :: vs, _, elems, stack, rest => by
      rw [elemLexemes, List.append_assoc, parseFrom_lexemes v, List.cons_append]
      refine (parseFrom_step _ _ rfl).trans ?_
      rw [parseFrom_elems (w :: vs) (by simp) (v :: elems) stack rest]
      simp

theorem parseFrom_members : ∀ (ms : List (String × Json)), ms ≠ [] →
    ∀ (members : List (String × Json)) (key : String) (stack : List Frame) (rest : List Lexeme),
    parseFrom (.reading .key (.object members key :: stack))
        (memberLexemes ms ++ .closeBrace :: rest) =
      parseFrom (ParseState.deliver (.object (members.reverse ++ ms)) stack) rest
  | [], h, _, _, _, _ => absurd rfl h
  | [(k, v)], _, members, key, stack, rest => by
      rw [memberLexemes, List.cons_append, List.cons_append]
      refine (parseFrom_step _ _ rfl).trans ((parseFrom_step _ _ rfl).trans ?_)
      rw [parseFrom_lexemes v]
      exact (parseFrom_step _ rest rfl).trans (by simp)
  | (k, v) :: m :: ms, _, members, key, stack, rest => by
      rw [memberLexemes, List.cons_append, List.cons_append]
      refine (parseFrom_step _ _ rfl).trans ((parseFrom_step _ _ rfl).trans ?_)
      rw [List.append_assoc, parseFrom_lexemes v, List.cons_append]
      refine (parseFrom_step _ _ rfl).trans ?_
      rw [parseFrom_members (m :: ms) (by simp) ((k, v) :: members) k stack rest]
      simp

end

/-- The compact text of a writable value parses to that value. -/
theorem Json.parse_render {j : Json} (h : j.Writable) : Json.parse j.render = some j := by
  have hlex := j.spells_render h [] trivial
  have hparse := parseFrom_lexemes j [] []
  simp only [List.append_nil] at hlex hparse
  simp only [Json.parse, hlex, lexFrom, LexState.finish, Option.map_some, Option.bind_some,
    List.append_nil]
  exact hparse

end Lktrs.Foundation
