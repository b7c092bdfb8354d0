import Lktrs.Foundation.TextCodec

/-!
# JSON texts

The grammar of JSON as two automata, one over characters and one over lexemes,
so that reading a text is a fold over it. String escapes follow the usual
decoder: an unpaired surrogate escape reads as the replacement character. A
number keeps its literal text. `Json.render` is the compact writer; it escapes
what the Go encoder escapes.
-/

set_option autoImplicit false

namespace Lktrs.Foundation

/-- A JSON value; object members keep their order and any repetition. -/
inductive Json where
  | null
  | bool (b : Bool)
  | number (literal : List Char)
  | string (s : String)
  | array (elems : List Json)
  | object (members : List (String × Json))

inductive Lexeme where
  | openBrace
  | closeBrace
  | openBracket
  | closeBracket
  | colon
  | comma
  | null
  | bool (b : Bool)
  | number (literal : List Char)
  | string (s : String)
  deriving DecidableEq

/-! ## Lexing -/

/-- How far a number literal has been read. -/
inductive NumberState where
  | minus
  | zero
  | digits
  | dot
  | fraction
  | exponent
  | exponentSign
  | exponentDigits
  deriving DecidableEq

/-- The first character of a number. -/
def NumberState.start (c : Char) : Option NumberState :=
  if c = '-' then some .minus else if c = '0' then some .zero
  else if c.isDigit then some .digits else none

def NumberState.next : NumberState → Char → Option NumberState
  | .minus, c => if c = '0' then some .zero else if c.isDigit then some .digits else none
  | .zero, c => if c = '.' then some .dot else if c = 'e' ∨ c = 'E' then some .exponent else none
  | .digits, c =>
      if c.isDigit then some .digits else if c = '.' then some .dot
      else if c = 'e' ∨ c = 'E' then some .exponent else none
  | .dot, c => if c.isDigit then some .fraction else none
  | .fraction, c =>
      if c.isDigit then some .fraction else if c = 'e' ∨ c = 'E' then some .exponent else none
  | .exponent, c =>
      if c = '+' ∨ c = '-' then some .exponentSign
      else if c.isDigit then some .exponentDigits else none
  | .exponentSign, c => if c.isDigit then some .exponentDigits else none
  | .exponentDigits, c => if c.isDigit then some .exponentDigits else none

/-- A number may end here. -/
def NumberState.complete : NumberState → Bool
  | .zero | .digits | .fraction | .exponentDigits => true
  | _ => false

/-- A text is one whole number literal. -/
def isNumberLiteral : List Char → Bool
  | [] => false
  | c :: cs =>
      match (NumberState.start c).bind fun state => cs.foldlM NumberState.next state with
      | some state => state.complete
      | none => false

/-- What has been read of the current lexeme; text is accumulated in reverse. -/
inductive LexState where
  | idle
  | keyword (rest : List Char) (lexeme : Lexeme)
  | number (state : NumberState) (text : List Char)
  | string (text : List Char)
  | escape (text : List Char)
  | hex (text : List Char) (missing value : ℕ)
  | high (text : List Char) (surrogate : ℕ)
  | highEscape (text : List Char) (surrogate : ℕ)
  | highHex (text : List Char) (surrogate missing value : ℕ)
  deriving DecidableEq

def replacementChar : Char := Char.ofNat 0xfffd

/-- The character after a backslash, other than `u`. -/
def simpleEscape (c : Char) : Option Char :=
  if c = '"' then some '"' else if c = '\\' then some '\\' else if c = '/' then some '/'
  else if c = 'b' then some (Char.ofNat 8) else if c = 'f' then some (Char.ofNat 12)
  else if c = 'n' then some '\n' else if c = 'r' then some '\r' else if c = 't' then some '\t'
  else none

/-- Inside a string. -/
def LexState.stringStep (text : List Char) (c : Char) : Option (LexState × List Lexeme) :=
  if c = '"' then some (.idle, [.string (String.ofList text.reverse)])
  else if c = '\\' then some (.escape text, [])
  else if c.toNat < 0x20 then none
  else some (.string (c :: text), [])

def LexState.escapeStep (text : List Char) (c : Char) : Option (LexState × List Lexeme) :=
  if c = 'u' then some (.hex text 4 0, [])
  else (simpleEscape c).map fun d => (.string (d :: text), [])

/-- A complete four-digit escape: a high surrogate waits for its partner. -/
def LexState.codeUnit (text : List Char) (value : ℕ) : LexState :=
  if 0xd800 ≤ value ∧ value < 0xdc00 then .high text value
  else if 0xdc00 ≤ value ∧ value < 0xe000 then .string (replacementChar :: text)
  else .string (Char.ofNat value :: text)

/-- A complete four-digit escape after a high surrogate. -/
def LexState.codeUnitPair (text : List Char) (surrogate value : ℕ) : LexState :=
  if 0xdc00 ≤ value ∧ value < 0xe000 then
    .string (Char.ofNat (0x10000 + (surrogate - 0xd800) * 0x400 + (value - 0xdc00)) :: text)
  else .codeUnit (replacementChar :: text) value

def LexState.idleStep (c : Char) : Option (LexState × List Lexeme) :=
  if c = ' ' ∨ c = '\t' ∨ c = '\n' ∨ c = '\r' then some (.idle, [])
  else if c = '{' then some (.idle, [.openBrace])
  else if c = '}' then some (.idle, [.closeBrace])
  else if c = '[' then some (.idle, [.openBracket])
  else if c = ']' then some (.idle, [.closeBracket])
  else if c = ':' then some (.idle, [.colon])
  else if c = ',' then some (.idle, [.comma])
  else if c = '"' then some (.string [], [])
  else if c = 't' then some (.keyword ['r', 'u', 'e'] (.bool true), [])
  else if c = 'f' then some (.keyword ['a', 'l', 's', 'e'] (.bool false), [])
  else if c = 'n' then some (.keyword ['u', 'l', 'l'] .null, [])
  else (NumberState.start c).map fun state => (.number state [c], [])

/-- One character: the next state, and the lexemes it completes. -/
def LexState.step : LexState → Char → Option (LexState × List Lexeme)
  | .idle, c => idleStep c
  | .keyword [] _, _ => none
  | .keyword [d] lexeme, c => if c = d then some (.idle, [lexeme]) else none
  | .keyword (d :: rest) lexeme, c => if c = d then some (.keyword rest lexeme, []) else none
  | .number state text, c =>
      match state.next c with
      | some state' => some (.number state' (c :: text), [])
      -- the character behind a number ends it and is read again from the idle state
      | none =>
          if state.complete then
            (idleStep c).map fun out => (out.1, .number text.reverse :: out.2)
          else none
  | .string text, c => stringStep text c
  | .escape text, c => escapeStep text c
  | .hex text missing value, c =>
      match hexDigitValue c with
      | none => none
      | some d =>
          if missing ≤ 1 then some (.codeUnit text (16 * value + d), [])
          else some (.hex text (missing - 1) (16 * value + d), [])
  | .high text surrogate, c =>
      -- a high surrogate without a low one becomes the replacement character
      if c = '\\' then some (.highEscape text surrogate, [])
      else stringStep (replacementChar :: text) c
  | .highEscape text surrogate, c =>
      if c = 'u' then some (.highHex text surrogate 4 0, [])
      else escapeStep (replacementChar :: text) c
  | .highHex text surrogate missing value, c =>
      match hexDigitValue c with
      | none => none
      | some d =>
          if missing ≤ 1 then some (.codeUnitPair text surrogate (16 * value + d), [])
          else some (.highHex text surrogate (missing - 1) (16 * value + d), [])

/-- What the end of the text completes. -/
def LexState.finish : LexState → Option (List Lexeme)
  | .idle => some []
  | .number state text => if state.complete then some [.number text.reverse] else none
  | _ => none

/-- The lexemes of a text read from a state. -/
def lexFrom : LexState → List Char → Option (List Lexeme)
  | state, [] => state.finish
  | state, c :: cs =>
      match state.step c with
      | none => none
      | some (state', out) => (lexFrom state' cs).map (out ++ ·)

/-! ## Parsing -/

/-- An unfinished array or object; what it holds is in reverse. -/
inductive Frame where
  | array (elems : List Json)
  | object (members : List (String × Json)) (key : String)

/-- What may come next. -/
inductive Expect where
  | value
  | elementOrEnd
  | commaOrBracket
  | keyOrEnd
  | key
  | colon (key : String)
  | commaOrBrace
  deriving DecidableEq

/-- Open frames with what is expected inside them, or the finished value. -/
inductive ParseState where
  | reading (expect : Expect) (stack : List Frame)
  | done (value : Json)

/-- Hand a finished value to the innermost frame. -/
def ParseState.deliver (value : Json) : List Frame → ParseState
  | [] => .done value
  | .array elems :: stack => .reading .commaOrBracket (.array (value :: elems) :: stack)
  | .object members key :: stack =>
      .reading .commaOrBrace (.object ((key, value) :: members) key :: stack)

/-- A lexeme where a value may start. -/
def ParseState.startValue (stack : List Frame) : Lexeme → Option ParseState
  | .null => some (deliver .null stack)
  | .bool b => some (deliver (.bool b) stack)
  | .number literal => some (deliver (.number literal) stack)
  | .string s => some (deliver (.string s) stack)
  | .openBracket => some (.reading .elementOrEnd (.array [] :: stack))
  | .openBrace => some (.reading .keyOrEnd (.object [] "" :: stack))
  | _ => none

def ParseState.step : ParseState → Lexeme → Option ParseState
  | .done _, _ => none
  | .reading .value stack, l => startValue stack l
  | .reading .elementOrEnd (.array [] :: stack), .closeBracket => some (deliver (.array []) stack)
  | .reading .elementOrEnd stack, l => startValue stack l
  | .reading .commaOrBracket (.array elems :: stack), .closeBracket =>
      some (deliver (.array elems.reverse) stack)
  | .reading .commaOrBracket stack, .comma => some (.reading .value stack)
  | .reading .keyOrEnd (.object [] _ :: stack), .closeBrace => some (deliver (.object []) stack)
  | .reading .keyOrEnd stack, .string s => some (.reading (.colon s) stack)
  | .reading .key stack, .string s => some (.reading (.colon s) stack)
  | .reading (.colon s) (.object members _ :: stack), .colon =>
      some (.reading .value (.object members s :: stack))
  | .reading .commaOrBrace (.object members _ :: stack), .closeBrace =>
      some (deliver (.object members.reverse) stack)
  | .reading .commaOrBrace stack, .comma => some (.reading .key stack)
  | _, _ => none

def ParseState.result : ParseState → Option Json
  | .done value => some value
  | .reading _ _ => none

/-- Read lexemes from a state to the end. -/
def parseFrom : ParseState → List Lexeme → Option Json
  | state, [] => state.result
  | state, l :: ls =>
      match state.step l with
      | none => none
      | some state' => parseFrom state' ls

/-- The value a text spells: one value and nothing else but white space. -/
def Json.parse (text : List Char) : Option Json :=
  (lexFrom .idle text).bind (parseFrom (.reading .value []))

/-! ## Integers -/

/-- The natural number a plain run of digits spells. -/
def naturalLiteral (literal : List Char) : Option ℕ :=
  if literal ≠ [] ∧ literal.all Char.isDigit then some (Nat.ofDigitChars 10 literal 0) else none

/-- The integer a literal without fraction and exponent spells. -/
def integerLiteral : List Char → Option ℤ
  | '-' :: digits => (naturalLiteral digits).map fun n => -(n : ℤ)
  | digits => (naturalLiteral digits).map fun n => (n : ℤ)

/-- The literal of an integer. -/
def integerText : ℤ → List Char
  | .ofNat n => Nat.toDigits 10 n
  | .negSucc n => '-' :: Nat.toDigits 10 (n + 1)

/-! ## Writing -/

/-- The four lowercase hexadecimal digits of a code unit. -/
def hexQuad (n : ℕ) : List Char :=
  [hexDigit (n / 4096 % 16), hexDigit (n / 256 % 16), hexDigit (n / 16 % 16), hexDigit (n % 16)]

/-- Characters the encoder writes as a code unit escape: controls without a short form, the
HTML-sensitive ones and the two line separators. -/
def needsHexEscape (c : Char) : Bool :=
  c.toNat < 0x20 || c = '<' || c = '>' || c = '&' || c.toNat = 0x2028 || c.toNat = 0x2029

def escapeChar (c : Char) : List Char :=
  if c = '"' then ['\\', '"']
  else if c = '\\' then ['\\', '\\']
  else if c = Char.ofNat 8 then ['\\', 'b']
  else if c = Char.ofNat 12 then ['\\', 'f']
  else if c = '\n' then ['\\', 'n']
  else if c = '\r' then ['\\', 'r']
  else if c = '\t' then ['\\', 't']
  else if needsHexEscape c then ['\\', 'u'] ++ hexQuad c.toNat
  else [c]

def renderString (s : String) : List Char := '"' :: (s.toList.flatMap escapeChar ++ ['"'])

mutual

/-- The compact text of a value. -/
def Json.render : Json → List Char
  | .null => ['n', 'u', 'l', 'l']
  | .bool true => ['t', 'r', 'u', 'e']
  | .bool false => ['f', 'a', 'l', 's', 'e']
  | .number literal => literal
  | .string s => renderString s
  | .array elems => '[' :: (renderElems elems ++ [']'])
  | .object members => '{' :: (renderMembers members ++ ['}'])

def renderElems : List Json → List Char
  | [] => []
  | [v] => v.render
  | v :: w :: vs => v.render ++ ',' :: renderElems (w :: vs)

def renderMembers : List (String × Json) → List Char
  | [] => []
  | [(k, v)] => renderString k ++ ':' :: v.render
  | (k, v) :: m :: ms => renderString k ++ ':' :: (v.render ++ ',' :: renderMembers (m :: ms))

end

end Lktrs.Foundation
