import Lktrs.Foundation.JsonRoundTrip

/-!
# JSON read token by token

A streaming decoder sees the lexemes of a text one after the other and may stop, or
fail, before the end. `readLexemes` is what such a decoder sees: the lexemes up to
the first error, and whether the text ended cleanly behind them.

The parser is exact for the lexemes of a value (`parseFrom_eq_some`): it delivers a
value exactly when it has read that value's lexemes. `Reads` says which lexemes have
been read when the parser is in a state.
-/

set_option autoImplicit false

namespace Lktrs.Foundation

/-! ## Streaming -/

/-- How a stream of lexemes ends: with the text, or with an error. -/
inductive StreamEnd where
  | eof
  | broken
  deriving Repr, DecidableEq

/-- The lexemes of a text up to its end or its first error. -/
def readLexemes (last : LexState → List Lexeme × StreamEnd) : LexState → List Char →
    List Lexeme × StreamEnd
  | state, [] => last state
  | state, c :: cs =>
      match state.step c with
      | none => ([], .broken)
      | some (state', out) =>
          let (more, ending) := readLexemes last state' cs
          (out ++ more, ending)

/-- A text that is there to its end. -/
def endOfText (state : LexState) : List Lexeme × StreamEnd :=
  match state.finish with
  | some out => (out, .eof)
  | none => ([], .broken)

/-- A text that is cut off by a read error. -/
def cutOff (_ : LexState) : List Lexeme × StreamEnd := ([], .broken)

/-- The stream ends with the text exactly if the text has lexemes, and these are read. -/
theorem readLexemes_eof_iff (cs : List Char) (state : LexState) (ls : List Lexeme) :
    readLexemes endOfText state cs = (ls, .eof) ↔ lexFrom state cs = some ls := by
  induction cs generalizing state ls with
  | nil =>
      simp only [readLexemes, endOfText, lexFrom]
      cases state.finish with
      | none => simp
      | some out => simp
  | cons c cs ih =>
      simp only [readLexemes, lexFrom]
      cases state.step c with
      | none => simp
      | some out =>
          obtain ⟨state', out⟩ := out
          simp only [Prod.mk.injEq, Option.map_eq_some_iff]
          constructor
          · rintro ⟨rfl, hend⟩
            exact ⟨_, (ih state' _).1 (Prod.ext rfl hend), rfl⟩
          · rintro ⟨more, hmore, rfl⟩
            have := (ih state' more).2 hmore
            rw [this]
            exact ⟨rfl, rfl⟩

/-- A stream that is cut off never ends cleanly. -/
theorem readLexemes_cutOff (cs : List Char) (state : LexState) :
    (readLexemes cutOff state cs).2 = .broken := by
  induction cs generalizing state with
  | nil => rfl
  | cons c cs ih =>
      simp only [readLexemes]
      cases state.step c with
      | none => rfl
      | some out => exact ih out.1

/-! ## What the parser has read -/

theorem elemLexemes_concat (vs : List Json) (v : Json) :
    elemLexemes (vs ++ [v]) =
      (if vs = [] then [] else elemLexemes vs ++ [.comma]) ++ v.lexemes := by
  induction vs with
  | nil => simp [elemLexemes]
  | cons w vs ih =>
      cases vs with
      | nil => simp [elemLexemes]
      | cons u vs => simpa [elemLexemes] using ih

theorem memberLexemes_concat (ms : List (String × Json)) (k : String) (v : Json) :
    memberLexemes (ms ++ [(k, v)]) =
      (if ms = [] then [] else memberLexemes ms ++ [.comma]) ++ .string k :: .colon :: v.lexemes := by
  induction ms with
  | nil => simp [memberLexemes]
  | cons m ms ih =>
      obtain ⟨k', v'⟩ := m
      cases ms with
      | nil => simp [memberLexemes]
      | cons n ms => simpa [memberLexemes] using ih

/-- The elements of an open array, with the comma in front of the next one. -/
def openElems (elems : List Json) : List Lexeme :=
  if elems = [] then [] else elemLexemes elems.reverse ++ [.comma]

/-- The members of an open object, with the comma in front of the next one. -/
def openMembers (members : List (String × Json)) : List Lexeme :=
  if members = [] then [] else memberLexemes members.reverse ++ [.comma]

/-- What has been read when the innermost frame waits for a value. -/
def waiting : List Frame → List Lexeme
  | [] => []
  | .array elems :: stack => waiting stack ++ .openBracket :: openElems elems
  | .object members key :: stack =>
      waiting stack ++ .openBrace :: (openMembers members ++ [.string key, .colon])

/-- `Reads state ls`: the parser is in this state after the lexemes `ls`. -/
inductive Reads : ParseState → List Lexeme → Prop where
  | done (v : Json) : Reads (.done v) v.lexemes
  | value (stack : List Frame) : Reads (.reading .value stack) (waiting stack)
  | elementOrEnd (stack : List Frame) :
      Reads (.reading .elementOrEnd (.array [] :: stack)) (waiting stack ++ [.openBracket])
  | commaOrBracket (elems : List Json) (stack : List Frame) (h : elems ≠ []) :
      Reads (.reading .commaOrBracket (.array elems :: stack))
        (waiting stack ++ .openBracket :: elemLexemes elems.reverse)
  | keyOrEnd (key : String) (stack : List Frame) :
      Reads (.reading .keyOrEnd (.object [] key :: stack)) (waiting stack ++ [.openBrace])
  | key (members : List (String × Json)) (key : String) (stack : List Frame) (h : members ≠ []) :
      Reads (.reading .key (.object members key :: stack))
        (waiting stack ++ .openBrace :: openMembers members)
  | colon (members : List (String × Json)) (key s : String) (stack : List Frame) :
      Reads (.reading (.colon s) (.object members key :: stack))
        (waiting stack ++ .openBrace :: (openMembers members ++ [.string s]))
  | commaOrBrace (members : List (String × Json)) (key : String) (stack : List Frame)
      (h : members ≠ []) :
      Reads (.reading .commaOrBrace (.object members key :: stack))
        (waiting stack ++ .openBrace :: memberLexemes members.reverse)

/-- A finished value is read when it is delivered. -/
theorem reads_deliver (v : Json) (stack : List Frame) :
    Reads (ParseState.deliver v stack) (waiting stack ++ v.lexemes) := by
  match stack with
  | [] => exact .done v
  | .array elems :: stack =>
      have := Reads.commaOrBracket (v :: elems) stack (by simp)
      simpa [elemLexemes_concat, waiting, openElems, ParseState.deliver] using this
  | .object members key :: stack =>
      have := Reads.commaOrBrace ((key, v) :: members) key stack (by simp)
      simpa [memberLexemes_concat, waiting, openMembers, ParseState.deliver] using this

/-- A lexeme where a value may start is read. -/
theorem reads_startValue {stack : List Frame} {l : Lexeme} {state : ParseState}
    (h : ParseState.startValue stack l = some state) : Reads state (waiting stack ++ [l]) := by
  cases l with
  | null | bool | number | string =>
      obtain rfl : _ = state := by simpa [ParseState.startValue] using h
      exact reads_deliver _ stack
  | openBracket =>
      obtain rfl : _ = state := by simpa [ParseState.startValue] using h
      exact .elementOrEnd stack
  | openBrace =>
      obtain rfl : _ = state := by simpa [ParseState.startValue] using h
      exact .keyOrEnd "" stack
  | closeBrace | closeBracket | colon | comma => simp [ParseState.startValue] at h

/-- One lexeme more is read with every step. -/
theorem Reads.step {state state' : ParseState} {ls : List Lexeme} {l : Lexeme}
    (h : Reads state ls) (hstep : state.step l = some state') : Reads state' (ls ++ [l]) := by
  cases h with
  | done v => simp [ParseState.step] at hstep
  | value stack => exact reads_startValue (by simpa [ParseState.step] using hstep)
  | elementOrEnd stack =>
      by_cases hl : l = .closeBracket
      · subst hl
        obtain rfl : _ = state' := by simpa [ParseState.step] using hstep
        simpa [Json.lexemes, elemLexemes] using reads_deliver (.array []) stack
      · have hstart : ParseState.startValue (.array [] :: stack) l = some state' := by
          cases l <;> first | exact absurd rfl hl | simpa [ParseState.step] using hstep
        exact reads_startValue hstart
  | commaOrBracket elems stack hne =>
      cases l with
      | closeBracket =>
          obtain rfl : _ = state' := by simpa [ParseState.step] using hstep
          simpa [Json.lexemes] using reads_deliver (.array elems.reverse) stack
      | comma =>
          obtain rfl : _ = state' := by simpa [ParseState.step] using hstep
          simpa [waiting, openElems, hne] using Reads.value (.array elems :: stack)
      | _ => simp [ParseState.step] at hstep
  | keyOrEnd key stack =>
      cases l with
      | closeBrace =>
          obtain rfl : _ = state' := by simpa [ParseState.step] using hstep
          simpa [Json.lexemes, memberLexemes] using reads_deliver (.object []) stack
      | string s =>
          obtain rfl : _ = state' := by simpa [ParseState.step] using hstep
          simpa [openMembers] using Reads.colon [] key s stack
      | _ => simp [ParseState.step] at hstep
  | key members key stack hne =>
      cases l with
      | string s =>
          obtain rfl : _ = state' := by simpa [ParseState.step] using hstep
          simpa using Reads.colon members key s stack
      | _ => simp [ParseState.step] at hstep
  | colon members key s stack =>
      cases l with
      | colon =>
          obtain rfl : _ = state' := by simpa [ParseState.step] using hstep
          simpa [waiting] using Reads.value (.object members s :: stack)
      | _ => simp [ParseState.step] at hstep
  | commaOrBrace members key stack hne =>
      cases l with
      | closeBrace =>
          obtain rfl : _ = state' := by simpa [ParseState.step] using hstep
          simpa [Json.lexemes] using reads_deliver (.object members.reverse) stack
      | comma =>
          obtain rfl : _ = state' := by simpa [ParseState.step] using hstep
          simpa [openMembers, hne] using Reads.key members key stack hne
      | _ => simp [ParseState.step] at hstep

theorem Reads.parseFrom {state : ParseState} {read rest : List Lexeme} {j : Json}
    (h : Reads state read) (hparse : parseFrom state rest = some j) : read ++ rest = j.lexemes := by
  induction rest generalizing state read with
  | nil =>
      cases h with
      | done v =>
          obtain rfl : v = j := by simpa [Foundation.parseFrom, ParseState.result] using hparse
          exact List.append_nil _
      | _ => simp [Foundation.parseFrom, ParseState.result] at hparse
  | cons l rest ih =>
      simp only [Foundation.parseFrom] at hparse
      cases hstep : state.step l with
      | none => simp [hstep] at hparse
      | some state' =>
          rw [hstep] at hparse
          rw [List.append_cons]
          exact ih (h.step hstep) hparse

/-- The parser delivers a value exactly for that value's lexemes. -/
theorem parseFrom_eq_some {ls : List Lexeme} {j : Json} :
    parseFrom (.reading .value []) ls = some j ↔ ls = j.lexemes := by
  constructor
  · exact fun h => (Reads.value []).parseFrom h
  · rintro rfl
    have := parseFrom_lexemes j [] []
    rwa [List.append_nil] at this

/-- A text spells a value exactly if its lexemes are those of the value. -/
theorem Json.parse_eq_some {text : List Char} {j : Json} :
    Json.parse text = some j ↔ lexFrom .idle text = some j.lexemes := by
  simp only [Json.parse, Option.bind_eq_some_iff, parseFrom_eq_some]
  constructor
  · rintro ⟨ls, hls, rfl⟩
    exact hls
  · exact fun h => ⟨_, h, rfl⟩

end Lktrs.Foundation
