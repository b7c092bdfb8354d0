import Lktrs.Foundation.JsonRoundTrip

/-!
# Indented JSON texts

The indented writer puts every element and every member on a line of its own, two
blanks deeper than the bracket around it, and a blank after a member's colon;
empty arrays and objects stay on one line. White space between lexemes is not
seen by the reader, so an indented text parses to the value it was written from
(`Json.parse_renderIndent`), as a compact text does.
-/

set_option autoImplicit false

namespace Lktrs.Foundation

/-- A line break and the blanks of a nesting depth. -/
def lineBreak (depth : ℕ) : List Char := '\n' :: List.replicate (2 * depth) ' '

mutual

/-- The text of a value inside brackets of a nesting depth. -/
def Json.renderIndent (depth : ℕ) : Json → List Char
  | .array (v :: vs) =>
      '[' :: (indentElems (depth + 1) (v :: vs) ++ (lineBreak depth ++ [']']))
  | .object (m :: ms) =>
      '{' :: (indentMembers (depth + 1) (m :: ms) ++ (lineBreak depth ++ ['}']))
  | j => j.render

/-- Elements, each behind its line break. -/
def indentElems (depth : ℕ) : List Json → List Char
  | [] => []
  | [v] => lineBreak depth ++ v.renderIndent depth
  | v :: w :: vs => lineBreak depth ++ (v.renderIndent depth ++ ',' :: indentElems depth (w :: vs))

def indentMembers (depth : ℕ) : List (String × Json) → List Char
  | [] => []
  | [(k, v)] => lineBreak depth ++ (renderString k ++ ':' :: ' ' :: v.renderIndent depth)
  | (k, v) :: m :: ms =>
      lineBreak depth ++ (renderString k ++ ':' :: ' ' :: (v.renderIndent depth ++
        ',' :: indentMembers depth (m :: ms)))

end

/-! ## White space -/

theorem lexFrom_blanks (n : ℕ) (rest : List Char) :
    lexFrom .idle (List.replicate n ' ' ++ rest) = lexFrom .idle rest := by
  induction n with
  | zero => rfl
  | succ n ih => exact (lexFrom_silent .idle _ (by rfl)).trans ih

theorem lexFrom_lineBreak (depth : ℕ) (rest : List Char) :
    lexFrom .idle (lineBreak depth ++ rest) = lexFrom .idle rest :=
  (lexFrom_silent .idle _ (by rfl)).trans (lexFrom_blanks _ rest)

/-- White space in front of a text is not seen. -/
theorem Spells.lineBreak {text : List Char} {lexemes : List Lexeme} (depth : ℕ)
    (h : Spells text lexemes) : Spells (lineBreak depth ++ text) lexemes := by
  intro rest hrest
  rw [List.append_assoc, lexFrom_lineBreak, h rest hrest]

theorem Spells.blank {text : List Char} {lexemes : List Lexeme} (h : Spells text lexemes) :
    Spells (' ' :: text) lexemes := by
  intro rest hrest
  rw [List.cons_append, lexFrom_silent .idle _ (by rfl), h rest hrest]

/-- A closing bracket on its own line. -/
theorem Spells.indented {c d : Char} {l m : Lexeme} {text : List Char} {lexemes : List Lexeme}
    (hc : LexState.idle.step c = some (.idle, [l])) (hd : LexState.idle.step d = some (.idle, [m]))
    (depth : ℕ) (h : Spells text lexemes) :
    Spells (c :: (text ++ (Foundation.lineBreak depth ++ [d]))) (l :: (lexemes ++ [m])) := by
  intro rest hrest
  apply lexFrom_punctuation hc
  -- the line break ends the text, and is then skipped
  have hclose : lexFrom .idle (d :: rest) = (lexFrom .idle rest).map ([m] ++ ·) :=
    lexFrom_emit .idle rest hd
  have hend : lexFrom .idle (Foundation.lineBreak depth ++ ([d] ++ rest)) =
      (lexFrom .idle rest).map ([m] ++ ·) :=
    (lexFrom_lineBreak depth _).trans hclose
  rw [List.append_assoc, List.append_assoc,
    h (Foundation.lineBreak depth ++ ([d] ++ rest)) (.inr (.inr (.inr rfl))), hend, Option.map_map]
  simp [Function.comp_def]

mutual

theorem Json.spells_renderIndent (depth : ℕ) :
    ∀ j : Json, j.Writable → Spells (j.renderIndent depth) j.lexemes
  | .null, h => Json.spells_render .null h
  | .bool b, h => Json.spells_render (.bool b) h
  | .number literal, h => Json.spells_render (.number literal) h
  | .string s, h => Json.spells_render (.string s) h
  | .array [], h => Json.spells_render (.array []) h
  | .object [], h => Json.spells_render (.object []) h
  | .array (v :: vs), h => by
      have helems : NumbersOk (elemLexemes (v :: vs)) :=
        (numbersOk_append.1 (numbersOk_cons.1 h).2).1
      exact (spells_indentElems (depth + 1) (v :: vs) helems).indented rfl rfl depth
  | .object (m :: ms), h => by
      have hmembers : NumbersOk (memberLexemes (m :: ms)) :=
        (numbersOk_append.1 (numbersOk_cons.1 h).2).1
      exact (spells_indentMembers (depth + 1) (m :: ms) hmembers).indented rfl rfl depth

theorem spells_indentElems (depth : ℕ) : ∀ vs : List Json, NumbersOk (elemLexemes vs) →
    Spells (indentElems depth vs) (elemLexemes vs)
  | [], _ => spells_nil
  | [v], h => (Json.spells_renderIndent depth v h).lineBreak depth
  | v :: w :: vs, h => by
      obtain ⟨hv, hrest⟩ := numbersOk_append.1 h
      exact ((Json.spells_renderIndent depth v hv).separated rfl (by decide)
        (spells_indentElems depth (w :: vs) (numbersOk_cons.1 hrest).2)).lineBreak depth

theorem spells_indentMembers (depth : ℕ) : ∀ ms : List (String × Json),
    NumbersOk (memberLexemes ms) → Spells (indentMembers depth ms) (memberLexemes ms)
  | [], _ => spells_nil
  | [(k, v)], h => by
      have hv := (numbersOk_cons.1 (numbersOk_cons.1 h).2).2
      exact ((Json.spells_renderIndent depth v hv).blank.member k).lineBreak depth
  | (k, v) :: m :: ms, h => by
      obtain ⟨hv, hrest⟩ := numbersOk_append.1 (numbersOk_cons.1 (numbersOk_cons.1 h).2).2
      have hmembers := spells_indentMembers depth (m :: ms) (numbersOk_cons.1 hrest).2
      exact (((Json.spells_renderIndent depth v hv).separated rfl (by decide)
        hmembers).blank.member k).lineBreak depth

end

/-- The indented text of a writable value, with a line break at its end, parses to that value. -/
theorem Json.parse_renderIndent {j : Json} (h : j.Writable) :
    Json.parse (j.renderIndent 0 ++ ['\n']) = some j := by
  have hlex := j.spells_renderIndent 0 h ['\n'] (.inr (.inr (.inr rfl)))
  have hend : lexFrom .idle ['\n'] = some [] := rfl
  have hparse := parseFrom_lexemes j [] []
  rw [List.append_nil] at hparse
  rw [Json.parse, hlex, hend, Option.map_some, Option.bind_some, List.append_nil, hparse]
  rfl

end Lktrs.Foundation
