import Mathlib.Data.List.Count
import Mathlib.Tactic

/-!
# Counting owners

A variable that may own something is a slot: out of scope, empty, or holding the
number of what it owns. How many owners a cell has is a count over slots, and
what an owner that is not a variable yet (a temporary, an argument passed by
value) holds is a list of tokens. The lemmas say how a count changes when one
slot is overwritten or a new one is declared; they are stated with sums, so that
no subtraction enters.
-/

set_option autoImplicit false

namespace Lktrs.Foundation

universe u

/-- A variable: `none` is out of scope, `some none` owns nothing. -/
abbrev Slot : Type := Option (Option ℕ)

/-- What a slot owns. -/
def Slot.tokens : Slot → List ℕ
  | some (some n) => [n]
  | _ => []

@[simp] theorem Slot.tokens_holding (n : ℕ) : Slot.tokens (some (some n)) = [n] := rfl

@[simp] theorem Slot.tokens_empty : Slot.tokens (some none) = [] := rfl

@[simp] theorem Slot.tokens_gone : Slot.tokens none = [] := rfl

/-- How many slots own `n`. -/
def owners (slots : List Slot) (n : ℕ) : ℕ := slots.count (some (some n))

theorem getElem?_set_of_some {α : Type u} {l : List α} {i : ℕ} {a : α} (h : l[i]? = some a) (b : α) :
    (l.set i b)[i]? = some b :=
  List.getElem?_set_self (List.getElem?_eq_some_iff.1 h).1

/-- What stands in a list after one entry was overwritten. -/
theorem getElem?_set_cases {α : Type u} {l : List α} {i j : ℕ} {a b d : α} (h : l[i]? = some a)
    (hd : (l.set i b)[j]? = some d) : j = i ∧ d = b ∨ j ≠ i ∧ l[j]? = some d := by
  by_cases hj : j = i
  · subst hj
    rw [getElem?_set_of_some h b, Option.some.injEq] at hd
    exact .inl ⟨rfl, hd.symm⟩
  · rw [List.getElem?_set_ne (Ne.symm hj)] at hd
    exact .inr ⟨hj, hd⟩

/-- Overwriting one entry changes a count by what the two entries contribute. -/
theorem countP_set_add {α : Type u} (p : α → Bool) : ∀ {l : List α} {i : ℕ} {a : α},
    l[i]? = some a → ∀ b : α,
      (l.set i b).countP p + (if p a then 1 else 0) = l.countP p + if p b then 1 else 0
  | [], i, a, h, _ => by simp at h
  | c :: l, 0, a, h, b => by
      obtain rfl : c = a := by simpa using h
      simp only [List.set_cons_zero, List.countP_cons]
      omega
  | c :: l, i + 1, a, h, b => by
      have ih := countP_set_add p (l := l) (i := i) (by simpa using h) b
      simp only [List.set_cons_succ, List.countP_cons]
      omega

theorem Slot.count_tokens (v : Slot) (n : ℕ) :
    v.tokens.count n = if v == some (some n) then 1 else 0 := by
  cases v with
  | none => rfl
  | some o =>
      cases o with
      | none => rfl
      | some m =>
          by_cases h : m = n
          · simp [h]
          · simp [h]

/-- A slot that is overwritten gives back what it owned. -/
theorem owners_set {slots : List Slot} {i : ℕ} {old : Slot} (h : slots[i]? = some old) (new : Slot)
    (n : ℕ) : owners (slots.set i new) n + old.tokens.count n =
      owners slots n + new.tokens.count n := by
  rw [Slot.count_tokens, Slot.count_tokens]
  exact countP_set_add (· == some (some n)) h new

theorem owners_append (slots : List Slot) (new : Slot) (n : ℕ) :
    owners (slots ++ [new]) n = owners slots n + new.tokens.count n := by
  rw [Slot.count_tokens, owners, owners, List.count_append, List.count_singleton]

theorem owners_pos {slots : List Slot} {n : ℕ} : 0 < owners slots n ↔ some (some n) ∈ slots :=
  List.count_pos_iff

end Lktrs.Foundation
