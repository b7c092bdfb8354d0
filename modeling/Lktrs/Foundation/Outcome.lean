import Mathlib.Tactic.Common

/-!
# Fallible computations that report a message

A function that returns a value and an error is read as an `Except String`
computation. `rejectIf` is the early return on a failed check, `wrapError` the
prefix a caller puts in front of an error it passes on. Both come with the
inversion lemmas that take a successful run apart: a run succeeds exactly when
every check passed and every callee succeeded.
-/

set_option autoImplicit false

namespace Lktrs.Foundation

universe u v

variable {ε : Type u} {α β : Type v}

/-- Return the error `msg` when the condition holds, and go on otherwise. -/
def rejectIf (c : Prop) [Decidable c] (msg : String) : Except String Unit :=
  if c then .error msg else .ok ()

/-- Put a text in front of the error a callee returned. -/
def wrapError (text : String) (x : Except String α) : Except String α :=
  x.mapError (text ++ ·)

@[simp] theorem rejectIf_eq_ok {c : Prop} [Decidable c] {msg : String} {u : Unit} :
    rejectIf c msg = .ok u ↔ ¬ c := by
  unfold rejectIf
  split <;> simp_all

theorem rejectIf_of_not {c : Prop} [Decidable c] {msg : String} (h : ¬ c) :
    rejectIf c msg = .ok () :=
  if_neg h

theorem rejectIf_of {c : Prop} [Decidable c] {msg : String} (h : c) :
    rejectIf c msg = .error msg :=
  if_pos h

/-- A changed error changes no success. -/
theorem mapError_eq_ok {ε' : Type u} {f : ε → ε'} {x : Except ε α} {a : α} :
    x.mapError f = .ok a ↔ x = .ok a := by
  cases x <;> simp [Except.mapError]

@[simp] theorem wrapError_eq_ok {text : String} {x : Except String α} {a : α} :
    wrapError text x = .ok a ↔ x = .ok a :=
  mapError_eq_ok

/-- A sequenced run succeeds exactly when both parts do. -/
@[simp] theorem bind_eq_ok {x : Except ε α} {f : α → Except ε β} {b : β} :
    (x >>= f) = .ok b ↔ ∃ a, x = .ok a ∧ f a = .ok b := by
  cases x with
  | error e => simp [bind, Except.bind]
  | ok a => simp [bind, Except.bind]

@[simp] theorem pure_eq_ok {a b : α} : (pure a : Except ε α) = .ok b ↔ a = b := by
  simp [pure, Except.pure]

@[simp] theorem ok_bind {a : α} {f : α → Except ε β} : ((Except.ok a : Except ε α) >>= f) = f a :=
  rfl

@[simp] theorem error_bind {e : ε} {f : α → Except ε β} :
    ((Except.error e : Except ε α) >>= f) = .error e :=
  rfl

/-- A loop of checks succeeds exactly when every check does. -/
@[simp] theorem forM_eq_ok {γ : Type} {l : List γ} {f : γ → Except ε PUnit} {u : PUnit} :
    l.forM f = .ok u ↔ ∀ a ∈ l, f a = .ok ⟨⟩ := by
  induction l with
  | nil => simp [List.forM_eq_forM]
  | cons a l ih =>
      rw [List.forM_eq_forM] at ih ⊢
      rw [List.forM_cons, bind_eq_ok, List.forall_mem_cons, ← ih]
      constructor
      · rintro ⟨_, ha, hl⟩
        exact ⟨ha, hl⟩
      · rintro ⟨ha, hl⟩
        exact ⟨_, ha, hl⟩

/-- A loop whose turns all succeed is the loop over their results. -/
theorem foldlM_ok {γ : Type} {f : α → γ → Except ε α} {g : α → γ → α} {l : List γ}
    (h : ∀ c ∈ l, ∀ a, f a c = .ok (g a c)) (a : α) : l.foldlM f a = .ok (l.foldl g a) := by
  induction l generalizing a with
  | nil => rfl
  | cons c l ih =>
      rw [List.foldlM_cons, h c List.mem_cons_self, ok_bind, List.foldl_cons]
      exact ih (fun c hc => h c (List.mem_cons_of_mem _ hc)) _

/-- What every turn preserves holds of the result of a loop. -/
theorem foldlM_invariant {γ : Type} {P : α → Prop} {f : α → γ → Except ε α} {l : List γ} {a b : α}
    (hturn : ∀ a c a', f a c = .ok a' → P a → P a') (h : l.foldlM f a = .ok b) (ha : P a) : P b := by
  induction l generalizing a with
  | nil =>
      cases h
      exact ha
  | cons c l ih =>
      rw [List.foldlM_cons] at h
      obtain ⟨a', ha', h⟩ := bind_eq_ok.1 h
      exact ih h (hturn a c a' ha' ha)

theorem map_eq_ok {f : α → β} {x : Except ε α} {b : β} :
    x.map f = .ok b ↔ ∃ a, x = .ok a ∧ f a = b := by
  cases x with
  | error e => simp [Except.map]
  | ok a => simp [Except.map]

@[simp] theorem functor_map_eq_ok {f : α → β} {x : Except ε α} {b : β} :
    f <$> x = .ok b ↔ ∃ a, x = .ok a ∧ f a = b :=
  map_eq_ok

/-- A run that is tested to have succeeded has a result. -/
theorem exists_ok_of_isOk {x : Except ε α} (h : x.isOk = true) : ∃ a, x = .ok a := by
  cases x with
  | error e => cases h
  | ok a => exact ⟨a, rfl⟩

end Lktrs.Foundation
