import Mathlib.Tactic

/-!
# Runs, and a file entry under crashes

A run folds a step function over a list of events; an invariant of the step is
an invariant of the run (`run_invariant`). `FileEntry` is one directory entry
with what a reader sees now and what a power loss would leave: a rename replaces
the first, synchronising the directory makes it the second, and the system may
write it back at any time.
-/

set_option autoImplicit false

namespace Lktrs.Foundation

universe u v

section Runs

variable {σ : Type u} {ε : Type v} {step : σ → ε → σ}

/-- The state after a list of events. -/
def run (step : σ → ε → σ) (s : σ) (events : List ε) : σ := events.foldl step s

@[simp] theorem run_nil (s : σ) : run step s [] = s := rfl

@[simp] theorem run_cons (s : σ) (e : ε) (es : List ε) :
    run step s (e :: es) = run step (step s e) es := rfl

theorem run_append (s : σ) (es es' : List ε) :
    run step s (es ++ es') = run step (run step s es) es' :=
  List.foldl_append

/-- What every step preserves holds along every run. -/
theorem run_invariant (Inv : σ → Prop) (hstep : ∀ s e, Inv s → Inv (step s e)) {s : σ}
    (hinit : Inv s) (events : List ε) : Inv (run step s events) := by
  induction events generalizing s with
  | nil => exact hinit
  | cons e es ih => exact ih (hstep s e hinit)

/-- From every state with `P`, some events lead to a state with `Q`. -/
def Leads (step : σ → ε → σ) (P Q : σ → Prop) : Prop :=
  ∀ s, P s → ∃ events, Q (run step s events)

theorem Leads.of_step {P Q : σ → Prop} (e : ε) (h : ∀ s, P s → Q (step s e)) : Leads step P Q :=
  fun s hs => ⟨[e], h s hs⟩

theorem Leads.trans {P Q R : σ → Prop} (hPQ : Leads step P Q) (hQR : Leads step Q R) :
    Leads step P R := by
  intro s hs
  obtain ⟨es, hes⟩ := hPQ s hs
  obtain ⟨es', hes'⟩ := hQR _ hes
  refine ⟨es ++ es', ?_⟩
  rw [run_append]
  exact hes'

end Runs

/-- A directory entry: its contents now, and those that survive a power loss. -/
@[ext] structure FileEntry (α : Type u) where
  volatile : Option α
  durable : Option α

namespace FileEntry

variable {α : Type u}

/-- Rename another file onto the entry. -/
def replace (f : FileEntry α) (contents : α) : FileEntry α := { f with volatile := some contents }

/-- Make the current contents durable. -/
def sync (f : FileEntry α) : FileEntry α := { f with durable := f.volatile }

/-- An entry that was not made durable is lost. -/
def powerLoss (f : FileEntry α) : FileEntry α := { f with volatile := f.durable }

@[simp] theorem replace_volatile (f : FileEntry α) (a : α) : (f.replace a).volatile = some a := rfl

@[simp] theorem replace_durable (f : FileEntry α) (a : α) : (f.replace a).durable = f.durable := rfl

@[simp] theorem sync_volatile (f : FileEntry α) : f.sync.volatile = f.volatile := rfl

@[simp] theorem sync_durable (f : FileEntry α) : f.sync.durable = f.volatile := rfl

@[simp] theorem powerLoss_volatile (f : FileEntry α) : f.powerLoss.volatile = f.durable := rfl

@[simp] theorem powerLoss_durable (f : FileEntry α) : f.powerLoss.durable = f.durable := rfl

/-- A property of the contents, now and after a power loss. -/
def Both (P : Option α → Prop) (f : FileEntry α) : Prop := P f.volatile ∧ P f.durable

theorem Both.replace {P : Option α → Prop} {f : FileEntry α} {a : α} (h : f.Both P)
    (ha : P (some a)) : (f.replace a).Both P :=
  ⟨ha, h.2⟩

theorem Both.sync {P : Option α → Prop} {f : FileEntry α} (h : f.Both P) : f.sync.Both P :=
  ⟨h.1, h.1⟩

theorem Both.powerLoss {P : Option α → Prop} {f : FileEntry α} (h : f.Both P) :
    f.powerLoss.Both P :=
  ⟨h.2, h.2⟩

theorem Both.imp {P Q : Option α → Prop} {f : FileEntry α} (h : f.Both P)
    (hPQ : ∀ contents, P contents → Q contents) : f.Both Q :=
  ⟨hPQ _ h.1, hPQ _ h.2⟩

end FileEntry

end Lktrs.Foundation
