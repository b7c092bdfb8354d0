import Lktrs.Foundation.SelfDelimiting
import Lktrs.Foundation.Outcome

/-!
# Programs that move a position through a byte string

A scan keeps a position in a byte string, reads bytes and slices, and may stop: with an
error of the program, or with a fault when it touches a byte that is not there. It is exact
for a relation between results and byte strings when, from every position, it accepts
exactly the strings of the relation that stand there, moves behind them and never faults.
The rules follow the structure of a program; nothing here is about a particular format.
-/

set_option autoImplicit false

namespace Lktrs.Foundation

variable {ε α β : Type}

/-- How a scan stops without a result. -/
inductive Fault (ε : Type) where
  | error (e : ε)
  | outOfRange
deriving DecidableEq

/-- An error that a callee returned is no fault. -/
theorem mapError_ne_outOfRange (x : Except ε α) :
    x.mapError Fault.error ≠ .error (Fault.outOfRange : Fault ε) := by
  cases x <;> simp [Except.mapError]

/-- A sequence faults only where one of its parts does. -/
theorem bind_ne_outOfRange {x : Except (Fault ε) α} {f : α → Except (Fault ε) β}
    (hx : x ≠ .error .outOfRange) (hf : ∀ a, x = .ok a → f a ≠ .error .outOfRange) :
    (x >>= f) ≠ .error .outOfRange := by
  cases x with
  | error e =>
      rw [error_bind]
      intro h
      exact hx (by rw [Except.error.inj h])
  | ok a => exact hf a rfl

/-- A program with a position as its state. -/
abbrev Scan (ε α : Type) := StateT ℕ (Except (Fault ε)) α

namespace Scan

/-- Stop with an error. -/
def fail (e : ε) : Scan ε α := fun _ => .error (.error e)

/-- Stop with an error if the condition holds. -/
def check (c : Prop) [Decidable c] (e : ε) : Scan ε Unit := if c then fail e else pure ()

/-- A computation that reads nothing. -/
def lift (x : Except ε α) : Scan ε α := fun pos =>
  match x with
  | .ok a => .ok (a, pos)
  | .error e => .error (.error e)

/-- The byte at an index. -/
def byteAt (raw : List UInt8) (index : ℕ) : Scan ε UInt8 := fun pos =>
  match raw[index]? with
  | some b => .ok (b, pos)
  | none => .error .outOfRange

/-- The bytes from one index up to another. -/
def slice (raw : List UInt8) (lo hi : ℕ) : Scan ε (List UInt8) := fun pos =>
  match slice? raw lo hi with
  | some bs => .ok (bs, pos)
  | none => .error .outOfRange

/-- Stop with one error whatever the error is. -/
def orFail (s : Scan ε α) (e : ε) : Scan ε α := fun pos =>
  match s.run pos with
  | .error (.error _) => .error (.error e)
  | x => x

/-- A program a number of times; the results in order. -/
def repeatScan (s : Scan ε α) : ℕ → Scan ε (List α)
  | 0 => pure []
  | n + 1 => do
      let a ← s
      let rest ← repeatScan s n
      pure (a :: rest)

/-- A program a number of times, for its effect on the position. -/
def loop (s : Scan ε Unit) : ℕ → Scan ε Unit
  | 0 => pure ()
  | n + 1 => do
      s
      loop s n

/-- Stop with an error when the position is not the end. -/
def atEnd (raw : List UInt8) (e : ε) : Scan ε Unit := do
  let pos ← get
  check (pos ≠ raw.length) e

/-- What a scan from the start returns. -/
def result (s : Scan ε α) : Except (Fault ε) α := (s.run 0).map Prod.fst

theorem run_bind_eq_ok {s : Scan ε α} {f : α → Scan ε β} {pos : ℕ} {out : β × ℕ} :
    (s >>= f).run pos = .ok out ↔ ∃ a mid, s.run pos = .ok (a, mid) ∧ (f a).run mid = .ok out := by
  rw [StateT.run_bind, bind_eq_ok]
  constructor
  · rintro ⟨⟨a, mid⟩, h, h'⟩
    exact ⟨a, mid, h, h'⟩
  · rintro ⟨a, mid, h, h'⟩
    exact ⟨(a, mid), h, h'⟩

theorem run_bind_of_ok {s : Scan ε α} {f : α → Scan ε β} {pos mid : ℕ} {a : α}
    (h : s.run pos = .ok (a, mid)) : (s >>= f).run pos = (f a).run mid := by
  rw [StateT.run_bind, h]
  rfl

theorem run_bind_of_error {s : Scan ε α} {f : α → Scan ε β} {pos : ℕ} {e : Fault ε}
    (h : s.run pos = .error e) : (s >>= f).run pos = .error e := by
  rw [StateT.run_bind, h]
  rfl

theorem run_check {c : Prop} [Decidable c] (e : ε) (pos : ℕ) :
    (check c e).run pos = if c then .error (.error e) else .ok ((), pos) := by
  unfold check
  split_ifs <;> rfl

theorem run_get_bind (f : ℕ → Scan ε α) (pos : ℕ) : (get >>= f).run pos = (f pos).run pos := rfl

theorem run_set_bind (f : PUnit → Scan ε α) (pos pos' : ℕ) :
    (set pos' >>= f : Scan ε α).run pos = (f ⟨⟩).run pos' := rfl

theorem run_check_bind {c : Prop} [Decidable c] (e : ε) (f : Unit → Scan ε α) (pos : ℕ) :
    (check c e >>= f).run pos = if c then .error (.error e) else (f ()).run pos := by
  have hcheck := run_check (c := c) e pos
  split_ifs at hcheck ⊢
  · exact run_bind_of_error hcheck
  · exact run_bind_of_ok hcheck

theorem run_atEnd (raw : List UInt8) (e : ε) (pos : ℕ) :
    (atEnd raw e).run pos = if pos ≠ raw.length then .error (.error e) else .ok ((), pos) :=
  run_check e pos

theorem run_slice_of_le {raw : List UInt8} {lo hi : ℕ} (hlo : lo ≤ hi) (hhi : hi ≤ raw.length)
    (pos : ℕ) : (slice raw lo hi : Scan ε _).run pos = .ok ((raw.drop lo).take (hi - lo), pos) := by
  show (match slice? raw lo hi with | some bs => _ | none => _) = _
  rw [slice?_of_le hlo hhi]

theorem run_byteAt_of_lt {raw : List UInt8} {index : ℕ} (h : index < raw.length) (pos : ℕ) :
    (byteAt raw index : Scan ε _).run pos = .ok (raw[index], pos) := by
  show (match raw[index]? with | some b => _ | none => _) = _
  rw [List.getElem?_eq_getElem h]

end Scan

/-! ## Exactness -/

/-- From every position the scan accepts exactly the encodings that stand there, moves
behind them and does not fault. -/
structure Exact (raw : List UInt8) (s : Scan ε α) (R : α → List UInt8 → Prop) : Prop where
  run_eq_ok : ∀ {pos pos' : ℕ} {a : α}, pos ≤ raw.length →
    (s.run pos = .ok (a, pos') ↔ ∃ enc, R a enc ∧ enc <+: raw.drop pos ∧ pos' = pos + enc.length)
  safe : ∀ {pos : ℕ}, pos ≤ raw.length → s.run pos ≠ .error .outOfRange

/-- A prefix of what follows a position ends inside the string. -/
theorem add_length_le {raw enc : List UInt8} {pos : ℕ} (hpos : pos ≤ raw.length)
    (h : enc <+: raw.drop pos) : pos + enc.length ≤ raw.length := by
  have hle := h.length_le
  rw [List.length_drop] at hle
  omega

/-- Two parts stand at a position when the second stands behind the first. -/
theorem append_prefix_drop {raw xs ys : List UInt8} {pos : ℕ} :
    xs ++ ys <+: raw.drop pos ↔ xs <+: raw.drop pos ∧ ys <+: raw.drop (pos + xs.length) := by
  rw [← List.drop_drop]
  constructor
  · rintro ⟨zs, h⟩
    rw [← h, List.append_assoc, List.drop_left]
    exact ⟨⟨_, rfl⟩, ⟨_, rfl⟩⟩
  · rintro ⟨⟨us, hu⟩, hys⟩
    rw [← hu, List.drop_left] at hys
    rw [← hu]
    exact (List.prefix_append_right_inj xs).2 hys

namespace Exact

variable {raw : List UInt8} {s : Scan ε α} {R R' : α → List UInt8 → Prop}

theorem congr (h : Exact raw s R) (hR : ∀ a enc, R a enc ↔ R' a enc) : Exact raw s R' where
  run_eq_ok := by
    intro pos pos' a hpos
    rw [h.run_eq_ok hpos]
    simp only [hR]
  safe := h.safe

protected theorem pure (a : α) :
    Exact raw (pure a : Scan ε α) fun b enc => b = a ∧ enc = [] where
  run_eq_ok := by
    intro pos pos' b _
    rw [StateT.run_pure, pure_eq_ok]
    constructor
    · intro h
      obtain ⟨rfl, rfl⟩ := Prod.mk.inj h
      exact ⟨[], ⟨rfl, rfl⟩, List.nil_prefix, rfl⟩
    · rintro ⟨_, ⟨rfl, rfl⟩, -, rfl⟩
      rfl
  safe := by
    intro pos _ h
    cases h

/-- One program after another: their encodings stand one after the other. -/
protected theorem bind {f : α → Scan ε β} {S : α → β → List UInt8 → Prop} (hs : Exact raw s R)
    (hf : ∀ a enc, R a enc → Exact raw (f a) (S a)) :
    Exact raw (s >>= f) fun b enc => ∃ a xs ys, R a xs ∧ S a b ys ∧ enc = xs ++ ys where
  run_eq_ok := by
    intro pos pos' b hpos
    rw [Scan.run_bind_eq_ok]
    constructor
    · rintro ⟨a, mid, ha, hb⟩
      obtain ⟨xs, hR, hxs, rfl⟩ := (hs.run_eq_ok hpos).1 ha
      obtain ⟨ys, hS, hys, rfl⟩ := ((hf a xs hR).run_eq_ok (add_length_le hpos hxs)).1 hb
      refine ⟨xs ++ ys, ⟨a, xs, ys, hR, hS, rfl⟩, append_prefix_drop.2 ⟨hxs, hys⟩, ?_⟩
      rw [List.length_append, Nat.add_assoc]
    · rintro ⟨_, ⟨a, xs, ys, hR, hS, rfl⟩, hprefix, rfl⟩
      obtain ⟨hxs, hys⟩ := append_prefix_drop.1 hprefix
      refine ⟨a, pos + xs.length, (hs.run_eq_ok hpos).2 ⟨xs, hR, hxs, rfl⟩,
        ((hf a xs hR).run_eq_ok (add_length_le hpos hxs)).2 ⟨ys, hS, hys, ?_⟩⟩
      rw [List.length_append, Nat.add_assoc]
  safe := by
    intro pos hpos hfault
    cases hrun : s.run pos with
    | error e =>
        rw [Scan.run_bind_of_error hrun, Except.error.injEq] at hfault
        exact hs.safe hpos (hfault ▸ hrun)
    | ok out =>
        obtain ⟨a, mid⟩ := out
        obtain ⟨xs, hR, hxs, rfl⟩ := (hs.run_eq_ok hpos).1 hrun
        rw [Scan.run_bind_of_ok hrun] at hfault
        exact (hf a xs hR).safe (add_length_le hpos hxs) hfault

/-- A check in front of a program restricts what it accepts. -/
theorem check_bind {c : Prop} [Decidable c] (e : ε) {f : Unit → Scan ε α}
    (h : ¬ c → Exact raw (f ()) R) :
    Exact raw (Scan.check c e >>= f) fun a enc => ¬ c ∧ R a enc where
  run_eq_ok := by
    intro pos pos' a hpos
    rw [Scan.run_check_bind]
    by_cases hc : c
    · simp [hc]
    · rw [if_neg hc, (h hc).run_eq_ok hpos]
      simp only [hc, not_false_eq_true, true_and]
  safe := by
    intro pos hpos
    rw [Scan.run_check_bind]
    by_cases hc : c
    · simp [hc]
    · rw [if_neg hc]
      exact (h hc).safe hpos

protected theorem lift (x : Except ε α) :
    Exact raw (Scan.lift x) fun a enc => x = .ok a ∧ enc = [] where
  run_eq_ok := by
    intro pos pos' a _
    cases x with
    | error e =>
        constructor
        · intro h
          cases h
        · rintro ⟨_, ⟨h, -⟩, -⟩
          cases h
    | ok b =>
        constructor
        · intro h
          obtain ⟨rfl, rfl⟩ := Prod.mk.inj (Except.ok.inj h)
          exact ⟨[], ⟨rfl, rfl⟩, List.nil_prefix, rfl⟩
        · rintro ⟨_, ⟨h, rfl⟩, -, rfl⟩
          cases h
          rfl
  safe := by
    intro pos _ h
    cases x with
    | error e => cases h
    | ok b => cases h

/-- A scan that makes its result from a block of fixed size and stops when the string is too
short. -/
theorem block {n : ℕ} {f : List UInt8 → α}
    (hread : ∀ {pos}, pos + n ≤ raw.length →
      s.run pos = .ok (f ((raw.drop pos).take n), pos + n))
    (hstop : ∀ {pos}, pos ≤ raw.length → ¬ pos + n ≤ raw.length →
      ∃ e, s.run pos = .error (.error e)) :
    Exact raw s fun a enc => enc.length = n ∧ a = f enc where
  run_eq_ok := by
    intro pos pos' a hpos
    constructor
    · intro h
      by_cases hroom : pos + n ≤ raw.length
      · rw [hread hroom] at h
        obtain ⟨rfl, rfl⟩ := Prod.mk.inj (Except.ok.inj h)
        have hlength : ((raw.drop pos).take n).length = n := by
          rw [List.length_take, List.length_drop]
          omega
        exact ⟨_, ⟨hlength, rfl⟩, List.take_prefix _ _, by rw [hlength]⟩
      · obtain ⟨e, he⟩ := hstop hpos hroom
        rw [he] at h
        cases h
    · rintro ⟨enc, ⟨rfl, rfl⟩, hstart, rfl⟩
      -- a string that starts with the block has room for it
      rw [hread (add_length_le hpos hstart), ← List.prefix_iff_eq_take.1 hstart]
  safe := by
    intro pos hpos
    by_cases hroom : pos + n ≤ raw.length
    · rw [hread hroom]
      simp
    · obtain ⟨e, he⟩ := hstop hpos hroom
      rw [he]
      simp

/-- A computation on what was read. -/
theorem bind_lift {f : α → Except ε β} (h : Exact raw s R) :
    Exact raw (s >>= fun a => Scan.lift (f a)) fun b enc => ∃ a, R a enc ∧ f a = .ok b := by
  apply (h.bind fun a _ _ => Exact.lift (f a)).congr
  intro b enc
  constructor
  · rintro ⟨a, xs, _, ha, ⟨hb, rfl⟩, rfl⟩
    exact ⟨a, by rwa [List.append_nil], hb⟩
  · rintro ⟨a, ha, hb⟩
    exact ⟨a, enc, [], ha, ⟨hb, rfl⟩, (List.append_nil enc).symm⟩

/-- The result is made from what was read. -/
theorem bind_pure {g : α → β} (h : Exact raw s R) :
    Exact raw (s >>= fun a => pure (g a)) fun b enc => ∃ a, R a enc ∧ b = g a := by
  apply (h.bind fun a _ _ => Exact.pure (g a)).congr
  intro b enc
  constructor
  · rintro ⟨a, xs, _, ha, ⟨rfl, rfl⟩, rfl⟩
    exact ⟨a, by rwa [List.append_nil], rfl⟩
  · rintro ⟨a, ha, rfl⟩
    exact ⟨a, enc, [], ha, ⟨rfl, rfl⟩, (List.append_nil enc).symm⟩

protected theorem orFail (h : Exact raw s R) (e : ε) : Exact raw (s.orFail e) R where
  run_eq_ok := by
    intro pos pos' a hpos
    rw [← h.run_eq_ok hpos]
    show (match s.run pos with | .error (.error _) => _ | x => x) = _ ↔ _
    split
    · next heq => simp [heq]
    · rfl
  safe := by
    intro pos hpos
    show (match s.run pos with | .error (.error _) => _ | x => x) ≠ _
    split
    · simp
    · exact h.safe hpos

/-- A program a number of times reads that many encodings. -/
protected theorem repeatScan (h : Exact raw s R) (n : ℕ) :
    Exact raw (s.repeatScan n) fun as enc => as.length = n ∧ Encodes.many R as enc := by
  induction n with
  | zero =>
      apply (Exact.pure []).congr
      intro as enc
      constructor
      · rintro ⟨rfl, rfl⟩
        exact ⟨rfl, .nil⟩
      · rintro ⟨hlength, hmany⟩
        obtain rfl := List.length_eq_zero_iff.1 hlength
        cases hmany
        exact ⟨rfl, rfl⟩
  | succ n ih =>
      apply (h.bind fun a _ _ => ih.bind fun as _ _ => Exact.pure (a :: as)).congr
      intro as enc
      constructor
      · rintro ⟨a, xs, _, ha, ⟨rest, ys, _, ⟨hlength, hrest⟩, ⟨rfl, rfl⟩, rfl⟩, rfl⟩
        rw [List.append_nil]
        exact ⟨congrArg Nat.succ hlength, .cons ha hrest⟩
      · rintro ⟨hlength, hmany⟩
        cases hmany with
        | nil => cases hlength
        | cons ha hrest =>
            exact ⟨_, _, _, ha, ⟨_, _, _, ⟨Nat.succ.inj hlength, hrest⟩, ⟨rfl, rfl⟩, rfl⟩,
              by rw [List.append_nil]⟩

/-- A program that returns nothing, a number of times. -/
protected theorem loop {t : Scan ε Unit} (h : Exact raw t fun _ enc => ∃ a, R a enc) (n : ℕ) :
    Exact raw (t.loop n) fun _ enc => ∃ as, as.length = n ∧ Encodes.many R as enc := by
  induction n with
  | zero =>
      apply (Exact.pure ()).congr
      intro _ enc
      constructor
      · rintro ⟨-, rfl⟩
        exact ⟨[], rfl, .nil⟩
      · rintro ⟨as, hlength, hmany⟩
        obtain rfl := List.length_eq_zero_iff.1 hlength
        cases hmany
        exact ⟨rfl, rfl⟩
  | succ n ih =>
      apply (h.bind fun _ _ _ => ih).congr
      intro _ enc
      constructor
      · rintro ⟨_, xs, ys, ⟨a, ha⟩, ⟨as, hlength, hmany⟩, rfl⟩
        exact ⟨a :: as, congrArg Nat.succ hlength, .cons ha hmany⟩
      · rintro ⟨as, hlength, hmany⟩
        cases hmany with
        | nil => cases hlength
        | cons ha hrest => exact ⟨(), _, _, ⟨_, ha⟩, ⟨_, Nat.succ.inj hlength, hrest⟩, rfl⟩

/-- A scan that is followed by a check for the end accepts exactly the encodings. -/
theorem map_run_atEnd_eq_ok (h : Exact raw s R) (e : ε) {pos : ℕ} (hpos : pos ≤ raw.length) {a : α} :
    ((do let a ← s; Scan.atEnd raw e; pure a : Scan ε α).run pos).map Prod.fst = .ok a ↔
      R a (raw.drop pos) := by
  have hlength : (raw.drop pos).length = raw.length - pos := List.length_drop
  simp only [map_eq_ok, Scan.run_bind_eq_ok]
  constructor
  · rintro ⟨⟨b, last⟩, ⟨b', mid, hb, u, mid', hend, hpure⟩, rfl⟩
    obtain ⟨enc, hR, hstart, rfl⟩ := (h.run_eq_ok hpos).1 hb
    obtain ⟨rfl, -⟩ := Prod.mk.inj (Except.ok.inj hpure)
    rw [Scan.run_atEnd] at hend
    split_ifs at hend with hlast
    -- the encoding is all of the rest
    rw [not_not] at hlast
    rwa [hstart.eq_of_length (by omega)] at hR
  · intro hR
    refine ⟨(a, raw.length), ⟨a, raw.length, (h.run_eq_ok hpos).2 ⟨_, hR, List.prefix_refl _, by omega⟩,
      (), raw.length, ?_, rfl⟩, rfl⟩
    rw [Scan.run_atEnd, if_neg (not_not.2 rfl)]

theorem map_run_atEnd_ne (h : Exact raw s R) (e : ε) {pos : ℕ} (hpos : pos ≤ raw.length) :
    ((do let a ← s; Scan.atEnd raw e; pure a : Scan ε α).run pos).map Prod.fst ≠
      .error .outOfRange := by
  intro hfault
  cases hrun : s.run pos with
  | error f =>
      rw [Scan.run_bind_of_error hrun] at hfault
      obtain rfl : f = .outOfRange := Except.error.inj hfault
      exact h.safe hpos hrun
  | ok out =>
      obtain ⟨a, mid⟩ := out
      rw [Scan.run_bind_of_ok hrun] at hfault
      have hend := Scan.run_atEnd raw e mid
      split_ifs at hend with hlast
      · rw [Scan.run_bind_of_error hend] at hfault
        cases hfault
      · rw [Scan.run_bind_of_ok hend] at hfault
        cases hfault

theorem result_eq_ok (h : Exact raw s R) (e : ε) {a : α} :
    Scan.result (do let a ← s; Scan.atEnd raw e; pure a) = .ok a ↔ R a raw := by
  have hiff := h.map_run_atEnd_eq_ok e (Nat.zero_le _) (a := a)
  rwa [List.drop_zero] at hiff

theorem result_ne_outOfRange (h : Exact raw s R) (e : ε) :
    Scan.result (do let a ← s; Scan.atEnd raw e; pure a) ≠ .error .outOfRange :=
  h.map_run_atEnd_ne e (Nat.zero_le _)

end Exact

/-! ## Fixed widths -/

/-- From a position with room for the width, the scan moves on by the width exactly where the
condition holds, and stops with one of the errors where it does not. -/
structure Strides (raw : List UInt8) (s : Scan ε Unit) (width : ℕ) (P : ℕ → Prop) (E : ε → Prop) :
    Prop where
  run_of : ∀ {pos : ℕ}, pos + width ≤ raw.length → P pos → s.run pos = .ok ((), pos + width)
  run_of_not : ∀ {pos : ℕ}, pos + width ≤ raw.length → ¬ P pos →
    ∃ e, E e ∧ s.run pos = .error (.error e)

namespace Strides

variable {raw : List UInt8} {s t : Scan ε Unit} {width width' : ℕ} {P Q : ℕ → Prop} {E : ε → Prop}

/-- One stride after another. -/
protected theorem bind (hs : Strides raw s width P E) (ht : Strides raw t width' Q E) :
    Strides raw (s >>= fun _ => t) (width + width') (fun pos => P pos ∧ Q (pos + width)) E where
  run_of := by
    rintro pos hroom ⟨hP, hQ⟩
    rw [Scan.run_bind_of_ok (hs.run_of (by omega) hP), ht.run_of (by omega) hQ, Nat.add_assoc]
  run_of_not := by
    intro pos hroom hnot
    by_cases hP : P pos
    · obtain ⟨e, he, hrun⟩ := ht.run_of_not (by omega) fun hQ => hnot ⟨hP, hQ⟩
      exact ⟨e, he, by rw [Scan.run_bind_of_ok (hs.run_of (by omega) hP), hrun]⟩
    · obtain ⟨e, he, hrun⟩ := hs.run_of_not (by omega) hP
      exact ⟨e, he, Scan.run_bind_of_error hrun⟩

/-- The same stride a number of times. -/
protected theorem loop (hs : Strides raw s width P E) (n : ℕ) :
    Strides raw (s.loop n) (n * width) (fun pos => ∀ i < n, P (pos + i * width)) E := by
  induction n with
  | zero =>
      refine ⟨?_, ?_⟩
      · intro pos _ _
        rw [Nat.zero_mul]
        rfl
      · intro pos _ hnot
        exact absurd (fun i hi => absurd hi (Nat.not_lt_zero i)) hnot
  | succ n ih =>
      have hstep := hs.bind ih
      have hwidth : (n + 1) * width = width + n * width := by ring
      -- the first stride stands at the position, the others behind it
      have hall : ∀ pos, (∀ i < n + 1, P (pos + i * width)) ↔
          P pos ∧ ∀ i < n, P (pos + width + i * width) := by
        intro pos
        have hshift : ∀ i, pos + (i + 1) * width = pos + width + i * width := by
          intro i
          ring
        rw [Nat.forall_lt_succ_left]
        simp only [hshift, Nat.zero_mul, Nat.add_zero]
      rw [hwidth]
      refine ⟨?_, ?_⟩
      · intro pos hroom hP
        exact hstep.run_of hroom ((hall pos).1 hP)
      · intro pos hroom hnot
        exact hstep.run_of_not hroom fun hP => hnot ((hall pos).2 hP)

end Strides

/-! ## Readers of the rest -/

/-- From every position the scan does what a reader does that is given the rest of the
string and returns what it leaves: the same errors, the same results, and the position is
where the rest begins. -/
def Follows (raw : List UInt8) (s : Scan ε α) (f : List UInt8 → Except ε (α × List UInt8)) : Prop :=
  ∀ pos ≤ raw.length, (∃ e, f (raw.drop pos) = .error e ∧ s.run pos = .error (.error e)) ∨
    ∃ a, ∃ pos' ≤ raw.length, f (raw.drop pos) = .ok (a, raw.drop pos') ∧ s.run pos = .ok (a, pos')

namespace Follows

variable {raw : List UInt8} {s : Scan ε α} {f : List UInt8 → Except ε (α × List UInt8)}

protected theorem pure (a : α) : Follows raw (pure a : Scan ε α) fun rest => .ok (a, rest) :=
  fun pos hpos => .inr ⟨a, pos, hpos, rfl, rfl⟩

protected theorem bind {t : α → Scan ε β} {g : α → List UInt8 → Except ε (β × List UInt8)}
    (hs : Follows raw s f) (ht : ∀ a, Follows raw (t a) (g a)) :
    Follows raw (s >>= t) fun rest => f rest >>= fun out => g out.1 out.2 := by
  intro pos hpos
  rcases hs pos hpos with ⟨e, hf, hrun⟩ | ⟨a, mid, hmid, hf, hrun⟩
  · exact .inl ⟨e, by simp only [hf]; rfl, Scan.run_bind_of_error hrun⟩
  · simp only [hf, ok_bind, Scan.run_bind_of_ok hrun]
    exact ht a mid hmid

/-- A check on what was read, in front of a program. -/
theorem check_bind {c : Prop} [Decidable c] {e : ε} {t : Unit → Scan ε α} (h : Follows raw (t ()) f) :
    Follows raw (Scan.check c e >>= t) fun rest => if c then .error e else f rest := by
  intro pos hpos
  rw [Scan.run_check_bind]
  by_cases hc : c
  · simp only [if_pos hc]
    exact .inl ⟨e, rfl, rfl⟩
  · simp only [if_neg hc]
    exact h pos hpos

/-- One error in place of every error. -/
protected theorem orFail (h : Follows raw s f) (e : ε) :
    Follows raw (s.orFail e) fun rest => (f rest).mapError fun _ => e := by
  intro pos hpos
  rcases h pos hpos with ⟨e', hf, hrun⟩ | ⟨a, mid, hmid, hf, hrun⟩
  · refine .inl ⟨e, by simp only [hf]; rfl, ?_⟩
    show (match s.run pos with | .error (.error _) => _ | x => x) = _
    rw [hrun]
  · refine .inr ⟨a, mid, hmid, by simp only [hf]; rfl, ?_⟩
    show (match s.run pos with | .error (.error _) => _ | x => x) = _
    rw [hrun]

/-- Both end with a check that nothing is left. -/
theorem map_run_atEnd (h : Follows raw s f) (e : ε) {pos : ℕ} (hpos : pos ≤ raw.length) :
    ((do let a ← s; Scan.atEnd raw e; pure a : Scan ε α).run pos).map Prod.fst =
      ((f (raw.drop pos) >>= fun out =>
        if out.2.length ≠ 0 then .error e else .ok out.1).mapError .error) := by
  rcases h pos hpos with ⟨e', hf, hrun⟩ | ⟨a, mid, hmid, hf, hrun⟩
  · rw [Scan.run_bind_of_error hrun, hf]
    rfl
  · have hend := Scan.run_atEnd raw e mid
    rw [Scan.run_bind_of_ok hrun, hf, ok_bind, List.length_drop]
    split_ifs at hend with hlast
    · rw [Scan.run_bind_of_error hend, if_pos (by omega)]
      rfl
    · rw [Scan.run_bind_of_ok hend, if_neg (by omega)]
      rfl

end Follows

end Lktrs.Foundation
